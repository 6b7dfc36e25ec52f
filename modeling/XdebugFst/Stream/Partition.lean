import XdebugFst.Stream.Packets

/-!
# The packets of a stream are a partition of its transfers

The packet loop keeps the transfers it has seen in two places, the closed packets and
the open ones.  For the partition the two are not distinguished: `states` lists both,
closing a packet only permutes that list, and a transfer either extends one of its
members or adds a new one.  `Covers` says what holds of the list after `n` transfers,
`OpenRuns` what the open packets promise about the transfers to come, and `Closed` what
has been written down about the closed ones.
-/

namespace XdebugFst.Stream

open Lib

variable {J : Type} {keyOf : StreamSample J → String} {ts : List (StreamSample J)} {n : ℕ}

/-- The positions of the beats of a packet. -/
def PacketState.positions (s : PacketState J) : List ℕ := s.beats.map Beat.pos

/-- A closed packet as the packet state that was closed. -/
def Packet.state (p : Packet J) : PacketState J :=
  { packetIndex := p.packetIndex
    partialBegin := p.partialBegin
    beats := p.beats
    channelId := p.channelId
    stableFields := p.packetStableFields
    stableMismatches := p.packetStableMismatches }

/-- The closed packets and the open ones. -/
def states (st : Assembly J) : List (PacketState J) :=
  st.completedPacketJson.map (fun e => e.2.state) ++ st.activePackets.values

/-! ### Runs of one key -/

/-- The beats are the transfers of one key between the first and the last of them, with
`sop` only on the first and `eop` only on the last. -/
structure IsRun (keyOf : StreamSample J → String) (ts : List (StreamSample J))
    (beats : List (Beat J)) : Prop where
  nonempty : beats ≠ []
  points : ∀ b ∈ beats, ts[b.pos]? = some b.sample
  ordered : (beats.map Beat.pos).Pairwise (· < ·)
  oneKey : ∀ a ∈ beats, ∀ b ∈ beats, keyOf a.sample = keyOf b.sample
  dense : ∀ a ∈ beats, ∀ b ∈ beats, ∀ i t, a.pos ≤ i → i ≤ b.pos → ts[i]? = some t →
    keyOf t = keyOf a.sample → i ∈ beats.map Beat.pos
  sop_first : ∀ b ∈ beats.tail, b.sample.sop = false
  eop_last : ∀ b ∈ beats.dropLast, b.sample.eop = false

namespace IsRun

lemma singleton {beat : Beat J} (h : ts[beat.pos]? = some beat.sample) :
    IsRun keyOf ts [beat] := by
  refine ⟨by simp, by simpa using h, by simp, by simp, ?_, by simp, by simp⟩
  intro a ha b hb i t hai hib _ _
  obtain rfl := List.mem_singleton.1 ha
  obtain rfl := List.mem_singleton.1 hb
  simp [le_antisymm hib hai]

/-- The next transfer of the key extends a run that no `eop` has ended. -/
lemma snoc {beats : List (Beat J)} {beat : Beat J} (h : IsRun keyOf ts beats)
    (hpoint : ts[beat.pos]? = some beat.sample) (hlt : ∀ b ∈ beats, b.pos < beat.pos)
    (hkey : ∀ b ∈ beats, keyOf b.sample = keyOf beat.sample)
    (hreach : ∀ a ∈ beats, ∀ i t, a.pos ≤ i → i < beat.pos → ts[i]? = some t →
      keyOf t = keyOf beat.sample → i ∈ beats.map Beat.pos)
    (hsop : beat.sample.sop = false) (heop : ∀ b ∈ beats, b.sample.eop = false) :
    IsRun keyOf ts (beats ++ [beat]) where
  nonempty := by simp
  points b hb := by
    rcases List.mem_append.1 hb with hb | hb
    · exact h.points b hb
    · obtain rfl := List.mem_singleton.1 hb
      exact hpoint
  ordered := by
    rw [List.map_append, List.pairwise_append]
    refine ⟨h.ordered, by simp, ?_⟩
    intro p hp q hq
    obtain ⟨b, hb, rfl⟩ := List.mem_map.1 hp
    obtain rfl : q = beat.pos := by simpa using hq
    exact hlt b hb
  oneKey a ha b hb := by
    have hall : ∀ c ∈ beats ++ [beat], keyOf c.sample = keyOf beat.sample := by
      intro c hc
      rcases List.mem_append.1 hc with hc | hc
      · exact hkey c hc
      · obtain rfl := List.mem_singleton.1 hc
        rfl
    rw [hall a ha, hall b hb]
  dense a ha b hb i t hai hib ht hk := by
    rw [List.map_append, List.mem_append]
    rcases List.mem_append.1 ha with ha | ha
    · rw [hkey a ha] at hk
      rcases lt_or_ge i beat.pos with hi | hi
      · exact Or.inl (hreach a ha i t hai hi ht hk)
      · -- nothing of the run lies behind the new beat
        right
        rcases List.mem_append.1 hb with hb | hb
        · exact absurd (hlt b hb) (by omega)
        · obtain rfl := List.mem_singleton.1 hb
          simp [le_antisymm hib hi]
    · obtain rfl := List.mem_singleton.1 ha
      right
      rcases List.mem_append.1 hb with hb | hb
      · exact absurd (hlt b hb) (by omega)
      · obtain rfl := List.mem_singleton.1 hb
        simp [le_antisymm hib hai]
  sop_first b hb := by
    rw [List.tail_append_of_ne_nil h.nonempty] at hb
    rcases List.mem_append.1 hb with hb | hb
    · exact h.sop_first b hb
    · obtain rfl := List.mem_singleton.1 hb
      exact hsop
  eop_last b hb := by
    rw [List.dropLast_concat] at hb
    exact heop b hb

lemma exists_ends {beats : List (Beat J)} (h : IsRun keyOf ts beats) :
    ∃ front back, beats.head? = some front ∧ beats.getLast? = some back :=
  ⟨beats.head h.nonempty, beats.getLast h.nonempty, List.head?_eq_some_head h.nonempty,
    List.getLast?_eq_some_getLast h.nonempty⟩

end IsRun

/-! ### Covering the transfers seen so far -/

/-- The packet states partition the first `n` transfers into runs, and their numbers are
the first `next` numbers in the order of the first beats. -/
structure Covers (keyOf : StreamSample J → String) (ts : List (StreamSample J)) (n next : ℕ)
    (l : List (PacketState J)) : Prop where
  runs : ∀ s ∈ l, IsRun keyOf ts s.beats
  begins : ∀ s ∈ l, ∀ b ∈ s.beats.head?, s.partialBegin = !b.sample.sop
  cover : (l.flatMap PacketState.positions).Perm (List.range n)
  indices : (l.map PacketState.packetIndex).Perm (List.range next)
  firsts : ∀ s ∈ l, ∀ s' ∈ l, s.packetIndex < s'.packetIndex →
    ∀ b ∈ s.beats.head?, ∀ b' ∈ s'.beats.head?, b.pos < b'.pos

namespace Covers

variable {next : ℕ} {l l' : List (PacketState J)}

lemma perm (h : Covers keyOf ts n next l) (hl : l.Perm l') : Covers keyOf ts n next l' where
  runs s hs := h.runs s (hl.mem_iff.2 hs)
  begins s hs := h.begins s (hl.mem_iff.2 hs)
  cover := (hl.symm.flatMap_right _).trans h.cover
  indices := (hl.symm.map _).trans h.indices
  firsts s hs s' hs' := h.firsts s (hl.mem_iff.2 hs) s' (hl.mem_iff.2 hs')

lemma pos_lt (h : Covers keyOf ts n next l) {s : PacketState J} (hs : s ∈ l) {b : Beat J}
    (hb : b ∈ s.beats) : b.pos < n := by
  have hmem : b.pos ∈ l.flatMap PacketState.positions :=
    List.mem_flatMap.2 ⟨s, hs, List.mem_map_of_mem hb⟩
  simpa using h.cover.mem_iff.1 hmem

lemma index_lt (h : Covers keyOf ts n next l) {s : PacketState J} (hs : s ∈ l) :
    s.packetIndex < next := by
  simpa using h.indices.mem_iff.1 (List.mem_map_of_mem hs)

/-- A transfer that starts a packet. -/
lemma cons_new (h : Covers keyOf ts n next l) {s : PacketState J} {beat : Beat J}
    (hpos : beat.pos = n) (hpoint : ts[n]? = some beat.sample) (hbeats : s.beats = [beat])
    (hindex : s.packetIndex = next) (hbegin : s.partialBegin = !beat.sample.sop) :
    Covers keyOf ts (n + 1) (next + 1) (s :: l) where
  runs s' hs' := by
    rcases List.mem_cons.1 hs' with rfl | hs'
    · rw [hbeats]
      exact IsRun.singleton (by rw [hpos]; exact hpoint)
    · exact h.runs s' hs'
  begins s' hs' b hb := by
    rcases List.mem_cons.1 hs' with rfl | hs'
    · obtain rfl : beat = b := by simpa [hbeats] using hb
      exact hbegin
    · exact h.begins s' hs' b hb
  cover := by
    have hs : s.positions = [n] := by simp [PacketState.positions, hbeats, hpos]
    rw [List.flatMap_cons, hs, List.range_succ]
    exact (h.cover.cons n).trans (List.perm_append_singleton n _).symm
  indices := by
    rw [List.map_cons, hindex, List.range_succ]
    exact (h.indices.cons next).trans (List.perm_append_singleton next _).symm
  firsts a ha b hb hlt fa hfa fb hfb := by
    rcases List.mem_cons.1 ha with rfl | ha'
    · rcases List.mem_cons.1 hb with rfl | hb'
      · exact absurd hlt (lt_irrefl _)
      · have := h.index_lt hb'
        omega
    · rcases List.mem_cons.1 hb with rfl | hb'
      · obtain rfl : beat = fb := by simpa [hbeats] using hfb
        rw [hpos]
        exact h.pos_lt ha' (List.mem_of_mem_head? hfa)
      · exact h.firsts a ha' b hb' hlt fa hfa fb hfb

/-- A transfer that extends a packet. -/
lemma cons_extend {s s' : PacketState J} (h : Covers keyOf ts n next (s :: l))
    {beat : Beat J} (hpos : beat.pos = n) (hbeats : s'.beats = s.beats ++ [beat])
    (hrun : IsRun keyOf ts s'.beats) (hindex : s'.packetIndex = s.packetIndex)
    (hbegin : s'.partialBegin = s.partialBegin) :
    Covers keyOf ts (n + 1) next (s' :: l) := by
  have hmem : s ∈ s :: l := List.mem_cons_self
  have hhead : s'.beats.head? = s.beats.head? := by
    rw [hbeats, List.head?_append_of_ne_nil _ (h.runs s hmem).nonempty]
  -- apart from the new last beat the two lists look the same
  have hback : ∀ a ∈ s' :: l, ∃ a' ∈ s :: l, a'.packetIndex = a.packetIndex ∧
      a'.beats.head? = a.beats.head? ∧ a'.partialBegin = a.partialBegin := by
    intro a ha
    rcases List.mem_cons.1 ha with rfl | ha
    · exact ⟨s, hmem, hindex.symm, hhead.symm, hbegin.symm⟩
    · exact ⟨a, List.mem_cons_of_mem _ ha, rfl, rfl, rfl⟩
  refine ⟨?_, ?_, ?_, ?_, ?_⟩
  · intro a ha
    rcases List.mem_cons.1 ha with rfl | ha
    · exact hrun
    · exact h.runs a (List.mem_cons_of_mem _ ha)
  · intro a ha b hb
    obtain ⟨a', ha', -, hhd, hbg⟩ := hback a ha
    rw [← hbg]
    exact h.begins a' ha' b (hhd ▸ hb)
  · have hs : s'.positions = s.positions ++ [n] := by
      simp [PacketState.positions, hbeats, hpos]
    have hc := h.cover
    rw [List.flatMap_cons] at hc
    rw [List.flatMap_cons, hs, List.append_assoc, List.range_succ]
    have hmid : (s.positions ++ ([n] ++ l.flatMap PacketState.positions)).Perm
        ((s.positions ++ l.flatMap PacketState.positions) ++ [n]) := by
      rw [List.append_assoc]
      exact List.perm_append_comm.append_left _
    exact hmid.trans (hc.append_right [n])
  · have hi := h.indices
    rw [List.map_cons] at hi ⊢
    rwa [hindex]
  · intro a ha b hb hlt fa hfa fb hfb
    obtain ⟨a', ha', hia, hha, -⟩ := hback a ha
    obtain ⟨b', hb', hib, hhb, -⟩ := hback b hb
    exact h.firsts a' ha' b' hb' (by omega) fa (hha ▸ hfa) fb (hhb ▸ hfb)

/-- A position belongs to one packet only. -/
lemma disjoint {s s' : PacketState J} (h : Covers keyOf ts n next (s :: l)) (hs' : s' ∈ l)
    {i : ℕ} (hi : i ∈ s.positions) : i ∉ s'.positions := by
  have hnd : (s.positions ++ l.flatMap PacketState.positions).Nodup :=
    h.cover.nodup_iff.2 List.nodup_range
  intro hi'
  exact (List.disjoint_of_nodup_append hnd) hi (List.mem_flatMap.2 ⟨s', hs', hi'⟩)

end Covers

/-! ### The indices written into the samples -/

lemma markBeat_getElem?_of_ne {packetIndex : ℕ} {samples : List (StreamSample J)}
    {b : Beat J × ℕ} {i : ℕ} (h : b.1.pos ≠ i) :
    (markBeat packetIndex samples b)[i]? = samples[i]? := by
  simp [markBeat, h]

lemma foldl_markBeat_of_not_mem (packetIndex : ℕ) {i : ℕ} (beats : List (Beat J)) (c : ℕ)
    (samples : List (StreamSample J)) (h : i ∉ beats.map Beat.pos) :
    ((beats.zipIdx c).foldl (markBeat packetIndex) samples)[i]? = samples[i]? := by
  induction beats generalizing c samples with
  | nil => rfl
  | cons b beats ih =>
      simp only [List.map_cons, List.mem_cons, not_or] at h
      rw [List.zipIdx_cons, List.foldl_cons, ih _ _ h.2, markBeat_getElem?_of_ne (Ne.symm h.1)]

lemma foldl_markBeat_of_mem (packetIndex : ℕ) {k : ℕ} {b : Beat J} (beats : List (Beat J))
    (c : ℕ) (samples : List (StreamSample J)) (hnd : (beats.map Beat.pos).Nodup)
    (h : beats[k]? = some b) :
    ((beats.zipIdx c).foldl (markBeat packetIndex) samples)[b.pos]? =
      samples[b.pos]?.map (StreamSample.stamp packetIndex (c + k)) := by
  induction beats generalizing c samples k with
  | nil => simp at h
  | cons b' beats ih =>
      rw [List.map_cons, List.nodup_cons] at hnd
      rw [List.zipIdx_cons, List.foldl_cons]
      cases k with
      | zero =>
          obtain rfl : b' = b := by simpa using h
          rw [foldl_markBeat_of_not_mem _ _ _ _ hnd.1]
          simp [markBeat]
      | succ k =>
          have hk : beats[k]? = some b := by simpa using h
          have hne : b'.pos ≠ b.pos := fun heq =>
            hnd.1 (heq ▸ List.mem_map_of_mem (List.mem_of_getElem? hk))
          rw [ih (c + 1) _ hnd.2 hk, markBeat_getElem?_of_ne hne]
          congr 2
          omega

/-! ### The invariant of the packet loop -/

/-- What the open packets promise: their beats have the key they are stored under, and
no transfer of that key since the first of them is missing. -/
structure OpenRuns (keyOf : StreamSample J → String) (ts : List (StreamSample J)) (n : ℕ)
    (m : OrderedMap String (PacketState J)) : Prop where
  key : ∀ k s, m.find? k = some s → ∀ b ∈ s.beats, keyOf b.sample = k
  reach : ∀ k s, m.find? k = some s → ∀ a ∈ s.beats, ∀ i t, a.pos ≤ i → i < n →
    ts[i]? = some t → keyOf t = k → i ∈ s.positions

/-- What is written down about the closed packets. -/
structure Closed (ts : List (StreamSample J)) (st : Assembly J) : Prop where
  rendered : ∀ e ∈ st.completedPacketJson, e.1 = e.2.packetIndex ∧
    ∃ front back, e.2.beats.head? = some front ∧ e.2.beats.getLast? = some back ∧
      e.2 = packetJson e.2.state front back
  complete : st.completePackets =
    st.completedPacketJson.countP fun e => !(e.2.partialBegin || e.2.partialEnd)
  total : st.completePackets + st.partialPackets = st.completedPacketJson.length
  marked : ∀ e ∈ st.completedPacketJson, ∀ (k : ℕ) (b : Beat J), e.2.beats[k]? = some b →
    st.samples[b.pos]? = some (b.sample.stamp e.2.packetIndex k)
  unmarked : ∀ i, (∀ e ∈ st.completedPacketJson, i ∉ e.2.state.positions) →
    st.samples[i]? = ts[i]?

/-- The invariant of the packet loop after `n` transfers. -/
structure Inv (keyOf : StreamSample J → String) (ts : List (StreamSample J)) (n : ℕ)
    (st : Assembly J) : Prop where
  covers : Covers keyOf ts n st.nextPacketIndex (states st)
  openRuns : OpenRuns keyOf ts n st.activePackets
  closed : Closed ts st

lemma mem_states_of_find? {st : Assembly J} {k : String} {s : PacketState J}
    (h : st.activePackets.find? k = some s) : s ∈ states st :=
  List.mem_append_right _ (List.mem_map.2 ⟨(k, s), (st.activePackets.mem_entries_iff k s).2 h, rfl⟩)

lemma states_perm_of_find? {st : Assembly J} {k : String} {s : PacketState J}
    (h : st.activePackets.find? k = some s) :
    (states st).Perm (s :: (st.completedPacketJson.map (fun e => e.2.state) ++
      (st.activePackets.erase k).values)) :=
  (((OrderedMap.entries_perm_of_find? h).map Prod.snd).append_left _).trans List.perm_middle

/-! ### Closing a packet -/

lemma appendPacket_of_none {st : Assembly J} {key : String}
    (h : st.activePackets.find? key = none) : appendPacket st key = st := by
  simp [appendPacket, h]

/-- Closing an open packet that has beats. -/
lemma appendPacket_of_some {st : Assembly J} {key : String} {s : PacketState J}
    {front back : Beat J} (h : st.activePackets.find? key = some s)
    (hfront : s.beats.head? = some front) (hback : s.beats.getLast? = some back) :
    appendPacket st key =
      { activePackets := st.activePackets.erase key
        completedPacketJson :=
          st.completedPacketJson ++ [(s.packetIndex, packetJson s front back)]
        nextPacketIndex := st.nextPacketIndex
        completePackets := if s.partialBegin || !back.sample.eop then st.completePackets
          else st.completePackets + 1
        partialPackets := if s.partialBegin || !back.sample.eop then st.partialPackets + 1
          else st.partialPackets
        packetStableMismatchCount := st.packetStableMismatchCount + s.stableMismatches.length
        samples := markBeats s.packetIndex s.beats st.samples } := by
  simp [appendPacket, h, hfront, hback, packetJson]

lemma OpenRuns.erase {m : OrderedMap String (PacketState J)} (h : OpenRuns keyOf ts n m)
    (key : String) : OpenRuns keyOf ts n (m.erase key) where
  key k s hs := h.key k s (m.find?_erase_eq_some_iff.1 hs).2
  reach k s hs := h.reach k s (m.find?_erase_eq_some_iff.1 hs).2

lemma Closed.appendPacket {st : Assembly J} {key : String} {s : PacketState J}
    {front back : Beat J} (h : Closed ts st) (hs : st.activePackets.find? key = some s)
    (hrun : IsRun keyOf ts s.beats)
    (hdisj : ∀ e ∈ st.completedPacketJson, ∀ i ∈ s.positions, i ∉ e.2.state.positions)
    (hfront : s.beats.head? = some front) (hback : s.beats.getLast? = some back) :
    Closed ts (appendPacket st key) := by
  have hnd : (s.beats.map Beat.pos).Nodup := hrun.ordered.imp ne_of_lt
  rw [appendPacket_of_some hs hfront hback]
  refine ⟨?_, ?_, ?_, ?_, ?_⟩
  · intro e he
    rcases List.mem_append.1 he with he | he
    · exact h.rendered e he
    · obtain rfl := List.mem_singleton.1 he
      exact ⟨rfl, front, back, hfront, hback, rfl⟩
  · simp only [List.countP_append, List.countP_singleton, h.complete]
    cases hp : (s.partialBegin || !back.sample.eop) <;> simp [packetJson, hp]
  · have := h.total
    simp only [List.length_append, List.length_singleton]
    split_ifs <;> omega
  · intro e he k b hb
    rcases List.mem_append.1 he with he | he
    · have hpos : b.pos ∉ s.positions := fun hmem =>
        hdisj e he b.pos hmem (List.mem_map_of_mem (List.mem_of_getElem? hb))
      simp only [markBeats]
      rw [foldl_markBeat_of_not_mem _ _ _ _ hpos]
      exact h.marked e he k b hb
    · obtain rfl := List.mem_singleton.1 he
      have hbeat : s.beats[k]? = some b := hb
      have hmem : b ∈ s.beats := List.mem_of_getElem? hbeat
      -- before it is closed, the packet's samples are as the scan left them
      have hold : st.samples[b.pos]? = some b.sample := by
        rw [h.unmarked b.pos fun e he => hdisj e he b.pos (List.mem_map_of_mem hmem)]
        exact hrun.points b hmem
      simp only [markBeats]
      rw [foldl_markBeat_of_mem _ _ 0 _ hnd hbeat, hold, Nat.zero_add]
      rfl
  · intro i hi
    have hpos : i ∉ s.beats.map Beat.pos :=
      hi _ (List.mem_append_right _ (List.mem_singleton_self _))
    simp only [markBeats]
    rw [foldl_markBeat_of_not_mem _ _ _ _ hpos]
    exact h.unmarked i fun e he => hi e (List.mem_append_left _ he)

/-- Closing a packet keeps the invariant. -/
lemma Inv.appendPacket {st : Assembly J} (h : Inv keyOf ts n st) (key : String) :
    Inv keyOf ts n (appendPacket st key) := by
  cases hs : st.activePackets.find? key with
  | none => rwa [appendPacket_of_none hs]
  | some s =>
      have hrun := h.covers.runs s (mem_states_of_find? hs)
      have hperm := states_perm_of_find? hs
      obtain ⟨front, back, hfront, hback⟩ := hrun.exists_ends
      have hdisj : ∀ e ∈ st.completedPacketJson, ∀ i ∈ s.positions,
          i ∉ e.2.state.positions := by
        intro e he i hi
        exact (h.covers.perm hperm).disjoint
          (List.mem_append_left _ (List.mem_map_of_mem he)) hi
      refine ⟨?_, ?_, h.closed.appendPacket hs hrun hdisj hfront hback⟩
      · rw [appendPacket_of_some hs hfront hback]
        refine h.covers.perm (hperm.trans ?_)
        simp only [states, List.map_append, List.map_cons, List.map_nil, packetJson, Packet.state,
          List.append_assoc, List.singleton_append]
        exact List.perm_middle.symm
      · rw [appendPacket_of_some hs hfront hback]
        exact h.openRuns.erase key

/-! ### One transfer -/

/-- No open packet has seen an `eop`. -/
def NoEop (m : OrderedMap String (PacketState J)) : Prop :=
  ∀ k s, m.find? k = some s → ∀ b ∈ s.beats, b.sample.eop = false

/-- The packet of the transfer's key after the transfer, the others unchanged. -/
lemma OpenRuns.insert {m : OrderedMap String (PacketState J)} {key : String} {beat : Beat J}
    {s' : PacketState J} (h : OpenRuns keyOf ts n m) (hpos : beat.pos = n)
    (hpoint : ts[n]? = some beat.sample) (hkey : keyOf beat.sample = key)
    (hs' : s'.beats = [beat] ∨ ∃ s, m.find? key = some s ∧ s'.beats = s.beats ++ [beat]) :
    OpenRuns keyOf ts (n + 1) (m.insert key s') := by
  have hn : n ∈ s'.positions := by
    rcases hs' with hs' | ⟨s, -, hs'⟩ <;> simp [PacketState.positions, hs', hpos]
  refine ⟨?_, ?_⟩
  · intro k s hs b hb
    rcases m.find?_insert_eq_some_iff.1 hs with ⟨rfl, rfl⟩ | ⟨hk, hs⟩
    · rcases hs' with hs' | ⟨s, hfind, hs'⟩
      · obtain rfl : b = beat := by simpa [hs'] using hb
        exact hkey
      · rw [hs', List.mem_append, List.mem_singleton] at hb
        rcases hb with hb | rfl
        · exact h.key _ s hfind b hb
        · exact hkey
    · exact h.key k s hs b hb
  · intro k s hs a ha i t hai hi ht hk
    rcases m.find?_insert_eq_some_iff.1 hs with ⟨rfl, rfl⟩ | ⟨hne, hs⟩
    · rcases Nat.lt_succ_iff_lt_or_eq.1 hi with hi | rfl
      · rcases hs' with hs' | ⟨s, hfind, hs'⟩
        · obtain rfl : a = beat := by simpa [hs'] using ha
          omega
        · rw [hs', List.mem_append, List.mem_singleton] at ha
          rcases ha with ha | rfl
          · have hmem : i ∈ s.positions := h.reach _ s hfind a ha i t hai hi ht hk
            have happ : s'.positions = s.positions ++ [beat.pos] := by
              simp [PacketState.positions, hs']
            rw [happ]
            exact List.mem_append_left _ hmem
          · omega
      · exact hn
    · -- the new transfer has another key
      rcases Nat.lt_succ_iff_lt_or_eq.1 hi with hi | rfl
      · exact h.reach k s hs a ha i t hai hi ht hk
      · obtain rfl : beat.sample = t := Option.some.inj (hpoint.symm.trans ht)
        exact absurd (hk.symm.trans hkey) hne

/-- The closed packets do not depend on the open ones. -/
lemma Closed.setOpen {st : Assembly J} (h : Closed ts st) (next : ℕ)
    (m : OrderedMap String (PacketState J)) :
    Closed ts { st with nextPacketIndex := next, activePackets := m } :=
  ⟨h.rendered, h.complete, h.total, h.marked, h.unmarked⟩

lemma states_insert_perm (st : Assembly J) (next : ℕ) (key : String) (s' : PacketState J) :
    (states { st with
      nextPacketIndex := next, activePackets := st.activePackets.insert key s' }).Perm
      (s' :: (st.completedPacketJson.map (fun e => e.2.state) ++
        (st.activePackets.erase key).values)) := by
  have hvals : (st.activePackets.insert key s').values.Perm
      (s' :: (st.activePackets.erase key).values) :=
    ((st.activePackets.insert_perm key s').trans
      ((st.activePackets.erase_perm key).symm.cons _)).map Prod.snd
  exact (hvals.append_left _).trans List.perm_middle

variable [DecidableEq J]

/-- Adding a transfer to the packet of its key, which is opened when there is none. -/
def pushBeat (st : Assembly J) (key : String) (beat : Beat J) : Assembly J :=
  addBeat (if (st.activePackets.find? key).isNone then openPacket st key beat.sample else st)
    key beat

lemma pushBeat_of_none {st : Assembly J} {key : String}
    (h : st.activePackets.find? key = none) (beat : Beat J) :
    pushBeat st key beat =
      { st with
        nextPacketIndex := st.nextPacketIndex + 1
        activePackets := st.activePackets.insert key
          ((newPacket st.nextPacketIndex beat.sample).push beat) } := by
  simp only [pushBeat, h, Option.isNone_none, if_true, addBeat, openPacket,
    OrderedMap.find?_insert_self, OrderedMap.insert_insert]

lemma pushBeat_of_some {st : Assembly J} {key : String} {s : PacketState J}
    (h : st.activePackets.find? key = some s) (beat : Beat J) :
    pushBeat st key beat =
      { st with activePackets := st.activePackets.insert key (s.push beat) } := by
  simp only [pushBeat, h, Option.isNone_some, Bool.false_eq_true, if_false, addBeat]

/-- Adding a transfer keeps the invariant, unless it is a `sop` inside a packet or follows
an `eop`. -/
lemma Inv.pushBeat {st : Assembly J} (h : Inv keyOf ts n st) {key : String} {beat : Beat J}
    (hpos : beat.pos = n) (hpoint : ts[n]? = some beat.sample)
    (hkey : keyOf beat.sample = key) (hno : NoEop st.activePackets)
    (hsop : beat.sample.sop = true → st.activePackets.find? key = none) :
    Inv keyOf ts (n + 1) (pushBeat st key beat) := by
  cases hfind : st.activePackets.find? key with
  | none =>
      -- the transfer starts a packet of its own
      have hperm : (states st).Perm (st.completedPacketJson.map (fun e => e.2.state) ++
          (st.activePackets.erase key).values) := by
        have hvals : st.activePackets.values.Perm (st.activePackets.erase key).values :=
          ((OrderedMap.without_eq_entries hfind).trans
            (st.activePackets.erase_perm key).symm).map Prod.snd
        exact hvals.append_left _
      rw [pushBeat_of_none hfind]
      refine ⟨?_, h.openRuns.insert hpos hpoint hkey (Or.inl rfl), h.closed.setOpen _ _⟩
      exact ((h.covers.perm hperm).cons_new hpos hpoint rfl rfl rfl).perm
        (states_insert_perm st _ key _).symm
  | some s =>
      -- the open packet of the channel is a run, which the transfer continues
      have hmem := mem_states_of_find? hfind
      have hnosop : beat.sample.sop = false := by
        by_contra hs
        rw [hsop (by simpa using hs)] at hfind
        cases hfind
      have hrun : IsRun keyOf ts (s.beats ++ [beat]) := by
        refine (h.covers.runs s hmem).snoc (by rw [hpos]; exact hpoint) ?_ ?_ ?_ hnosop
          (hno key s hfind)
        · intro b hb
          rw [hpos]
          exact h.covers.pos_lt hmem hb
        · intro b hb
          rw [hkey]
          exact h.openRuns.key key s hfind b hb
        · intro a ha i t hai hi ht hk
          exact h.openRuns.reach key s hfind a ha i t hai (hpos ▸ hi) ht (hk.trans hkey)
      rw [pushBeat_of_some hfind]
      refine ⟨?_, h.openRuns.insert hpos hpoint hkey (Or.inr ⟨s, hfind, rfl⟩),
        h.closed.setOpen _ _⟩
      have hext : Covers keyOf ts (n + 1) st.nextPacketIndex (s.push beat :: _) :=
        (h.covers.perm (states_perm_of_find? hfind)).cons_extend hpos rfl hrun rfl rfl
      exact hext.perm (states_insert_perm st _ key _).symm

/-! ### The loop -/

/-- The invariant between two transfers. -/
def LoopInv (keyOf : StreamSample J → String) (ts : List (StreamSample J)) (n : ℕ)
    (st : Assembly J) : Prop :=
  Inv keyOf ts n st ∧ NoEop st.activePackets

omit [DecidableEq J] in
/-- After a packet has been closed its key has none. -/
lemma Inv.activePackets_appendPacket {st : Assembly J} (h : Inv keyOf ts n st) (key : String) :
    (Stream.appendPacket st key).activePackets = st.activePackets.erase key := by
  cases hs : st.activePackets.find? key with
  | none =>
      rw [appendPacket_of_none hs]
      refine OrderedMap.ext_find? fun k => ?_
      by_cases hk : k = key
      · subst hk
        simp [hs]
      · rw [OrderedMap.find?_erase_of_ne _ hk]
  | some s =>
      obtain ⟨front, back, hfront, hback⟩ :=
        (h.covers.runs s (mem_states_of_find? hs)).exists_ends
      rw [appendPacket_of_some hs hfront hback]

omit [DecidableEq J] in
lemma NoEop.erase {m : OrderedMap String (PacketState J)} (h : NoEop m) (key : String) :
    NoEop (m.erase key) :=
  fun k s hs => h k s (m.find?_erase_eq_some_iff.1 hs).2

/-- One transfer keeps the invariant. -/
lemma LoopInv.packetStep {allowInterleaving : Bool} {st : Assembly J} {beat : Beat J}
    (h : LoopInv (packetKey allowInterleaving) ts n st) (hpos : beat.pos = n)
    (hpoint : ts[n]? = some beat.sample) :
    LoopInv (packetKey allowInterleaving) ts (n + 1) (packetStep allowInterleaving st beat) := by
  set key := packetKey allowInterleaving beat.sample with hkey
  -- a `sop` closes the open packet of its key
  obtain ⟨st₁, hst₁, hinv₁, hno₁, hsop⟩ : ∃ st₁,
      (if beat.sample.sop && (st.activePackets.find? key).isSome then appendPacket st key
        else st) = st₁ ∧ Inv (packetKey allowInterleaving) ts n st₁ ∧
      NoEop st₁.activePackets ∧
      (beat.sample.sop = true → st₁.activePackets.find? key = none) := by
    refine ⟨_, rfl, ?_⟩
    split_ifs with hc
    · refine ⟨h.1.appendPacket key, ?_, fun _ => ?_⟩
      · rw [h.1.activePackets_appendPacket]
        exact h.2.erase key
      · rw [h.1.activePackets_appendPacket, OrderedMap.find?_erase_self]
    · refine ⟨h.1, h.2, fun hs => ?_⟩
      simpa [hs] using hc
  have hinv₂ := hinv₁.pushBeat hpos hpoint hkey.symm hno₁ hsop
  have hstep : Stream.packetStep allowInterleaving st beat =
      if beat.sample.eop then appendPacket (Stream.pushBeat st₁ key beat) key
      else Stream.pushBeat st₁ key beat := by
    simp only [Stream.packetStep, ← hkey, hst₁, Stream.pushBeat]
  -- only the packet of the key can have got an `eop`
  have hothers : ∀ k s, k ≠ key → (Stream.pushBeat st₁ key beat).activePackets.find? k = some s →
      ∀ b ∈ s.beats, b.sample.eop = false := by
    intro k s hk hs
    refine hno₁ k s ?_
    cases hfind : st₁.activePackets.find? key with
    | none => rwa [pushBeat_of_none hfind, OrderedMap.find?_insert_of_ne _ hk] at hs
    | some s' => rwa [pushBeat_of_some hfind, OrderedMap.find?_insert_of_ne _ hk] at hs
  rw [hstep]
  split_ifs with heop
  · refine ⟨hinv₂.appendPacket key, ?_⟩
    rw [hinv₂.activePackets_appendPacket]
    intro k s hs
    obtain ⟨hk, hs⟩ := (OrderedMap.find?_erase_eq_some_iff _).1 hs
    exact hothers k s hk hs
  · refine ⟨hinv₂, fun k s hs b hb => ?_⟩
    by_cases hk : k = key
    · subst hk
      have hnew : b = beat ∨ ∃ s₀, st₁.activePackets.find? key = some s₀ ∧ b ∈ s₀.beats := by
        cases hfind : st₁.activePackets.find? key with
        | none =>
            rw [pushBeat_of_none hfind, OrderedMap.find?_insert_self] at hs
            cases hs
            exact Or.inl (by simpa [PacketState.push, newPacket] using hb)
        | some s₀ =>
            rw [pushBeat_of_some hfind, OrderedMap.find?_insert_self] at hs
            cases hs
            rcases List.mem_append.1 hb with hb | hb
            · exact Or.inr ⟨s₀, rfl, hb⟩
            · exact Or.inl (List.mem_singleton.1 hb)
      rcases hnew with rfl | ⟨s₀, hfind, hb⟩
      · simpa using heop
      · exact hno₁ key s₀ hfind b hb
    · exact hothers k s hk hs b hb

omit [DecidableEq J] in
lemma beatsOf_length (ts : List (StreamSample J)) : (beatsOf ts).length = ts.length := by
  simp [beatsOf]

omit [DecidableEq J] in
lemma beatsOf_getElem? (ts : List (StreamSample J)) (i : ℕ) :
    (beatsOf ts)[i]? = ts[i]?.map fun t => { pos := i, sample := t } := by
  simp [beatsOf, List.getElem?_zipIdx, Function.comp_def]

omit [DecidableEq J] in
lemma loopInv_nil (keyOf : StreamSample J → String) (ts : List (StreamSample J)) :
    LoopInv keyOf ts 0 { samples := ts } := by
  refine ⟨⟨⟨?_, ?_, ?_, ?_, ?_⟩, ⟨?_, ?_⟩, ⟨?_, ?_, ?_, ?_, ?_⟩⟩, ?_⟩ <;>
    simp [states, NoEop]

/-- The invariant holds after every prefix of the transfers. -/
lemma loopInv_take (allowInterleaving : Bool) (ts : List (StreamSample J)) {n : ℕ}
    (hn : n ≤ ts.length) :
    LoopInv (packetKey allowInterleaving) ts n
      (((beatsOf ts).take n).foldl (packetStep allowInterleaving) { samples := ts }) := by
  induction n with
  | zero => exact loopInv_nil _ ts
  | succ n ih =>
      have hlt : n < (beatsOf ts).length := by rw [beatsOf_length]; omega
      have hbeat : (beatsOf ts)[n]? = some (beatsOf ts)[n] := List.getElem?_eq_getElem hlt
      rw [List.take_succ_eq_append_getElem hlt, List.foldl_append]
      rw [beatsOf_getElem?, Option.map_eq_some_iff] at hbeat
      obtain ⟨t, ht, hbeat⟩ := hbeat
      exact (ih (by omega)).packetStep (by rw [← hbeat]) (by rw [← hbeat]; exact ht)

omit [DecidableEq J] in
/-- Closing a list of keys keeps the invariant and leaves the other keys open. -/
lemma Inv.foldl_appendPacket {st : Assembly J} (h : Inv keyOf ts n st) (keys : List String) :
    Inv keyOf ts n (keys.foldl Stream.appendPacket st) ∧
      ∀ k s, (keys.foldl Stream.appendPacket st).activePackets.find? k = some s →
        k ∉ keys ∧ st.activePackets.find? k = some s := by
  induction keys generalizing st with
  | nil => exact ⟨h, fun k s hs => ⟨by simp, hs⟩⟩
  | cons key keys ih =>
      obtain ⟨hinv, hrest⟩ := ih (h.appendPacket key)
      refine ⟨hinv, fun k s hs => ?_⟩
      obtain ⟨hk, hs'⟩ := hrest k s hs
      rw [h.activePackets_appendPacket, OrderedMap.find?_erase_eq_some_iff] at hs'
      exact ⟨by simp [hk, hs'.1], hs'.2⟩

omit [DecidableEq J] in
/-- At the end of the window no packet is left open. -/
lemma Inv.closeRemaining {st : Assembly J} (h : Inv keyOf ts n st) :
    Inv keyOf ts n (closeRemaining st) ∧ (closeRemaining st).activePackets.values = [] := by
  obtain ⟨hinv, hrest⟩ := h.foldl_appendPacket st.activePackets.keys
  refine ⟨hinv, ?_⟩
  rw [OrderedMap.values, List.map_eq_nil_iff, List.eq_nil_iff_forall_not_mem]
  rintro ⟨k, s⟩ hmem
  obtain ⟨hk, hs⟩ := hrest k s ((OrderedMap.mem_entries_iff _ k s).1 hmem)
  exact hk ((OrderedMap.mem_keys_iff _ k).2 (by rw [hs]; rfl))

/-! ### The result -/

/-- The packets are a partition of the transfers into runs of one key. -/
structure IsPartition (keyOf : StreamSample J → String) (ts : List (StreamSample J))
    (r : PacketResult J) : Prop where
  /-- Every transfer belongs to exactly one packet. -/
  cover : (r.packets.flatMap fun p => p.beats.map Beat.pos).Perm (List.range ts.length)
  runs : ∀ p ∈ r.packets, IsRun keyOf ts p.beats
  /-- The JSON of a packet is that of its beats. -/
  rendered : ∀ p ∈ r.packets, ∃ front back, p.beats.head? = some front ∧
    p.beats.getLast? = some back ∧ p = packetJson p.state front back
  begins : ∀ p ∈ r.packets, ∀ b ∈ p.beats.head?, p.partialBegin = true ↔ b.sample.sop = false
  ends : ∀ p ∈ r.packets, ∀ b ∈ p.beats.getLast?, p.partialEnd = true ↔ b.sample.eop = false
  indices : r.packets.map Packet.packetIndex = List.range r.packets.length
  firsts : r.packets.Pairwise fun p q =>
    ∀ b ∈ p.beats.head?, ∀ c ∈ q.beats.head?, b.pos < c.pos
  /-- Every beat carries its packet and its position in the packet. -/
  stamps : ∀ p ∈ r.packets, ∀ (k : ℕ) (b : Beat J), p.beats[k]? = some b →
    r.samples[b.pos]? = some (b.sample.stamp p.packetIndex k)
  complete : r.completePackets =
    r.packets.countP fun p => !(p.partialBegin || p.partialEnd)
  total : r.completePackets + r.partialPackets = r.packets.length

omit [DecidableEq J] in
/-- Sorting by the stored number is sorting by the packet's own number, and every number is there
once. -/
lemma Inv.map_packetIndex {st : Assembly J} (h : Inv keyOf ts ts.length st)
    (hopen : st.activePackets.values = []) :
    ((st.completedPacketJson.insertionSort fun a b => a.1 ≤ b.1).map
      fun e => e.2.packetIndex) = List.range st.nextPacketIndex := by
  have hsort : (st.completedPacketJson.insertionSort fun a b => a.1 ≤ b.1).Perm
      st.completedPacketJson := List.perm_insertionSort _ _
  have hs : (st.completedPacketJson.insertionSort fun a b => a.1 ≤ b.1).Pairwise
      fun a b => a.1 ≤ b.1 := List.pairwise_insertionSort _ _
  refine List.Perm.eq_of_pairwise (fun a b _ _ => le_antisymm) ?_ List.pairwise_le_range ?_
  · refine List.pairwise_map.2 (hs.imp_of_mem fun {a b} ha hb hab => ?_)
    rw [(h.closed.rendered a (hsort.mem_iff.1 ha)).1,
      (h.closed.rendered b (hsort.mem_iff.1 hb)).1] at hab
    exact hab
  · refine (hsort.map _).trans ?_
    have hindices := h.covers.indices
    rw [show states st = st.completedPacketJson.map fun e => e.2.state by simp [states, hopen],
      List.map_map] at hindices
    exact hindices

omit [DecidableEq J] in
/-- The closed packets in the order of their numbers, when no packet is open. -/
lemma Inv.isPartition {st : Assembly J} (h : Inv keyOf ts ts.length st)
    (hopen : st.activePackets.values = []) {r : PacketResult J}
    (hr : r = { packets :=
                  (st.completedPacketJson.insertionSort fun a b => a.1 ≤ b.1).map Prod.snd
                completePackets := st.completePackets
                partialPackets := st.partialPackets
                packetStableMismatchCount := st.packetStableMismatchCount
                samples := st.samples }) :
    IsPartition keyOf ts r := by
  have hstates : states st = st.completedPacketJson.map fun e => e.2.state := by
    simp [states, hopen]
  have hsort : (st.completedPacketJson.insertionSort fun a b => a.1 ≤ b.1).Perm
      st.completedPacketJson := List.perm_insertionSort _ _
  have hperm : r.packets.Perm (st.completedPacketJson.map Prod.snd) := by
    rw [hr]
    exact hsort.map _
  have hstatesPerm : (r.packets.map Packet.state).Perm (states st) := by
    rw [hstates]
    simpa [Function.comp_def] using hperm.map Packet.state
  have hmem : ∀ p ∈ r.packets, ∃ e ∈ st.completedPacketJson, e.2 = p :=
    fun p hp => List.mem_map.1 (hperm.mem_iff.1 hp)
  have hc := h.covers.perm hstatesPerm.symm
  have hrun : ∀ p ∈ r.packets, IsRun keyOf ts p.beats := fun p hp =>
    hc.runs p.state (List.mem_map_of_mem hp)
  have hrendered : ∀ p ∈ r.packets, ∃ front back, p.beats.head? = some front ∧
      p.beats.getLast? = some back ∧ p = packetJson p.state front back := by
    intro p hp
    obtain ⟨e, he, rfl⟩ := hmem p hp
    exact (h.closed.rendered e he).2
  have hlength : r.packets.length = st.nextPacketIndex := by
    simpa using hc.indices.length_eq
  have hindices : r.packets.map Packet.packetIndex = List.range r.packets.length := by
    rw [hlength, ← h.map_packetIndex hopen, hr, List.map_map]
    rfl
  refine ⟨?_, hrun, hrendered, ?_, ?_, hindices, ?_, ?_, ?_, ?_⟩
  · have := hc.cover
    rw [List.flatMap_map] at this
    exact this
  · intro p hp b hb
    have := hc.begins p.state (List.mem_map_of_mem hp) b hb
    rw [show p.partialBegin = !b.sample.sop from this]
    simp
  · intro p hp b hb
    obtain ⟨front, back, -, hback, hpj⟩ := hrendered p hp
    obtain rfl : back = b := Option.some.inj (hback.symm.trans hb)
    rw [show p.partialEnd = !back.sample.eop by rw [hpj]; rfl]
    simp
  · have hlt : (r.packets.map Packet.packetIndex).Pairwise (· < ·) := by
      rw [hindices]
      exact List.pairwise_lt_range
    refine (List.pairwise_map.1 hlt).imp_of_mem fun {p q} hp hq hpq => ?_
    exact hc.firsts p.state (List.mem_map_of_mem hp) q.state (List.mem_map_of_mem hq) hpq
  · intro p hp k b hb
    obtain ⟨e, he, rfl⟩ := hmem p hp
    rw [hr]
    exact h.closed.marked e he k b hb
  · rw [hperm.countP_eq, List.countP_map, hr]
    exact h.closed.complete
  · rw [hperm.length_eq, List.length_map, hr]
    exact h.closed.total

end XdebugFst.Stream
