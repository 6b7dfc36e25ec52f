import Mathlib.Tactic
import XdebugFst.Lib.Pieces
import XdebugFst.Lib.Scans

/-!
# Intervals between cuts

A signal has a value from some time on, so that it is a partial function `key` on the times. A scan
of a window looks at some times only, the cuts, and takes what lies between two neighbouring cuts
for a maximal interval on which the signal is constant. `SeesChanges` says that there is a cut
wherever the value changes. Then the scan is wrong only if there are further cuts.

Two tests are made on the length of an interval. A short interval is a pulse, if the value changes
at both of its ends; the ends of the window are not changes. A long interval counts in the window.
`findsPulses_iff` and `findsLong_iff` say for which cuts the scan finds the right intervals.
-/

namespace Lib

variable {κ : Type} {key : ℕ → Option κ} {cut : ℕ → Prop} {first last lo hi : ℕ}

/-! ### Definitions -/

/-- What the scan takes for an interval: it begins with a cut, and goes until the next one or the
end of the window. -/
structure IsSegment (cut : ℕ → Prop) (last lo hi : ℕ) : Prop where
  left : cut lo
  lt : lo < hi
  right : hi = last ∨ cut hi
  inside : ∀ t, lo < t → t < hi → ¬ cut t

/-- The value changes at a time. To take a first value is a change. -/
def ChangedAt (key : ℕ → Option κ) (t : ℕ) : Prop :=
  (key t).isSome ∧ (t = 0 ∨ key (t - 1) ≠ key t)

/-- A maximal interval of the window on which the value is constant. -/
def IsStretch (key : ℕ → Option κ) (first last lo hi : ℕ) : Prop :=
  ∃ k, IsMaximalInterval (key · = some k) first last lo hi

/-- A stretch shorter than `width` between two changes. -/
structure IsPulse (key : ℕ → Option κ) (first last width lo hi : ℕ) : Prop where
  stretch : IsStretch key first last lo hi
  short : hi - lo < width
  left : ChangedAt key lo
  right : ChangedAt key hi

/-- There is a cut in the window wherever one value is followed by another, and all cuts are in
the window. -/
structure SeesChanges (key : ℕ → Option κ) (cut : ℕ → Prop) (first last : ℕ) : Prop where
  inRange : ∀ t, cut t → first ≤ t ∧ t ≤ last
  stays : ∀ t, (key t).isSome → (key (t + 1)).isSome
  changes : ∀ t, first ≤ t → t < last → (key t).isSome → key t ≠ key (t + 1) → cut (t + 1)

/-! ### The walk over the cuts -/

section Walk

variable {cuts : List ℕ}

lemma mem_pieces {c : ℕ} {piece : ℕ × ℕ} :
    piece ∈ pieces c cuts last ↔
      piece ∈ adjacent (c :: cuts) ∨ (c :: cuts).getLast? = some piece.1 ∧ piece.2 = last := by
  induction cuts generalizing c with
  | nil => simp [pieces, adjacent, Prod.ext_iff, eq_comm]
  | cons d cuts ih =>
      rw [pieces, List.mem_cons, ih, ← or_assoc, List.getLast?_cons_cons]
      exact or_congr_left List.mem_cons.symm

/-- The intervals of the scan are the pairs of adjacent cuts, and what lies behind the last one. -/
lemma isSegment_iff (hs : cuts.Pairwise (· ≤ ·)) (hlast : ∀ t ∈ cuts, t ≤ last) :
    IsSegment (· ∈ cuts) last lo hi ↔
      ((lo, hi) ∈ adjacent cuts ∨ cuts.getLast? = some lo ∧ hi = last) ∧ lo < hi := by
  match cuts, hs, hlast with
  | [], _, _ =>
      refine iff_of_false (fun h => ?_) ?_
      · simpa using h.left
      · simp [adjacent]
  | c :: cuts, hs, hlast =>
      obtain ⟨hle, hs'⟩ := List.pairwise_cons.1 hs
      have hc : ∀ t ∈ c :: cuts, c ≤ t := by simpa using hle
      have hpieces : (lo, hi) ∈ pieces c cuts last ∧ lo < hi ↔ IsPiece (· ∈ cuts) c last lo hi :=
        mem_pieces_iff hs' hle fun t ht => hlast t (List.mem_cons_of_mem c ht)
      rw [mem_pieces] at hpieces
      rw [hpieces]
      constructor
      · intro h
        have hhi : hi ≤ last := by
          rcases h.right with rfl | hmem
          · exact le_rfl
          · exact hlast hi hmem
        have hlo := hc lo h.left
        have hlt := h.lt
        refine ⟨hlo, hlt, hhi, List.mem_cons.1 h.left, ?_, fun t ht ht' hmem =>
          h.inside t ht ht' (List.mem_cons_of_mem c hmem)⟩
        exact h.right.imp_right fun hmem => (List.mem_cons.1 hmem).resolve_left (by omega)
      · intro h
        have hlo := h.first_le
        refine ⟨List.mem_cons.2 h.left, h.lt, h.right.imp_right (List.mem_cons_of_mem c),
          fun t ht ht' hmem => h.inside t ht ht' ((List.mem_cons.1 hmem).resolve_left (by omega))⟩

/-- Those between two cuts are the pairs of adjacent cuts. -/
lemma isSegment_and_mem_iff (hs : cuts.Pairwise (· ≤ ·)) (hlast : ∀ t ∈ cuts, t ≤ last) :
    IsSegment (· ∈ cuts) last lo hi ∧ hi ∈ cuts ↔ (lo, hi) ∈ adjacent cuts ∧ lo < hi := by
  rw [isSegment_iff hs hlast]
  constructor
  · rintro ⟨⟨hadj | ⟨hlo, -⟩, hlt⟩, hmem⟩
    · exact ⟨hadj, hlt⟩
    · -- nothing comes behind the last cut
      have hle := hs.rel_getLast hmem
      rw [List.getLast?_eq_some_getLast (List.ne_nil_of_mem hmem), Option.some.injEq] at hlo
      omega
  · rintro ⟨hadj, hlt⟩
    exact ⟨⟨Or.inl hadj, hlt⟩, List.mem_of_mem_tail (List.of_mem_zip hadj).2⟩

end Walk

/-! ### Stretches -/

/-- A condition that holds at a time of the window holds on a maximal interval around it. -/
lemma exists_isMaximalInterval {p : ℕ → Prop} {t : ℕ} (hfirst : first ≤ t) (hlast : t < last)
    (ht : p t) : ∃ lo hi, IsMaximalInterval p first last lo hi ∧ lo ≤ t ∧ t < hi := by
  classical
  -- the interval goes from the earliest time from which the condition holds until `t` ...
  have hleft : ∃ lo, first ≤ lo ∧ lo ≤ t ∧ ∀ u, lo ≤ u → u ≤ t → p u :=
    ⟨t, hfirst, le_rfl, fun u hlo hhi => le_antisymm hlo hhi ▸ ht⟩
  obtain ⟨hlo, hlot, hbefore⟩ := Nat.find_spec hleft
  -- ... to the first time at which it fails
  have hright : ∃ hi, t < hi ∧ (hi = last ∨ ¬ p hi) := ⟨last, hlast, Or.inl rfl⟩
  obtain ⟨hhi, hend⟩ := Nat.find_spec hright
  have hhilast : Nat.find hright ≤ last := Nat.find_min' hright ⟨hlast, Or.inl rfl⟩
  refine ⟨Nat.find hleft, Nat.find hright, ⟨hlo, hlot.trans_lt hhi, hhilast, ?_, ?_, hend⟩,
    hlot, hhi⟩
  · intro u hu hu'
    by_cases hut : u ≤ t
    · exact hbefore u hu hut
    · by_contra hnot
      exact Nat.find_min hright hu' ⟨by omega, Or.inr hnot⟩
  · rw [or_iff_not_imp_left]
    intro hne hp
    refine Nat.find_min hleft (m := Nat.find hleft - 1) (by omega) ⟨by omega, by omega, ?_⟩
    intro u hu hut
    rcases hu.eq_or_lt with rfl | hu
    · exact hp
    · exact hbefore u (by omega) hut

lemma IsStretch.lt (h : IsStretch key first last lo hi) : lo < hi := by
  obtain ⟨k, h⟩ := h
  exact h.lt

lemma IsStretch.le_last (h : IsStretch key first last lo hi) : hi ≤ last := by
  obtain ⟨k, h⟩ := h
  exact h.le_last

lemma IsStretch.isSome (h : IsStretch key first last lo hi) : (key lo).isSome := by
  obtain ⟨k, h⟩ := h
  rw [h.holds lo le_rfl h.lt]
  rfl

/-- A stretch does not change in its interior. -/
lemma IsStretch.not_changedAt (h : IsStretch key first last lo hi) {t : ℕ} (hlo : lo < t)
    (hhi : t < hi) : ¬ ChangedAt key t := by
  obtain ⟨k, h⟩ := h
  rintro ⟨-, hzero | hne⟩
  · omega
  · exact hne ((h.holds (t - 1) (by omega) (by omega)).trans (h.holds t hlo.le hhi).symm)

/-- After a cut with a later one there is a next one. -/
lemma exists_isSegment (last : ℕ) {t : ℕ} (hleft : cut lo) (hlo : lo < t) (ht : cut t) :
    ∃ c, c ≤ t ∧ IsSegment cut last lo c ∧ cut c := by
  classical
  have hex : ∃ c, lo < c ∧ cut c := ⟨t, hlo, ht⟩
  obtain ⟨hlt, hc⟩ := Nat.find_spec hex
  exact ⟨Nat.find hex, Nat.find_min' hex ⟨hlo, ht⟩,
    ⟨hleft, hlt, Or.inr hc, fun u hlou huc hu => Nat.find_min hex huc ⟨hlou, hu⟩⟩, hc⟩

section Cuts

variable (h : SeesChanges key cut first last)

include h

/-- Up to the next cut the value stays the same. -/
lemma SeesChanges.key_eq (hfirst : first ≤ lo) (hlast : hi ≤ last) (hsome : (key lo).isSome)
    (hinside : ∀ t, lo < t → t < hi → ¬ cut t) {t : ℕ} (hlo : lo ≤ t) (hhi : t < hi) :
    key t = key lo := by
  induction t, hlo using Nat.le_induction with
  | base => rfl
  | succ t hlo ih =>
      have ht := ih (by omega)
      rw [← ht]
      by_contra hne
      exact hinside (t + 1) (by omega) hhi
        (h.changes t (by omega) (by omega) (ht ▸ hsome) (Ne.symm hne))

/-- There is a cut at the end of a stretch if the value changes there. -/
lemma SeesChanges.cut_of_ne (hs : IsStretch key first last lo hi) (hne : key (hi - 1) ≠ key hi) :
    cut hi := by
  obtain ⟨k, hs⟩ := hs
  have hlt := hs.lt
  have hfirst := hs.first_le
  have hkey := hs.holds (hi - 1) (by omega) (by omega)
  obtain ⟨t, rfl⟩ : ∃ t, hi = t + 1 := ⟨hi - 1, by omega⟩
  rw [Nat.add_sub_cancel] at hkey hne
  exact h.changes t (by omega) hs.le_last (by rw [hkey]; rfl) hne

lemma SeesChanges.right_of_isStretch (hs : IsStretch key first last lo hi) :
    hi = last ∨ cut hi := by
  obtain ⟨k, hk⟩ := hs
  refine hk.right.imp_right fun hne => h.cut_of_ne ⟨k, hk⟩ fun heq => hne ?_
  have hlt := hk.lt
  exact heq ▸ hk.holds (hi - 1) (by omega) (by omega)

lemma SeesChanges.le_last (hseg : IsSegment cut last lo hi) : hi ≤ last := by
  rcases hseg.right with rfl | hcut
  · exact le_rfl
  · exact (h.inRange hi hcut).2

/-- An interval of the scan that begins with a value is constant. -/
lemma SeesChanges.eq_of_isSegment (hseg : IsSegment cut last lo hi) (hsome : (key lo).isSome)
    {t : ℕ} (hlo : lo ≤ t) (hhi : t < hi) : key t = key lo :=
  h.key_eq (h.inRange lo hseg.left).1 (h.le_last hseg) hsome hseg.inside hlo hhi

/-! ### Pulses -/

/-- An interval of the scan between two changes is a stretch. -/
lemma SeesChanges.isStretch_of_changedAt (hseg : IsSegment cut last lo hi) (hcut : cut hi)
    (hlo : ChangedAt key lo) (hhi : ChangedAt key hi) : IsStretch key first last lo hi := by
  obtain ⟨k, hk⟩ := Option.isSome_iff_exists.1 hlo.1
  have hkey : ∀ t, lo ≤ t → t < hi → key t = some k := fun t hlot hthi =>
    (h.eq_of_isSegment hseg hlo.1 hlot hthi).trans hk
  have hlt := hseg.lt
  refine ⟨k, (h.inRange lo hseg.left).1, hlt, (h.inRange hi hcut).2, hkey, ?_, ?_⟩
  · rcases hlo.2 with hzero | hne
    · -- the times begin at 0
      have := (h.inRange lo hseg.left).1
      exact Or.inl (by omega)
    · exact Or.inr fun hp => hne (hp.trans hk.symm)
  · refine Or.inr fun hp => ?_
    rcases hhi.2 with hzero | hne
    · omega
    · exact hne ((hkey (hi - 1) (by omega) (by omega)).trans hp.symm)

/-- The scan finds the right pulses, if and only if the value changes at both ends of each short
interval between two cuts, and each pulse begins with a cut. -/
theorem SeesChanges.findsPulses_iff (width : ℕ) :
    (∀ lo hi, (IsSegment cut last lo hi ∧ cut hi) ∧ hi - lo < width ↔
        IsPulse key first last width lo hi) ↔
      (∀ lo hi, IsSegment cut last lo hi → cut hi → hi - lo < width →
        ChangedAt key lo ∧ ChangedAt key hi) ∧
      ∀ lo hi, IsPulse key first last width lo hi → cut lo := by
  constructor
  · intro hall
    refine ⟨fun lo hi hseg hcut hw => ?_, fun lo hi hpulse => ((hall lo hi).2 hpulse).1.1.left⟩
    have hpulse := (hall lo hi).1 ⟨⟨hseg, hcut⟩, hw⟩
    exact ⟨hpulse.left, hpulse.right⟩
  · rintro ⟨hchanged, hcut⟩ lo hi
    constructor
    · rintro ⟨⟨hseg, hright⟩, hw⟩
      obtain ⟨hlo, hhi⟩ := hchanged lo hi hseg hright hw
      exact ⟨h.isStretch_of_changedAt hseg hright hlo hhi, hw, hlo, hhi⟩
    · intro hpulse
      have hlt := hpulse.stretch.lt
      have hleft := hcut lo hi hpulse
      have hright : cut hi := h.cut_of_ne hpulse.stretch (hpulse.right.2.resolve_left (by omega))
      refine ⟨⟨⟨hleft, hlt, Or.inr hright, ?_⟩, hright⟩, hpulse.short⟩
      -- the first cut in the interior would be the end of a short interval
      intro t hlot hthi ht
      obtain ⟨c, hct, hseg, hc⟩ := exists_isSegment last hleft hlot ht
      have hw := hpulse.short
      exact hpulse.stretch.not_changedAt hseg.lt (by omega) (hchanged lo c hseg hc (by omega)).2

/-! ### Long intervals -/

/-- An interval of the scan that begins with a value lies in a stretch. -/
lemma SeesChanges.exists_isStretch (hseg : IsSegment cut last lo hi) (hsome : (key lo).isSome) :
    ∃ a b, IsStretch key first last a b ∧ a ≤ lo ∧ hi ≤ b := by
  obtain ⟨k, hk⟩ := Option.isSome_iff_exists.1 hsome
  obtain ⟨a, b, hmax, hlo, hhi⟩ := exists_isMaximalInterval (p := fun t => key t = some k)
    (h.inRange lo hseg.left).1 (hseg.lt.trans_le (h.le_last hseg)) hk
  refine ⟨a, b, ⟨k, hmax⟩, hlo, ?_⟩
  by_contra hbhi
  rcases hmax.right with rfl | hne
  · exact hbhi (h.le_last hseg)
  · exact hne ((h.eq_of_isSegment hseg hsome hhi.le (not_le.1 hbhi)).trans hk)

/-- The scan finds the right long intervals, if and only if each long stretch is one between cuts,
and each long interval between cuts begins with a value. -/
theorem SeesChanges.findsLong_iff (duration : ℕ) :
    (∀ lo hi, IsSegment cut last lo hi ∧ duration ≤ hi - lo ↔
        IsStretch key first last lo hi ∧ duration ≤ hi - lo) ↔
      (∀ lo hi, IsStretch key first last lo hi → duration ≤ hi - lo →
        cut lo ∧ ∀ t, lo < t → t < hi → ¬ cut t) ∧
      ∀ lo hi, IsSegment cut last lo hi → duration ≤ hi - lo → (key lo).isSome := by
  constructor
  · intro hall
    refine ⟨fun lo hi hs hd => ?_, fun lo hi hseg hd => ((hall lo hi).1 ⟨hseg, hd⟩).1.isSome⟩
    have hseg := ((hall lo hi).2 ⟨hs, hd⟩).1
    exact ⟨hseg.left, hseg.inside⟩
  · rintro ⟨huncut, hsome⟩ lo hi
    constructor
    · rintro ⟨hseg, hd⟩
      obtain ⟨a, b, hs, hlo, hhi⟩ := h.exists_isStretch hseg (hsome lo hi hseg hd)
      -- the stretch has no cut in its interior, so that it goes no further
      have hlt := hseg.lt
      obtain ⟨-, hinside⟩ := huncut a b hs (by omega)
      have ha : a = lo := by
        by_contra hne
        exact hinside lo (by omega) (by omega) hseg.left
      have hb : b = hi := by
        rcases hseg.right with rfl | hcut
        · exact le_antisymm hs.le_last hhi
        · by_contra hne
          exact hinside hi (by omega) (by omega) hcut
      exact ⟨ha ▸ hb ▸ hs, hd⟩
    · rintro ⟨hs, hd⟩
      obtain ⟨hleft, hinside⟩ := huncut lo hi hs hd
      exact ⟨⟨hleft, hs.lt, h.right_of_isStretch hs, hinside⟩, hd⟩

end Cuts

end Lib
