import XdebugFst.Waveform.Backend
import Mathlib.Data.List.TakeWhile

/-!
# Sampling for the trace actions

The trace actions read a signal with `sample_at`, which looks at the
last time index with a change and there at the first delta. From a
sample that is unknown, `x_onset_time` walks back over the changes to
the first one of the unbroken run of unknown values.

The walk is a loop with several exits. `isXOnset_xOnsetTime` says what
it computes, and `xOnsetTime_of_isXOnset` that it computes nothing new
when it starts at an onset.
-/

namespace XdebugFst.Trace

open Lib Lib.History Waveform

/-- `has_x`. -/
def hasX (bits : String) : Bool := bits.toList.any fun c => c ∈ "xXhHuwUW-".toList

/-- `Sample`. -/
structure Sample where
  ok : Bool := false
  ref : ℕ := 0
  timeIdx : ℕ := 0
  width : ℕ := 0
  queryTime : ℕ := 0
  time : ℕ := 0
  activeTime : ℕ := 0
  bits : String := ""
  deriving DecidableEq, Repr, Inhabited

section Definitions

variable (wf : Backend)

/-- `previous_change_time`: the time of the last change up to an index. -/
def previousChangeTime (ref queryIndex fallback : ℕ) : ℕ :=
  match (wf.timeIndicesOf ref).reverse.find? (· ≤ queryIndex) with
  | some idx => wf.timeAt idx
  | none => fallback

/-- `sample_at`. -/
def sampleAt (signal : String) (time : ℕ) : Sample :=
  let ref := wf.findSignal signal
  if ref = Backend.kInvalidSignalRef then { ref, queryTime := time }
  else
    let timeIdx := wf.timeIdxOf time
    match wf.signalOffsetAt ref timeIdx with
    | none => { ref, timeIdx, queryTime := time }
    | some offset =>
        let bits := wf.signalValueStr ref offset.start 0
        { ok := bits ≠ ""
          ref, timeIdx
          width := ((wf.signal ref).map SignalData.width).getD 0
          queryTime := time
          time := wf.timeAt timeIdx
          activeTime := previousChangeTime wf ref timeIdx (wf.timeAt timeIdx)
          bits }

/-- The loop of `x_onset_time` over the change indices from the last to the first. -/
def onsetLoop (query : Sample) : List ℕ → ℕ → ℕ
  | [], onset => onset
  | idx :: rest, onset =>
      if idx > query.timeIdx then onsetLoop query rest onset
      else
        match wf.signalOffsetAt query.ref idx with
        | none => onsetLoop query rest onset
        | some offset =>
            if hasX (wf.signalValueStr query.ref offset.start 0) then
              onsetLoop query rest (wf.timeAt idx)
            else onset

/-- `x_onset_time`. -/
def xOnsetTime (query : Sample) : ℕ :=
  onsetLoop wf query (wf.timeIndicesOf query.ref).reverse query.time

/-- The text that `sample_at` reads at a time index. -/
def readAt (ref idx : ℕ) : Option String :=
  (wf.signalOffsetAt ref idx).map fun offset => wf.signalValueStr ref offset.start 0

/-- The signal reads X at a time, as `sample_at` reads it. -/
def ReadsX (signal : String) (time : ℕ) : Prop :=
  (sampleAt wf signal time).ok = true ∧ hasX (sampleAt wf signal time).bits = true

/-- The signal has a change at a time. -/
def ChangesAt (signal : String) (time : ℕ) : Prop :=
  ∃ idx ∈ wf.timeIndicesOf (wf.findSignal signal), wf.timeAt idx = time

/-- The first change of an unbroken run of X values: the signal reads X there and does not at
the change before. -/
structure IsXOnset (signal : String) (onset : ℕ) : Prop where
  change : ChangesAt wf signal onset
  reads : ReadsX wf signal onset
  first : ∀ t, ChangesAt wf signal t → t < onset →
    (∀ t', ChangesAt wf signal t' → t' < onset → t' ≤ t) → ¬ ReadsX wf signal t

instance (signal : String) (time : ℕ) : Decidable (ReadsX wf signal time) :=
  inferInstanceAs (Decidable (_ ∧ _))

end Definitions

variable {wf : Backend}

/-! ### What a sample reads -/

/-- The last change of a signal up to a time index. -/
def IsLastChange (wf : Backend) (ref idx g : ℕ) : Prop :=
  g ∈ wf.timeIndicesOf ref ∧ g ≤ idx ∧ ∀ j ∈ wf.timeIndicesOf ref, j ≤ idx → j ≤ g

lemma isLastChange_self {ref g : ℕ} (h : g ∈ wf.timeIndicesOf ref) : IsLastChange wf ref g g :=
  ⟨h, le_rfl, fun _ _ hj => hj⟩

lemma readAt_of_isLastGroup {ref idx g : ℕ} {pre grp post : List Change}
    (h : IsLastGroup Change.timeIdx idx (wf.changesOf ref) pre grp post g) :
    readAt wf ref idx = some (wf.signalValueStr ref pre.length 0) := by
  unfold readAt Backend.signalOffsetAt
  rw [offsetAt_of_isLastGroup h]
  rfl

lemma mem_timeIndicesOf {ref idx : ℕ} :
    idx ∈ wf.timeIndicesOf ref ↔ ∃ c ∈ wf.changesOf ref, c.timeIdx = idx := List.mem_map

/-- Whatever is read is read at the last change. -/
lemma readAt_eq {ref idx : ℕ} {s : String} (h : readAt wf ref idx = some s) :
    ∃ g, IsLastChange wf ref idx g ∧ readAt wf ref g = some s := by
  rcases isLastGroup_cases (@Backend.changesOf_sorted wf ref) idx with
    hnone | ⟨pre, grp, post, g, hgrp⟩
  · rw [readAt, Backend.signalOffsetAt, offsetAt_eq_none hnone] at h
    simp at h
  · have hmem : ∃ c ∈ grp, c.timeIdx = g := by
      obtain ⟨c, hc⟩ := List.exists_mem_of_ne_nil _ hgrp.nonempty
      exact ⟨c, hc, hgrp.same c hc⟩
    obtain ⟨c, hc, hcg⟩ := hmem
    refine ⟨g, ⟨mem_timeIndicesOf.2 ⟨c, ?_, hcg⟩, hgrp.le, ?_⟩, ?_⟩
    · rw [hgrp.eq]
      simp [hc]
    · intro j hj hle
      obtain ⟨d, hd, rfl⟩ := mem_timeIndicesOf.1 hj
      rw [hgrp.eq] at hd
      rcases List.mem_append.1 hd with hd | hd
      · exact (hgrp.before d hd).le
      rcases List.mem_append.1 hd with hd | hd
      · exact (hgrp.same d hd).le
      · have := hgrp.after d hd
        omega
    · rw [readAt_of_isLastGroup hgrp] at h
      rw [← h]
      exact readAt_of_isLastGroup ⟨hgrp.eq, hgrp.nonempty, le_rfl, hgrp.before, hgrp.same,
        fun a ha => hgrp.le.trans_lt (hgrp.after a ha)⟩

/-- Something is read from the first change on. -/
lemma exists_readAt {ref idx g : ℕ} (hg : g ∈ wf.timeIndicesOf ref) (hle : g ≤ idx) :
    ∃ s, readAt wf ref idx = some s := by
  rcases isLastGroup_cases (@Backend.changesOf_sorted wf ref) idx with
    hnone | ⟨pre, grp, post, g', hgrp⟩
  · obtain ⟨c, hc, rfl⟩ := mem_timeIndicesOf.1 hg
    have := hnone c hc
    omega
  · exact ⟨_, readAt_of_isLastGroup hgrp⟩

/-- The signal reads X at a time index. -/
def readsXAt (wf : Backend) (ref idx : ℕ) : Bool := (readAt wf ref idx).any hasX

lemma readsXAt_of_isLastChange {ref idx g : ℕ} (h : IsLastChange wf ref idx g) :
    readsXAt wf ref idx = readsXAt wf ref g := by
  obtain ⟨s, hs⟩ := exists_readAt h.1 h.2.1
  obtain ⟨g', hg', hs'⟩ := readAt_eq hs
  obtain rfl : g = g' := le_antisymm (hg'.2.2 g h.1 h.2.1) (h.2.2 g' hg'.1 hg'.2.1)
  unfold readsXAt
  rw [hs, hs']

lemma readsX_iff {signal : String} {time : ℕ} :
    ReadsX wf signal time ↔ wf.findSignal signal ≠ 0 ∧
      readsXAt wf (wf.findSignal signal) (wf.timeIdxOf time) = true := by
  unfold ReadsX sampleAt readsXAt readAt
  dsimp only
  split_ifs with href
  · exact ⟨fun h => absurd h.1 (by simp), fun h => absurd href h.1⟩
  · cases wf.signalOffsetAt (wf.findSignal signal) (wf.timeIdxOf time) with
    | none => simp
    | some offset =>
        simp only [decide_eq_true_eq, Option.map_some, Option.any_some]
        refine ⟨fun h => ⟨href, h.2⟩, fun h => ⟨?_, h.2⟩⟩
        intro hempty
        rw [hempty] at h
        exact absurd h.2 (by decide)

/-- The signal that is sampled, and where. -/
lemma sampleAt_ref {signal : String} {time : ℕ} (h : ReadsX wf signal time) :
    (sampleAt wf signal time).ref = wf.findSignal signal ∧
      (sampleAt wf signal time).timeIdx = wf.timeIdxOf time ∧
      (sampleAt wf signal time).time = wf.timeAt (wf.timeIdxOf time) := by
  obtain ⟨hok, -⟩ := h
  unfold sampleAt at hok ⊢
  dsimp only at hok ⊢
  split_ifs with href
  · simp [href] at hok
  · cases hoff : wf.signalOffsetAt (wf.findSignal signal) (wf.timeIdxOf time) with
    | none => simp [href, hoff] at hok
    | some offset => exact ⟨rfl, rfl, rfl⟩

/-! ### The onset -/

/-- The walk of `x_onset_time` goes over the changes up to the query as long as they read
X. -/
lemma onsetLoop_eq (query : Sample) {l : List ℕ} (hl : ∀ i ∈ l, i ∈ wf.timeIndicesOf query.ref)
    (onset : ℕ) :
    onsetLoop wf query l onset =
      (((l.filter (· ≤ query.timeIdx)).takeWhile (readsXAt wf query.ref)).map
        wf.timeAt).getLastD onset := by
  induction l generalizing onset with
  | nil => rfl
  | cons i l ih =>
      have ih' := ih fun j hj => hl j (List.mem_cons_of_mem _ hj)
      rw [onsetLoop]
      by_cases hi : i > query.timeIdx
      · rw [if_pos hi, ih', List.filter_cons_of_neg (by simpa using hi)]
      · rw [if_neg hi, List.filter_cons_of_pos (by simpa using hi)]
        obtain ⟨s, hs⟩ := exists_readAt (hl i List.mem_cons_self) le_rfl
        obtain ⟨offset, hoff, rfl⟩ := Option.map_eq_some_iff.1 hs
        rw [hoff]
        dsimp only
        by_cases hx : hasX (wf.signalValueStr query.ref offset.start 0) = true
        · have hreads : readsXAt wf query.ref i = true := by
            rw [readsXAt, hs]
            exact hx
          rw [if_pos hx, ih', List.takeWhile_cons_of_pos hreads, List.map_cons, List.getLastD_cons]
        · have hreads : ¬ readsXAt wf query.ref i = true := by
            rw [readsXAt, hs]
            exact hx
          rw [if_neg hx, List.takeWhile_cons_of_neg hreads]
          rfl

/-- The changes up to an index, from the last to the first. -/
lemma pairwise_indices_reverse (ref idx : ℕ) :
    ((wf.timeIndicesOf ref).reverse.filter (· ≤ idx)).Pairwise (· ≥ ·) :=
  (List.pairwise_reverse.2 (Backend.timeIndicesOf_sorted ref)).filter _

section Walk

variable {l init : List ℕ} {k : ℕ} {p : ℕ → Bool}

/-- A walk down the list up to its last place `k`: the places before it satisfy the condition. -/
lemma of_takeWhile_eq (hs : l.Pairwise fun a b => b ≤ a) (h : l.takeWhile p = init ++ [k]) {j : ℕ}
    (hj : j ∈ l) (hkj : k ≤ j) : p j = true := by
  have hk : k ∈ l.takeWhile p := by simp [h]
  rw [← List.takeWhile_append_dropWhile (p := p) (l := l)] at hj hs
  rcases List.mem_append.1 hj with hjrun | hjrest
  · exact List.mem_takeWhile_imp hjrun
  · obtain rfl : j = k := le_antisymm ((List.pairwise_append.1 hs).2.2 k hk j hjrest) hkj
    exact List.mem_takeWhile_imp hk

/-- The place behind the last one of the walk does not satisfy the condition. -/
lemma not_of_takeWhile_eq (hs : l.Pairwise fun a b => b ≤ a) (h : l.takeWhile p = init ++ [k])
    {j : ℕ} (hj : j ∈ l) (hjk : j < k) (hmax : ∀ j' ∈ l, j' < k → j' ≤ j) : p j = false := by
  have hk : p k = true := List.mem_takeWhile_imp (l := l) (by simp [h])
  have hsplit := List.takeWhile_append_dropWhile (p := p) (l := l)
  have hs' := hs
  rw [← hsplit, h] at hj hs'
  rw [List.pairwise_append, List.pairwise_append] at hs'
  -- `j` is not in the run, because the run ends at `k`
  have hjrest : j ∈ l.dropWhile p := by
    rcases List.mem_append.1 hj with hjrun | hjrest
    · rcases List.mem_append.1 hjrun with hjinit | hjlast
      · have := hs'.1.2.2 j hjinit k (by simp)
        omega
      · rw [List.mem_singleton.1 hjlast] at hjk
        omega
    · exact hjrest
  -- so `j` is where the run breaks
  obtain ⟨b, rest, hrest⟩ := List.exists_cons_of_ne_nil (List.ne_nil_of_mem hjrest)
  have hb : p b = false := by
    have := List.head?_dropWhile_not p l
    rw [hrest] at this
    simpa using this
  have hbl : b ∈ l := by
    rw [← hsplit, hrest]
    simp
  have hbk : b < k := by
    refine lt_of_le_of_ne (hs'.2.2 k (by simp) b (by simp [hrest])) ?_
    rintro rfl
    rw [hk] at hb
    cases hb
  obtain rfl : b = j := by
    refine le_antisymm (hmax b hbl hbk) ?_
    have hrestSorted := hs'.2.1
    rw [hrest] at hjrest hrestSorted
    rcases List.mem_cons.1 hjrest with rfl | hjt
    · exact le_rfl
    · exact (List.pairwise_cons.1 hrestSorted).1 j hjt
  exact hb

/-- The first place of a sorted list is the largest one. -/
lemma head_eq_of_max {h g : ℕ} {t : List ℕ} (hs : (h :: t).Pairwise fun a b => b ≤ a)
    (hg : g ∈ h :: t) (hmax : ∀ j ∈ h :: t, j ≤ g) : h = g := by
  refine le_antisymm (hmax h List.mem_cons_self) ?_
  rcases List.mem_cons.1 hg with rfl | hgt
  · exact le_rfl
  · exact (List.pairwise_cons.1 hs).1 g hgt

end Walk

/-- The index at which the walk from `idx` ends: the first change of the run of X that
contains `idx`. -/
lemma exists_onset {ref idx : ℕ} (onset : ℕ) (hx : readsXAt wf ref idx = true) :
    ∃ k ∈ wf.timeIndicesOf ref, k ≤ idx ∧ readsXAt wf ref k = true ∧
      (((((wf.timeIndicesOf ref).reverse.filter (· ≤ idx)).takeWhile (readsXAt wf ref)).map
        wf.timeAt).getLastD onset = wf.timeAt k) ∧
      (∀ j ∈ wf.timeIndicesOf ref, k ≤ j → j ≤ idx → readsXAt wf ref j = true) ∧
      ∀ j ∈ wf.timeIndicesOf ref, j < k → (∀ j' ∈ wf.timeIndicesOf ref, j' < k → j' ≤ j) →
        readsXAt wf ref j = false := by
  obtain ⟨s, hs, -⟩ : ∃ s, readAt wf ref idx = some s ∧ hasX s = true := by
    rw [readsXAt, Option.any_eq_true] at hx
    exact hx
  obtain ⟨g, hg, -⟩ := readAt_eq hs
  have hsorted := @pairwise_indices_reverse wf ref idx
  have hmem : ∀ {j}, j ∈ (wf.timeIndicesOf ref).reverse.filter (· ≤ idx) ↔
      j ∈ wf.timeIndicesOf ref ∧ j ≤ idx := by simp
  set l := (wf.timeIndicesOf ref).reverse.filter (· ≤ idx)
  have hgl : g ∈ l := hmem.2 ⟨hg.1, hg.2.1⟩
  -- the walk starts at the last change, which reads what the query reads
  obtain ⟨h, t, hl⟩ : ∃ h t, l = h :: t := List.exists_cons_of_ne_nil (List.ne_nil_of_mem hgl)
  have hhg : h = g := by
    rw [hl] at hsorted hgl
    refine head_eq_of_max hsorted hgl fun j hj => ?_
    obtain ⟨hjmem, hjle⟩ := hmem.1 (hl ▸ hj)
    exact hg.2.2 j hjmem hjle
  have hgx : readsXAt wf ref h = true := by rw [hhg, ← readsXAt_of_isLastChange hg, hx]
  have hrun : l.takeWhile (readsXAt wf ref) ≠ [] := by
    rw [hl, List.takeWhile_cons_of_pos hgx]
    exact List.cons_ne_nil _ _
  obtain ⟨init, k, hinit⟩ : ∃ init k, l.takeWhile (readsXAt wf ref) = init ++ [k] :=
    ⟨_, _, (List.dropLast_append_getLast hrun).symm⟩
  have hk : k ∈ l.takeWhile (readsXAt wf ref) := by simp [hinit]
  obtain ⟨hkmem, hkle⟩ := hmem.1 (List.takeWhile_subset _ hk)
  refine ⟨k, hkmem, hkle, List.mem_takeWhile_imp hk, ?_, ?_, ?_⟩
  · rw [hinit]
    simp
  · intro j hj hkj hjle
    exact of_takeWhile_eq hsorted hinit (hmem.2 ⟨hj, hjle⟩) hkj
  · intro j hj hjk hmax
    refine not_of_takeWhile_eq hsorted hinit (hmem.2 ⟨hj, hjk.le.trans hkle⟩) hjk fun j' hj' => ?_
    exact hmax j' (hmem.1 hj').1

lemma findSignal_ne_zero {signal : String} {time : ℕ} (h : ReadsX wf signal time) :
    wf.findSignal signal ≠ 0 := (readsX_iff.1 h).1

/-- At the time of a change, a signal is sampled at the change. -/
lemma readsX_timeAt {signal : String} {idx : ℕ} (href : wf.findSignal signal ≠ 0)
    (hidx : idx ∈ wf.timeIndicesOf (wf.findSignal signal)) :
    ReadsX wf signal (wf.timeAt idx) ↔ readsXAt wf (wf.findSignal signal) idx = true := by
  rw [readsX_iff, Backend.timeIdxOf_timeAt (Backend.timeIndicesOf_lt hidx)]
  exact and_iff_right href

lemma timeAt_lt_iff {ref i j : ℕ} (hi : i ∈ wf.timeIndicesOf ref) (hj : j ∈ wf.timeIndicesOf ref) :
    wf.timeAt i < wf.timeAt j ↔ i < j := by
  constructor
  · intro h
    by_contra hle
    have := @Backend.timeAt_le_of_le wf _ _ (not_lt.1 hle) (Backend.timeIndicesOf_lt hi)
    omega
  · exact fun h => Backend.timeAt_lt_of_lt h (Backend.timeIndicesOf_lt hj)

/-- An index is the onset of a run exactly when its time is. -/
lemma isXOnset_timeAt {signal : String} {k : ℕ} (href : wf.findSignal signal ≠ 0)
    (hk : k ∈ wf.timeIndicesOf (wf.findSignal signal))
    (hx : readsXAt wf (wf.findSignal signal) k = true)
    (hfirst : ∀ j ∈ wf.timeIndicesOf (wf.findSignal signal), j < k →
      (∀ j' ∈ wf.timeIndicesOf (wf.findSignal signal), j' < k → j' ≤ j) →
        readsXAt wf (wf.findSignal signal) j = false) :
    IsXOnset wf signal (wf.timeAt k) := by
  refine ⟨⟨k, hk, rfl⟩, (readsX_timeAt href hk).2 hx, ?_⟩
  rintro _ ⟨j, hj, rfl⟩ hjk hmax hreads
  rw [timeAt_lt_iff hj hk] at hjk
  have := hfirst j hj hjk fun j' hj' hlt => by
    by_contra hle
    have h1 := hmax _ ⟨j', hj', rfl⟩ ((timeAt_lt_iff hj' hk).2 hlt)
    have h2 := (timeAt_lt_iff hj hj').2 (not_le.1 hle)
    omega
  rw [readsX_timeAt href hj, this] at hreads
  exact absurd hreads (by decide)

/-- `x_onset_time` finds the first change of the run of X that contains the query. -/
lemma isXOnset_xOnsetTime {signal : String} {time : ℕ} (h : ReadsX wf signal time) :
    IsXOnset wf signal (xOnsetTime wf (sampleAt wf signal time)) ∧
      (wf.minTime ≤ time → xOnsetTime wf (sampleAt wf signal time) ≤ time) := by
  obtain ⟨href, hx⟩ := readsX_iff.1 h
  obtain ⟨hsref, hsidx, hstime⟩ := sampleAt_ref h
  obtain ⟨k, hk, hkle, hkx, hkonset, -, hkfirst⟩ :=
    exists_onset (sampleAt wf signal time).time hx
  have heq : xOnsetTime wf (sampleAt wf signal time) = wf.timeAt k := by
    unfold xOnsetTime
    rw [onsetLoop_eq _ (by simp), hsref, hsidx, hkonset]
  rw [heq]
  refine ⟨isXOnset_timeAt href hk hkx hkfirst, fun hmin => ?_⟩
  have hne : wf.timeTable ≠ [] := List.ne_nil_of_length_pos
    (Nat.zero_lt_of_lt (Backend.timeIndicesOf_lt hk))
  exact (Backend.timeAt_le_of_le hkle (Backend.timeIdxOf_lt hne time)).trans
    (Backend.timeAt_timeIdxOf_le hne hmin)

/-- From an onset the walk does not move. -/
lemma xOnsetTime_of_isXOnset {signal : String} {onset : ℕ} (h : IsXOnset wf signal onset) :
    xOnsetTime wf (sampleAt wf signal onset) = onset := by
  obtain ⟨hsref, hsidx, -⟩ := sampleAt_ref h.reads
  obtain ⟨i, hi, rfl⟩ := h.change
  have hidx := Backend.timeIdxOf_timeAt (Backend.timeIndicesOf_lt hi)
  have href := findSignal_ne_zero h.reads
  have hx := (readsX_timeAt href hi).1 h.reads
  obtain ⟨k, hk, hkle, -, hkonset, hrun, -⟩ :=
    exists_onset (sampleAt wf signal (wf.timeAt i)).time hx
  unfold xOnsetTime
  rw [onsetLoop_eq _ (by simp), hsref, hsidx, hidx, hkonset]
  rcases hkle.lt_or_eq with hlt | rfl
  · -- the change before the onset would belong to the run that the walk went through
    obtain ⟨s, hs⟩ := exists_readAt hk (Nat.le_sub_one_of_lt hlt)
    obtain ⟨j, ⟨hj, hjle, hjmax⟩, -⟩ := readAt_eq hs
    have hji : j < i := by omega
    refine absurd ((readsX_timeAt href hj).2 (hrun j hj (hjmax k hk (by omega)) hji.le))
      (h.first _ ⟨j, hj, rfl⟩ ((timeAt_lt_iff hj hi).2 hji) ?_)
    rintro _ ⟨j', hj', rfl⟩ hj'i
    rw [timeAt_lt_iff hj' hi] at hj'i
    exact Backend.timeAt_le_of_le (hjmax j' hj' (by omega)) (Backend.timeIndicesOf_lt hj)
  · rfl

end XdebugFst.Trace
