import Mathlib
import XdebugFst.Waveform.Before

/-!
# Settled values of a signal

The list actions read the settled value of a signal at the times of a range: `sampled_value_at` with
the point `Raw`, at the index that `time_idx_of` gives for a time. A signal may have any number of
deltas at one time here, so the sample may also fail, when their number is a multiple of `2 ^ 16`.

What the actions rely on is `rawAt_of_changes`: between two changes the settled value stays the
same, whatever the number of deltas.
-/

namespace XdebugFst.Lists

open Lib Lib.History Waveform

/-- The times of a waveform, as `uint64_t` ticks. -/
structure TimeTable where
  times : List ℕ
  sorted : times.Pairwise (· < ·)
  lt : ∀ t ∈ times, t < 2 ^ 64

namespace TimeTable

variable (table : TimeTable)

/-- `time_at`. -/
def timeAt (idx : ℕ) : ℕ := table.times.getD idx 0

/-- `time_idx_of`. -/
def timeIdxOf (t : ℕ) : ℕ := (table.times.takeWhile (· ≤ t)).length - 1

variable {table}

lemma timeAt_eq {i : ℕ} (hi : i < table.times.length) : table.timeAt i = table.times[i] := by
  rw [timeAt, List.getD_eq_getElem?_getD, List.getElem?_eq_getElem hi, Option.getD_some]

lemma timeAt_lt_two_pow (i : ℕ) : table.timeAt i < 2 ^ 64 := by
  rcases Nat.lt_or_ge i table.times.length with hi | hi
  · rw [timeAt_eq hi]
    exact table.lt _ (List.getElem_mem hi)
  · rw [timeAt, List.getD_eq_getElem?_getD, List.getElem?_eq_none hi]
    exact Nat.two_pow_pos 64

lemma timeAt_lt {i j : ℕ} (hij : i < j) (hj : j < table.times.length) :
    table.timeAt i < table.timeAt j := by
  rw [timeAt_eq hj, timeAt_eq (hij.trans hj)]
  exact List.pairwise_iff_getElem.1 table.sorted i j (hij.trans hj) hj hij

lemma timeAt_le {i j : ℕ} (hij : i ≤ j) (hj : j < table.times.length) :
    table.timeAt i ≤ table.timeAt j := by
  rcases hij.lt_or_eq with hlt | rfl
  · exact (timeAt_lt hlt hj).le
  · exact le_rfl

/-- Up to the index of a time there are exactly the times that are not behind it, and the first
one. -/
lemma le_timeIdxOf {i t : ℕ} (hi : i < table.times.length) :
    i ≤ table.timeIdxOf t ↔ table.timeAt i ≤ t ∨ i = 0 := by
  have hcut := Backend.lt_length_takeWhile table.sorted (t := t) hi
  rw [timeIdxOf, timeAt_eq hi]
  omega

/-- From the first time on, the times up to the index of a time are those up to it. -/
lemma timeAt_le_iff {i t : ℕ} (ht : table.timeAt 0 ≤ t) (hi : i < table.times.length) :
    table.timeAt i ≤ t ↔ i ≤ table.timeIdxOf t := by
  rw [le_timeIdxOf hi]
  refine ⟨Or.inl, ?_⟩
  rintro (hle | rfl)
  · exact hle
  · exact ht

lemma timeIdxOf_mono {t t' : ℕ} (h : t ≤ t') : table.timeIdxOf t ≤ table.timeIdxOf t' := by
  rcases Nat.eq_zero_or_pos (table.timeIdxOf t) with hzero | hpos
  · omega
  · have hlen : table.timeIdxOf t < table.times.length := by
      have hle := (List.takeWhile_sublist (l := table.times) fun x => decide (x ≤ t)).length_le
      rw [timeIdxOf] at hpos ⊢
      omega
    rw [le_timeIdxOf hlen]
    rcases (le_timeIdxOf hlen).1 le_rfl with hle | hzero
    · exact Or.inl (hle.trans h)
    · exact Or.inr hzero

lemma timeIdxOf_timeAt {i : ℕ} (hi : i < table.times.length) :
    table.timeIdxOf (table.timeAt i) = i := by
  refine le_antisymm ?_ ((le_timeIdxOf hi).2 (Or.inl le_rfl))
  by_contra hlt
  have hlt := not_le.1 hlt
  have hlen : table.timeIdxOf (table.timeAt i) < table.times.length := by
    have hle := (List.takeWhile_sublist (l := table.times)
      fun x => decide (x ≤ table.timeAt i)).length_le
    rw [timeIdxOf] at hlt ⊢
    omega
  rcases (le_timeIdxOf hlen).1 le_rfl with hle | hzero
  · exact absurd (timeAt_lt hlt hlen) (not_lt.2 hle)
  · omega

end TimeTable

/-- Two readers that see the same changes see the same last one. -/
lemma lastWhere_congr {p q : Change → Bool} {cs : List Change} (h : ∀ c ∈ cs, p c = q c) :
    lastWhere p cs = lastWhere q cs := by
  rw [lastWhere, lastWhere, List.filter_congr h]

/-- A loaded signal: its changes in the order of their times. -/
structure WaveSignal (table : TimeTable) where
  width : ℕ
  changes : List Change
  sorted : changes.Pairwise fun a b => a.timeIdx ≤ b.timeIdx
  inTable : ∀ c ∈ changes, c.timeIdx < table.times.length

/-- `sampled_value_at` with the point `Raw`, of a list of changes. -/
def sampleRaw (cs : List Change) (timeIdx : ℕ) : Option WaveformValue :=
  (sampledValue (fun start element => (cs[start + element]?).map Change.value)
    (offsetAt cs timeIdx) timeIdx .raw).map SampledValue.value

lemma sampleRaw_of_group {cs pre grp post : List Change} {timeIdx g : ℕ}
    (h : IsLastGroup Change.timeIdx timeIdx cs pre grp post g) :
    sampleRaw cs timeIdx = (countedLast grp).map Change.value :=
  sampledValue_of_group (fun _ _ => rfl) h fun hp => ObservationPoint.noConfusion hp.1

/-- A sample without a change up to its index fails. -/
lemma sampleRaw_eq_none {cs : List Change} {timeIdx : ℕ} (h : ∀ c ∈ cs, timeIdx < c.timeIdx) :
    sampleRaw cs timeIdx = none := by
  rw [sampleRaw, offsetAt_eq_none h]
  rfl

/-- A sample is the value of a change. -/
lemma exists_of_sampleRaw {cs : List Change} {timeIdx : ℕ} {value : WaveformValue}
    (h : sampleRaw cs timeIdx = some value) : ∃ c ∈ cs, c.value = value :=
  exists_of_sampledValue (fun _ _ => rfl) h

/-- Two samples with the same changes up to their indices are the same. -/
lemma sampleRaw_congr {cs : List Change} (hs : cs.Pairwise fun a b => a.timeIdx ≤ b.timeIdx)
    {i j : ℕ} (hij : i ≤ j) (h : ∀ c ∈ cs, c.timeIdx ≤ j → c.timeIdx ≤ i) :
    sampleRaw cs i = sampleRaw cs j := by
  cases hlast : lastWhere (fun c : Change => c.timeIdx ≤ j) cs with
  | none =>
      rw [lastWhere, List.getLast?_eq_none_iff, List.filter_eq_nil_iff] at hlast
      have hnone : ∀ c ∈ cs, j < c.timeIdx := fun c hc => by simpa using hlast c hc
      rw [sampleRaw_eq_none hnone, sampleRaw_eq_none fun c hc => hij.trans_lt (hnone c hc)]
  | some last =>
      have hgrp := exists_isLastGroup hs hlast
      have hmem := (List.mem_filter.1 (List.mem_of_getLast? hlast))
      have hle : last.timeIdx ≤ i := h last hmem.1 (by simpa using hmem.2)
      have hgrp' : IsLastGroup Change.timeIdx i cs _ _ _ last.timeIdx :=
        { hgrp with
          le := hle
          after := fun c hc => hij.trans_lt (hgrp.after c hc) }
      rw [sampleRaw_of_group hgrp, sampleRaw_of_group hgrp']

namespace WaveSignal

variable {table : TimeTable} (signal : WaveSignal table)

/-- `time_indices_of`. -/
def timeIndicesOf : List ℕ := signal.changes.map Change.timeIdx

/-- The settled value at a time. -/
def rawAt (t : ℕ) : Option WaveformValue := sampleRaw signal.changes (table.timeIdxOf t)

/-- The signal changes at a time. -/
def ChangesAt (t : ℕ) : Prop := ∃ ti ∈ signal.timeIndicesOf, table.timeAt ti = t

variable {signal}

lemma timeIndicesOf_lt {ti : ℕ} (h : ti ∈ signal.timeIndicesOf) : ti < table.times.length := by
  obtain ⟨c, hc, rfl⟩ := List.mem_map.1 h
  exact signal.inTable c hc

variable (signal) in
lemma pairwise_timeIndicesOf : signal.timeIndicesOf.Pairwise (· ≤ ·) :=
  List.pairwise_map.2 signal.sorted

/-- At the time of a change the settled value is that of its index. -/
lemma rawAt_timeAt {ti : ℕ} (h : ti ∈ signal.timeIndicesOf) :
    signal.rawAt (table.timeAt ti) = sampleRaw signal.changes ti := by
  rw [rawAt, TimeTable.timeIdxOf_timeAt (timeIndicesOf_lt h)]

/-- Without a change in between, two times have the same settled value. -/
lemma rawAt_eq_rawAt {t t' : ℕ} (hle : t ≤ t')
    (h : ∀ ti ∈ signal.timeIndicesOf, table.timeAt ti ≤ t' → table.timeAt ti ≤ t) :
    signal.rawAt t = signal.rawAt t' := by
  refine sampleRaw_congr signal.sorted (TimeTable.timeIdxOf_mono hle) fun c hc hidx => ?_
  have hmem : c.timeIdx ∈ signal.timeIndicesOf := List.mem_map_of_mem hc
  rw [TimeTable.le_timeIdxOf (timeIndicesOf_lt hmem)] at hidx ⊢
  exact hidx.imp_left (h _ hmem)

variable (signal) in
/-- A time has the settled value of an earlier one, or that of a last change between them. -/
lemma rawAt_of_changes {t t' : ℕ} (hle : t ≤ t') :
    (∀ ti ∈ signal.timeIndicesOf, table.timeAt ti ≤ t' → table.timeAt ti ≤ t) ∧
        signal.rawAt t' = signal.rawAt t ∨
      ∃ ti ∈ signal.timeIndicesOf, (t < table.timeAt ti ∧ table.timeAt ti ≤ t') ∧
        (∀ tj ∈ signal.timeIndicesOf, table.timeAt tj ≤ t' → table.timeAt tj ≤ table.timeAt ti) ∧
        signal.rawAt t' = signal.rawAt (table.timeAt ti) := by
  by_cases hnone : ∀ ti ∈ signal.timeIndicesOf, table.timeAt ti ≤ t' → table.timeAt ti ≤ t
  · exact Or.inl ⟨hnone, (rawAt_eq_rawAt hle hnone).symm⟩
  · -- the last change up to the later time
    push Not at hnone
    obtain ⟨tk, hk, hkt', hkt⟩ := hnone
    obtain ⟨ti, hti, hmax⟩ := Finset.exists_max_image
      (signal.timeIndicesOf.filter fun ti => table.timeAt ti ≤ t').toFinset table.timeAt
      ⟨tk, List.mem_toFinset.2 (List.mem_filter.2 ⟨hk, by simpa using hkt'⟩)⟩
    have hmem := List.mem_filter.1 (List.mem_toFinset.1 hti)
    have htit' : table.timeAt ti ≤ t' := by simpa using hmem.2
    have hlast : ∀ tj ∈ signal.timeIndicesOf, table.timeAt tj ≤ t' →
        table.timeAt tj ≤ table.timeAt ti := fun tj hj hjt' =>
      hmax tj (List.mem_toFinset.2 (List.mem_filter.2 ⟨hj, by simpa using hjt'⟩))
    exact Or.inr ⟨ti, hmem.1, ⟨hkt.trans_le (hlast tk hk hkt'), htit'⟩, hlast,
      (rawAt_eq_rawAt htit' hlast).symm⟩

end WaveSignal

end XdebugFst.Lists
