import XdebugFst.Lib.MaximalRuns
import XdebugFst.Stream.Scan

/-!
# The stall windows of a stream

`StreamQueryHandler::run` lists the stalls of its samples. Two loops walk over the samples with
one position: the outer one looks for a sample that stalls, and the inner one goes on to the last
of the stalling samples from there. The end of a window is the sample after it, or the last sample
when the stall is not over at the end.

The windows are those of the maximal runs of stalling samples: `stallWindows_eq`.
-/

namespace XdebugFst.Stream

open Lib

variable {J : Type}

/-- One entry of `stalls`. -/
structure StallWindow where
  startCycle : ℕ
  endCycle : ℕ
  startTime : ℕ
  endTime : ℕ
  cycles : ℕ
  reason : String
  deriving DecidableEq, Repr

/-- The sample at a position stalls. -/
def stallsAt (samples : List (StreamSample J)) (pos : ℕ) : Bool :=
  samples[pos]?.any StreamSample.stall

/-- The window from the sample at `first` to the one at `last`. -/
def stallWindow (cfg : StreamConfig) (samples : List (StreamSample J)) (first last : ℕ) :
    StallWindow :=
  let endBoundary := min (last + 1) (samples.length - 1)
  { startCycle := (samples[first]?.map StreamSample.cycle).getD 0
    endCycle := (samples[endBoundary]?.map StreamSample.cycle).getD 0
    startTime := (samples[first]?.map StreamSample.time).getD 0
    endTime := (samples[endBoundary]?.map StreamSample.time).getD 0
    cycles := last - first + 1
    reason := if cfg.backpressure = "" then "rdy_low" else "bp_high" }

/-- The loop from a position. A round goes on by at least one sample, so `fuel` may be the number
of samples. -/
def stallLoop (cfg : StreamConfig) (samples : List (StreamSample J)) : ℕ → ℕ → List StallWindow
  | 0, _ => []
  | fuel + 1, pos =>
      if pos < samples.length then
        if !stallsAt samples pos then stallLoop cfg samples fuel (pos + 1)
        else
          let last := advance (stallsAt samples) (samples.length - 1 - pos) pos
          stallWindow cfg samples pos last :: stallLoop cfg samples fuel (last + 1)
      else []

/-- `stalls`. -/
def stallWindows (cfg : StreamConfig) (samples : List (StreamSample J)) : List StallWindow :=
  stallLoop cfg samples samples.length 0

/-! ### The runs of stalling samples -/

/-- The samples that stall, as a sequence with gaps. -/
def stallSequence (samples : List (StreamSample J)) (pos : ℕ) : Option Unit :=
  if stallsAt samples pos then some () else none

/-- The window of a run of samples. -/
def runWindow (cfg : StreamConfig) (samples : List (StreamSample J)) (r : Run Unit) :
    StallWindow :=
  stallWindow cfg samples r.first r.last

section Loop

variable {cfg : StreamConfig} {samples : List (StreamSample J)}

lemma stallSequence_eq_some {pos : ℕ} :
    stallSequence samples pos = some () ↔ stallsAt samples pos = true := by
  rw [stallSequence]
  split_ifs with h <;> simp [h]

lemma runEnd_stallSequence (pos : ℕ) :
    runEnd (stallSequence samples) samples.length pos () =
      advance (stallsAt samples) (samples.length - 1 - pos) pos := by
  rw [runEnd]
  congr
  funext i
  rw [Bool.eq_iff_iff, decide_eq_true_iff, stallSequence_eq_some]

/-- The window of the run that starts at a position, if one does. -/
def windowFrom (cfg : StreamConfig) (samples : List (StreamSample J)) (pos : ℕ) :
    Option StallWindow :=
  (firstAt (stallSequence samples) pos).map fun _ =>
    stallWindow cfg samples pos (advance (stallsAt samples) (samples.length - 1 - pos) pos)

lemma windowFrom_of_not_stalls {pos : ℕ} (h : stallsAt samples pos = false) :
    windowFrom cfg samples pos = none := by
  have hnone : stallSequence samples pos = none := if_neg (by rw [h]; exact Bool.false_ne_true)
  rw [windowFrom, firstAt_of_eq_none hnone, Option.map_none]

/-- Inside a run no window starts. -/
lemma windowFrom_of_stalls_before {pos : ℕ} (hprev : stallsAt samples pos = true)
    (h : stallsAt samples (pos + 1) = true) : windowFrom cfg samples (pos + 1) = none := by
  have hnone := (firstAt_eq_none (stallSequence_eq_some.2 h)).2
    ⟨Nat.succ_pos pos, stallSequence_eq_some.2 hprev⟩
  rw [windowFrom, hnone, Option.map_none]

/-- The last place of the run that begins at `pos`. -/
def lastStall (samples : List (StreamSample J)) (pos : ℕ) : ℕ :=
  advance (stallsAt samples) (samples.length - 1 - pos) pos

/-- A run ends inside the samples, and it is not followed by a stall. -/
lemma lastStall_spec {pos : ℕ} (hpos : pos < samples.length) :
    pos ≤ lastStall samples pos ∧ lastStall samples pos < samples.length ∧
      (∀ i, pos < i → i ≤ lastStall samples pos → stallsAt samples i = true) ∧
      stallsAt samples (lastStall samples pos + 1) = false := by
  obtain ⟨hle, hbound, hrun, hstop⟩ :=
    advance_spec (stallsAt samples) (samples.length - 1 - pos) pos
  rw [← lastStall] at hle hbound hrun hstop
  refine ⟨hle, by omega, hrun, ?_⟩
  by_cases hend : lastStall samples pos < pos + (samples.length - 1 - pos)
  · exact hstop hend
  · rw [stallsAt, List.getElem?_eq_none (by omega)]
    rfl

/-- Where a run begins there is its window, and the next one begins behind the run. -/
lemma filterMap_windowFrom_run {pos : ℕ} (hpos : pos < samples.length)
    (hstall : stallsAt samples pos = true)
    (hcut : 0 < pos → stallsAt samples pos = true → stallsAt samples (pos - 1) = false) :
    (List.range' pos (samples.length - pos)).filterMap (windowFrom cfg samples) =
      stallWindow cfg samples pos (lastStall samples pos) ::
        (List.range' (lastStall samples pos + 1)
          (samples.length - (lastStall samples pos + 1))).filterMap (windowFrom cfg samples) := by
  obtain ⟨hle, hbound, hrun, -⟩ := lastStall_spec hpos
  -- the first place, the rest of the run, and what comes after the run
  have hsplit : List.range' pos (samples.length - pos) = pos ::
      (List.range' (pos + 1) (lastStall samples pos - pos) ++
        List.range' (lastStall samples pos + 1)
          (samples.length - (lastStall samples pos + 1))) := by
    rw [show lastStall samples pos + 1 = pos + 1 + (lastStall samples pos - pos) by omega,
      List.range'_append_1, show samples.length - pos = samples.length - (pos + 1) + 1 by omega,
      List.range'_succ]
    congr 2
    omega
  have hfirst : windowFrom cfg samples pos =
      some (stallWindow cfg samples pos (lastStall samples pos)) := by
    have hsome : firstAt (stallSequence samples) pos = some () := by
      refine firstAt_eq_some_iff.2 ⟨stallSequence_eq_some.2 hstall, fun h hprev => ?_⟩
      rw [stallSequence_eq_some, hcut h hstall] at hprev
      cases hprev
    rw [windowFrom, hsome, Option.map_some]
    rfl
  have hinside : (List.range' (pos + 1) (lastStall samples pos - pos)).filterMap
      (windowFrom cfg samples) = [] := by
    refine List.filterMap_eq_nil_iff.2 fun i hi => ?_
    rw [List.mem_range'_1] at hi
    obtain ⟨j, rfl⟩ : ∃ j, i = j + 1 := ⟨i - 1, by omega⟩
    refine windowFrom_of_stalls_before ?_ (hrun (j + 1) (by omega) (by omega))
    rcases Nat.eq_or_lt_of_le (show pos ≤ j by omega) with rfl | hlt
    · exact hstall
    · exact hrun j hlt (by omega)
  rw [hsplit, List.filterMap_cons, hfirst, List.filterMap_append, hinside, List.nil_append]

/-- The loop from a position where no run is cut lists the windows that start from there on. -/
lemma stallLoop_eq {fuel pos : ℕ} (hfuel : samples.length ≤ pos + fuel)
    (hcut : 0 < pos → stallsAt samples pos = true → stallsAt samples (pos - 1) = false) :
    stallLoop cfg samples fuel pos =
      (List.range' pos (samples.length - pos)).filterMap (windowFrom cfg samples) := by
  induction fuel generalizing pos with
  | zero =>
      rw [stallLoop, Nat.sub_eq_zero_of_le (by omega)]
      rfl
  | succ fuel ih =>
      rw [stallLoop]
      by_cases hpos : pos < samples.length
      · rw [if_pos hpos]
        cases hstall : stallsAt samples pos with
        | false =>
            have hrest : stallLoop cfg samples fuel (pos + 1) = _ :=
              ih (by omega) fun _ _ => by rw [Nat.add_sub_cancel, hstall]
            rw [show samples.length - pos = samples.length - (pos + 1) + 1 by omega,
              List.range'_succ, List.filterMap_cons, windowFrom_of_not_stalls hstall]
            exact hrest
        | true =>
            obtain ⟨hle, hbound, -, hstop⟩ := lastStall_spec hpos
            have hrest : stallLoop cfg samples fuel (lastStall samples pos + 1) = _ :=
              ih (by omega) fun _ hafter => by
                rw [hstop] at hafter
                cases hafter
            rw [filterMap_windowFrom_run hpos hstall hcut, ← hrest]
            rfl
      · rw [if_neg hpos, Nat.sub_eq_zero_of_le (not_lt.1 hpos)]
        rfl

/-- The stalls are the windows of the maximal runs of stalling samples. -/
lemma stallWindows_eq (cfg : StreamConfig) (samples : List (StreamSample J)) :
    stallWindows cfg samples =
      (runs (stallSequence samples) samples.length).map (runWindow cfg samples) := by
  rw [stallWindows, stallLoop_eq (by omega) (fun h => absurd h (lt_irrefl 0)), runs,
    List.map_filterMap, Nat.sub_zero, ← List.range_eq_range']
  refine List.filterMap_congr fun pos _ => ?_
  rw [windowFrom, Option.map_map]
  refine Option.map_congr fun u _ => ?_
  rw [Function.comp_apply, runWindow, ← runEnd_stallSequence]

end Loop

/-- The stalls are, in order, the maximal runs of consecutive stalling samples, each with its
length, and the lengths add up to `stall_cycles`. -/
theorem stallWindows_maximal (cfg : StreamConfig) (samples : List (StreamSample FieldJson))
    (fieldsComplete : Bool) :
    ∃ stalls : List (Run Unit),
      (∀ r, r ∈ stalls ↔ r.IsMaximal (stallSequence samples) samples.length) ∧
      stalls.Pairwise (fun r s => r.last < s.first) ∧
      (stalls.map Run.first).Pairwise (· < ·) ∧
      stallWindows cfg samples = stalls.map (runWindow cfg samples) ∧
      (stallWindows cfg samples).map StallWindow.cycles = stalls.map Run.length ∧
      ((stallWindows cfg samples).map StallWindow.cycles).sum =
        (streamResult samples fieldsComplete).stallCycles := by
  have hcycles : (stallWindows cfg samples).map StallWindow.cycles =
      (runs (stallSequence samples) samples.length).map Run.length := by
    rw [stallWindows_eq, List.map_map]
    rfl
  have hcount : (List.range samples.length).countP (fun i => (stallSequence samples i).isSome) =
      samples.countP StreamSample.stall := by
    have hsamples : samples.map StreamSample.stall =
        (List.range samples.length).map (stallsAt samples) := by
      refine List.ext_getElem (by simp) fun i hi _ => ?_
      rw [List.length_map] at hi
      simp [stallsAt, List.getElem?_eq_getElem hi]
    have hleft : samples.countP StreamSample.stall = (samples.map StreamSample.stall).countP id := by
      rw [List.countP_map]
      rfl
    rw [hleft, hsamples, List.countP_map]
    refine List.countP_congr fun i _ => ?_
    rw [stallSequence, Function.comp_apply, id_eq]
    cases stallsAt samples i <;> simp
  refine ⟨runs (stallSequence samples) samples.length, fun r => mem_runs_iff, pairwise_runs _ _,
    ?_, stallWindows_eq cfg samples, hcycles, ?_⟩
  · -- a run starts behind the end of the run before it
    rw [List.pairwise_map]
    refine List.Pairwise.imp_of_mem (fun {r s} hr _ hlt => ?_) (pairwise_runs _ _)
    exact (mem_runs_iff.1 hr).le.trans_lt hlt
  · rw [hcycles, sum_length_runs, hcount]
    rfl

end XdebugFst.Stream
