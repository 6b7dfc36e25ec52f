import Mathlib
import XdebugFst.Axi.Scan
import XdebugFst.Window.Verify

/-!
# Collecting clock edges

Five loops of the actions walk over the changes of a clock and collect its edges: those of
`run_event_find`, `collect_analysis_edges`, `selected_clock_edges` of the AXI actions,
`clock_edges` of the window actions and `ClockSampleScanner`. At each change they compare
the value that the clock has settled to before with the one it settles to, and they keep
the times of a range at which this is an edge of the selected kind.

A clock may change several times at one time. All loops but that of `run_event_find` skip an
index which is the previous one, so `run_event_find` samples such an edge once for each
change. The number of deltas at one time is kept in 16 bits, so that with more of them a sample
reads an inner delta or nothing. Then the scanner, which remembers what it has sampled, may compare
with another value than the loops that sample before the change. `collectorsAgree_iff` says when
the loops agree nevertheless.
-/

namespace XdebugFst.Clock

open Lib Lib.History Waveform Axi Window

section Definitions

variable (wf : Backend) (ref : ℕ)

/-- The comparison that the loops make at a change: whether it rises and whether it falls,
when both values exist. -/
def edgeAt (ti : ℕ) : Option (Bool × Bool) :=
  match wf.sampledValueAt ref ti .before, wf.sampledValueAt ref ti .raw with
  | some before, some raw =>
      some (isRisingEdge before.value.text raw.value.text,
        isFallingEdge before.value.text raw.value.text)
  | _, _ => none

/-- The indices that a loop visits which skips an index equal to the previous one. -/
def distinctIndices : List ℕ := dedup id none (wf.timeIndicesOf ref)

variable (edge : EdgeSelect) (first last : ℕ)

/-- The time of an index is in the range. -/
def inRange (ti : ℕ) : Bool := !(wf.timeAt ti < first || wf.timeAt ti > last)

/-- The loop of `run_event_find`: the indices at which it takes a sample, and
`analysis_complete`. A request without `max_samples` has no limit. -/
def eventFindLoop (maxSamples : Option ℕ) : ℕ → List ℕ → List ℕ × Bool
  | _, [] => ([], true)
  | sampleCount, ti :: rest =>
      if !inRange wf first last ti then eventFindLoop maxSamples sampleCount rest
      else
        match edgeAt wf ref ti with
        | none => eventFindLoop maxSamples sampleCount rest
        | some (rise, fall) =>
            if !selectedEdge edge rise fall then eventFindLoop maxSamples sampleCount rest
            else if maxSamples.any fun limit => sampleCount ≥ limit then ([], false)
            else
              let (samples, complete) := eventFindLoop maxSamples (sampleCount + 1) rest
              (ti :: samples, complete)

/-- The indices at which `run_event_find` takes a sample. -/
def eventFindSamples (maxSamples : Option ℕ) : List ℕ :=
  (eventFindLoop wf ref edge first last maxSamples 0 (wf.timeIndicesOf ref)).1

/-- `AnalysisEdge`. -/
structure AnalysisEdge where
  timeIdx : ℕ
  time : ℕ
  deriving DecidableEq, Repr

/-- `collect_analysis_edges`. -/
def collectAnalysisEdges : List AnalysisEdge :=
  (distinctIndices wf ref).filterMap fun ti =>
    if !inRange wf first last ti then none
    else
      match edgeAt wf ref ti with
      | none => none
      | some (rising, falling) =>
          if selectedEdge edge rising falling then some ⟨ti, wf.timeAt ti⟩ else none

/-- `clock_edges` of the window actions. -/
def clockEdges : List EdgeRecord :=
  (distinctIndices wf ref).filterMap fun ti =>
    match edgeAt wf ref ti with
    | none => none
    | some (rising, falling) =>
        if !rising && !falling then none
        else some ⟨ti, wf.timeAt ti, if rising then .posedge else .negedge⟩

/-- The window actions look at the edges of the selected kind in their range. -/
def inWindow (record : EdgeRecord) : Bool :=
  !(record.time < first || record.time > last) &&
    selectedEdge edge (record.kind = .posedge) (!(record.kind = .posedge))

/-- The loop of `ClockSampleScanner`, which remembers the last settled value. -/
def scannerLoop (rising falling : Bool) : String → List ℕ → List ℕ
  | _, [] => []
  | prev, ti :: rest =>
      match wf.sampledValueAt ref ti .raw with
      | none => scannerLoop rising falling prev rest
      | some sampled =>
          let cur := sampled.value.text
          if prev ≠ "" && (rising && isRisingEdge prev cur || falling && isFallingEdge prev cur) then
            ti :: scannerLoop rising falling cur rest
          else scannerLoop rising falling cur rest

/-- `edge_indices` of a `ClockSampleScanner`. -/
def edgeIndices (rising falling : Bool) : List ℕ :=
  scannerLoop wf ref rising falling "" (distinctIndices wf ref)

/-- `parse_edge`: the edges that a scanner is asked for. -/
def parseEdge : Bool × Bool :=
  match edge with
  | .posedge => (true, false)
  | .negedge => (false, true)
  | .dual => (true, true)

end Definitions

/-- The edges that an AXI configuration selects. -/
def select : ClockEdge → EdgeSelect
  | .posedge => .posedge
  | .negedge => .negedge
  | .dual => .dual

section Statements

variable (wf : Backend) (loaded : Loaded) (config : AxiSignalMap) (first last : ℕ)

/-- The five loops select the same times, each of them once. -/
def CollectorsAgree : Prop :=
  let ref := wf.findSignal config.aclk
  let edge := select config.edge
  ∃ times : List ℕ, times.Pairwise (· < ·) ∧
    (eventFindSamples wf ref edge first last none).map wf.timeAt = times ∧
    (collectAnalysisEdges wf ref edge first last).map AnalysisEdge.time = times ∧
    (selectedClockEdges wf loaded config first last).map wf.timeAt = times ∧
    ((clockEdges wf ref).filter (inWindow edge first last)).map EdgeRecord.time = times ∧
    ((edgeIndices wf ref (parseEdge edge).1 (parseEdge edge).2).filter
      (inRange wf first last)).map wf.timeAt = times

/-- The clock of a configuration: it is found and loaded, and its values are bits. -/
structure IsClock : Prop where
  found : wf.findSignal config.aclk ≠ 0
  loaded : wf.nativeRef (wf.findSignal config.aclk) ∈ loaded
  bits : ∀ c ∈ wf.changesOf (wf.findSignal config.aclk), c.value.kind = .bitVector

variable (ref : ℕ) (edge : EdgeSelect)

/-- The text of the last change that satisfies a condition, empty if there is none. -/
def settledText (p : Change → Bool) : String :=
  ((lastWhere p (wf.changesOf ref)).map fun c => c.value.text).getD ""

/-- The text of the delta that counts as the last one of an index, empty if there is none. -/
def countedText (ti : ℕ) : String :=
  ((countedLast (deltasAt (wf.changesOf ref) ti)).map fun c => c.value.text).getD ""

/-- From the value settled before an index to the delta that counts as its last one there is a
selected edge. -/
def countedEdge (ti : ℕ) : Bool :=
  let before := settledText wf ref fun c => c.timeIdx < ti
  selectedEdge edge (isRisingEdge before (countedText wf ref ti))
    (isFallingEdge before (countedText wf ref ti))

/-- The text at the last earlier change at which a delta counts as the last one. -/
def rememberedText (ti : ℕ) : String :=
  ((lastWhere (fun c : Change =>
      c.timeIdx < ti && (countedLast (deltasAt (wf.changesOf ref) c.timeIdx)).isSome)
    (wf.changesOf ref)).map fun c => countedText wf ref c.timeIdx).getD ""

/-- From that text to the delta that counts as the last one of an index there is a selected edge. -/
def rememberedEdge (ti : ℕ) : Bool :=
  let before := rememberedText wf ref ti
  selectedEdge edge (isRisingEdge before (countedText wf ref ti))
    (isFallingEdge before (countedText wf ref ti))

/-- Where a selected edge is in the range, the clock changes only once. -/
def OneChangePerEdge : Prop :=
  ∀ ti, inRange wf first last ti = true → countedEdge wf ref edge ti = true →
    (wf.changesOf ref).countP (fun c => c.timeIdx = ti) ≤ 1

/-- At the changes in the range, what was counted before makes the same edges as what the clock had
settled to. -/
def RememberedEdges : Prop :=
  ∀ ti ∈ wf.timeIndicesOf ref, inRange wf first last ti = true →
    rememberedEdge wf ref edge ti = countedEdge wf ref edge ti

end Statements

variable {wf : Backend} {loaded : Loaded} {config : AxiSignalMap} {ref first last : ℕ}
  {edge : EdgeSelect}

/-! ### Edges -/

lemma isRisingEdge_empty (cur : String) : isRisingEdge "" cur = false := rfl

lemma isFallingEdge_empty (cur : String) : isFallingEdge "" cur = false := rfl

@[simp]
lemma selectedEdge_false (edge : EdgeSelect) : selectedEdge edge false false = false := by
  cases edge <;> rfl

/-- No change both rises and falls. -/
lemma not_rising_of_falling {prev cur : String} (h : isFallingEdge prev cur = true) :
    isRisingEdge prev cur = false := by
  rw [isFallingEdge, Bool.and_eq_true, decide_eq_true_eq, decide_eq_true_eq] at h
  simp [isRisingEdge, h.1]

@[simp]
lemma isRisingEdge_to_empty (prev : String) : isRisingEdge prev "" = false := by
  simp [isRisingEdge]

@[simp]
lemma isFallingEdge_to_empty (prev : String) : isFallingEdge prev "" = false := by
  simp [isFallingEdge]

/-- At a change the delta that counts as the last one is sampled. -/
lemma raw_sampledValueAt {ti : ℕ} (h : ti ∈ wf.timeIndicesOf ref) :
    (wf.sampledValueAt ref ti .raw).map SampledValue.value =
      (countedLast (deltasAt (wf.changesOf ref) ti)).map Change.value := by
  obtain ⟨pre, post, hgrp⟩ := isLastGroup_deltasAt (Backend.changesOf_sorted ref) h
  exact sampledValue_of_group (fun _ _ => rfl) hgrp fun hp => ObservationPoint.noConfusion hp.1

/-- Before a change the last earlier change is sampled, if the deltas of the change count. -/
lemma before_sampledValueAt {ti : ℕ} (h : ti ∈ wf.timeIndicesOf ref) :
    (wf.sampledValueAt ref ti .before).map SampledValue.value =
      if 2 ^ 16 ∣ (deltasAt (wf.changesOf ref) ti).length then none
      else (lastWhere (fun c => c.timeIdx < ti) (wf.changesOf ref)).map Change.value := by
  obtain ⟨pre, post, hgrp⟩ := isLastGroup_deltasAt (Backend.changesOf_sorted ref) h
  rw [hgrp.lastWhere_lt, if_pos rfl]
  exact sampledValue_before (fun _ _ => rfl) hgrp

lemma raw_sampledValueAt_text {ti : ℕ} (h : ti ∈ wf.timeIndicesOf ref) :
    (wf.sampledValueAt ref ti .raw).map (fun s => s.value.text) =
      (countedLast (deltasAt (wf.changesOf ref) ti)).map fun c => c.value.text := by
  have htext := congrArg (Option.map WaveformValue.text) (raw_sampledValueAt h)
  rwa [Option.map_map, Option.map_map] at htext

/-- A loop that compares two texts which are read where a value is sampled, with any texts that are
no edges where there is none, reads the counted edge. -/
lemma selectedEdge_sampled {ti : ℕ} (h : ti ∈ wf.timeIndicesOf ref) {missing : String}
    (hfrom : ∀ cur, isRisingEdge missing cur = false ∧ isFallingEdge missing cur = false)
    (hto : ∀ prev, isRisingEdge prev missing = false ∧ isFallingEdge prev missing = false) :
    let before := ((wf.sampledValueAt ref ti .before).map fun s => s.value.text).getD missing
    let raw := ((wf.sampledValueAt ref ti .raw).map fun s => s.value.text).getD missing
    selectedEdge edge (isRisingEdge before raw) (isFallingEdge before raw) =
      countedEdge wf ref edge ti := by
  have hbefore := congrArg (Option.map WaveformValue.text) (before_sampledValueAt h)
  rw [Option.map_map, apply_ite (Option.map WaveformValue.text), Option.map_map] at hbefore
  change (wf.sampledValueAt ref ti .before).map (fun s => s.value.text) = _ at hbefore
  dsimp only
  rw [raw_sampledValueAt_text h, hbefore, countedEdge, countedText, settledText]
  split_ifs with hdvd
  · -- nothing is read at all, and nothing is counted
    rw [countedLast_eq_none_iff.2 hdvd]
    simp [(hto missing).1, (hto missing).2]
  · cases hcount : countedLast (deltasAt (wf.changesOf ref) ti) with
    | none => exact absurd (countedLast_eq_none_iff.1 hcount) hdvd
    | some c =>
        cases lastWhere (fun c : Change => decide (c.timeIdx < ti)) (wf.changesOf ref) with
        | none =>
            simp [isRisingEdge_empty, isFallingEdge_empty, (hfrom c.value.text).1,
              (hfrom c.value.text).2]
        | some before => rfl

/-- What a loop reads at a change is the counted edge. -/
lemma any_edgeAt {ti : ℕ} (h : ti ∈ wf.timeIndicesOf ref) :
    ((edgeAt wf ref ti).any fun e => selectedEdge edge e.1 e.2) = countedEdge wf ref edge ti := by
  rw [← @selectedEdge_sampled wf ref edge ti h "" (fun _ => ⟨rfl, rfl⟩) fun prev =>
    ⟨isRisingEdge_to_empty prev, isFallingEdge_to_empty prev⟩, edgeAt]
  cases wf.sampledValueAt ref ti .before with
  | none => simp [isRisingEdge_empty, isFallingEdge_empty]
  | some before => cases wf.sampledValueAt ref ti .raw <;> simp

/-! ### The indices that are visited -/

/-- What the skipping loops collect. -/
def selectedIndices (wf : Backend) (ref : ℕ) (edge : EdgeSelect) (first last : ℕ) : List ℕ :=
  (distinctIndices wf ref).filter fun ti => inRange wf first last ti && countedEdge wf ref edge ti

lemma mem_distinctIndices {ti : ℕ} : ti ∈ distinctIndices wf ref ↔ ti ∈ wf.timeIndicesOf ref := by
  constructor
  · exact mem_of_mem_dedup_id
  · intro h
    exact (mem_dedup_id_or none h).resolve_right (by simp)

lemma pairwise_distinctIndices (wf : Backend) (ref : ℕ) :
    (distinctIndices wf ref).Pairwise (· < ·) :=
  (pairwise_dedup_id (Backend.timeIndicesOf_sorted ref) none (by simp)).1

/-! ### The loops -/

/-- The loop of `run_event_find` keeps every change that shows a selected edge. -/
lemma eventFindLoop_eq (sampleCount : ℕ) {l : List ℕ} (hl : ∀ ti ∈ l, ti ∈ wf.timeIndicesOf ref) :
    (eventFindLoop wf ref edge first last none sampleCount l).1 =
      l.filter fun ti => inRange wf first last ti && countedEdge wf ref edge ti := by
  induction l generalizing sampleCount with
  | nil => rfl
  | cons ti l ih =>
      have hedge := @any_edgeAt wf ref edge ti (hl ti List.mem_cons_self)
      have ih := fun sampleCount => ih sampleCount fun tj htj => hl tj (List.mem_cons_of_mem ti htj)
      rw [eventFindLoop, List.filter_cons]
      cases inRange wf first last ti with
      | false => exact ih sampleCount
      | true =>
          rw [← hedge]
          cases edgeAt wf ref ti with
          | none => exact ih sampleCount
          | some e =>
              obtain ⟨rise, fall⟩ := e
              cases hs : selectedEdge edge rise fall with
              | false => simpa [hs] using ih sampleCount
              | true => simpa [hs] using ih (sampleCount + 1)

lemma collectAnalysisEdges_eq : collectAnalysisEdges wf ref edge first last =
    (selectedIndices wf ref edge first last).map fun ti => ⟨ti, wf.timeAt ti⟩ := by
  rw [collectAnalysisEdges, selectedIndices, ← List.filterMap_eq_map, List.filterMap_filter]
  refine List.filterMap_congr fun ti hti => ?_
  rw [← any_edgeAt (mem_distinctIndices.1 hti)]
  cases inRange wf first last ti with
  | false => rfl
  | true =>
      cases edgeAt wf ref ti with
      | none => rfl
      | some e =>
          cases hs : selectedEdge edge e.1 e.2 <;> simp [hs]

/-- Reading the kind of a record back selects the edges that the comparison selects. -/
lemma selectedEdge_kind {prev cur : String}
    (h : (isRisingEdge prev cur || isFallingEdge prev cur) = true) :
    selectedEdge edge (isRisingEdge prev cur) (!isRisingEdge prev cur) =
      selectedEdge edge (isRisingEdge prev cur) (isFallingEdge prev cur) := by
  cases hfall : isFallingEdge prev cur with
  | true => rw [not_rising_of_falling hfall]; rfl
  | false =>
      rw [hfall, Bool.or_false] at h
      rw [h]
      rfl

lemma edgeAt_cases (wf : Backend) (ref ti : ℕ) : edgeAt wf ref ti = none ∨
    ∃ before raw, edgeAt wf ref ti = some (isRisingEdge before raw, isFallingEdge before raw) := by
  rw [edgeAt]
  cases wf.sampledValueAt ref ti .before with
  | none => exact Or.inl rfl
  | some before =>
      cases wf.sampledValueAt ref ti .raw with
      | none => exact Or.inl rfl
      | some raw => exact Or.inr ⟨_, _, rfl⟩

lemma time_clockEdges :
    ((clockEdges wf ref).filter (inWindow edge first last)).map EdgeRecord.time =
      (selectedIndices wf ref edge first last).map wf.timeAt := by
  rw [clockEdges, selectedIndices, List.filter_filterMap, List.map_filterMap,
    ← List.filterMap_eq_map, List.filterMap_filter]
  refine List.filterMap_congr fun ti hti => ?_
  rw [← any_edgeAt (mem_distinctIndices.1 hti)]
  rcases edgeAt_cases wf ref ti with hnone | ⟨before, raw, hsome⟩
  · rw [hnone]
    simp
  · rw [hsome]
    cases hedge : (isRisingEdge before raw || isFallingEdge before raw) with
    | false =>
        obtain ⟨hrise, hfall⟩ := Bool.or_eq_false_iff.1 hedge
        simp [hrise, hfall]
    | true =>
        have hkind := @selectedEdge_kind edge before raw hedge
        have hnot : (!isRisingEdge before raw && !isFallingEdge before raw) = false := by
          rw [← Bool.not_or, hedge]
          rfl
        -- the record is a rising edge exactly when the comparison says so
        have hin : inWindow edge first last
              ⟨ti, wf.timeAt ti, if isRisingEdge before raw then .posedge else .negedge⟩ =
            (inRange wf first last ti &&
              selectedEdge edge (isRisingEdge before raw) (isFallingEdge before raw)) := by
          rw [← hkind]
          cases isRisingEdge before raw <;> rfl
        simp only [hnot, Bool.false_eq_true, if_false, Option.filter_some, hin, Option.any_some]
        split_ifs <;> rfl

/-! ### The scanner -/

/-- The changes before a visited index are those up to the visited index before it. -/
lemma lt_iff_le_of_visited {done rest : List ℕ} {a b : ℕ}
    (h : distinctIndices wf ref = done ++ [a] ++ b :: rest) {c : Change}
    (hc : c ∈ wf.changesOf ref) : c.timeIdx < b ↔ c.timeIdx ≤ a := by
  have hpair := h ▸ pairwise_distinctIndices wf ref
  rw [List.pairwise_append, List.pairwise_append] at hpair
  obtain ⟨⟨-, -, hdone⟩, hrest, hcross⟩ := hpair
  have hab : a < b := hcross a (by simp) b (by simp)
  have hmem : c.timeIdx ∈ done ++ [a] ++ b :: rest := by
    rw [← h, mem_distinctIndices]
    exact List.mem_map_of_mem hc
  rcases List.mem_append.1 hmem with hmem | hmem
  · rcases List.mem_append.1 hmem with hmem | hmem
    · have := hdone _ hmem a (by simp)
      omega
    · obtain rfl := List.mem_singleton.1 hmem
      omega
  · rcases List.mem_cons.1 hmem with rfl | hmem
    · omega
    · have := (List.pairwise_cons.1 hrest).1 _ hmem
      omega

/-- Before the first visited index there are no changes. -/
lemma not_lt_first {rest : List ℕ} {b : ℕ} (h : distinctIndices wf ref = b :: rest) {c : Change}
    (hc : c ∈ wf.changesOf ref) : ¬ c.timeIdx < b := by
  have hmem : c.timeIdx ∈ b :: rest := by
    rw [← h, mem_distinctIndices]
    exact List.mem_map_of_mem hc
  have hpair := List.pairwise_cons.1 (h ▸ pairwise_distinctIndices wf ref)
  rcases List.mem_cons.1 hmem with hb | hmem
  · omega
  · have := hpair.1 _ hmem
    omega

lemma rememberedText_first {rest : List ℕ} {b : ℕ} (h : distinctIndices wf ref = b :: rest) :
    rememberedText wf ref b = "" := by
  have hnil : (wf.changesOf ref).filter (fun c : Change =>
      c.timeIdx < b && (countedLast (deltasAt (wf.changesOf ref) c.timeIdx)).isSome) = [] :=
    List.filter_eq_nil_iff.2 fun c hc => by simp [not_lt_first h hc]
  rw [rememberedText, lastWhere, hnil]
  rfl

/-- From one visited index to the next, the counted delta is remembered if there is one. -/
lemma rememberedText_next {done rest : List ℕ} {a b : ℕ}
    (h : distinctIndices wf ref = done ++ [a] ++ b :: rest) :
    rememberedText wf ref b = if (countedLast (deltasAt (wf.changesOf ref) a)).isSome then
      countedText wf ref a else rememberedText wf ref a := by
  have hlt : ∀ c ∈ wf.changesOf ref, c.timeIdx < b ↔ c.timeIdx ≤ a :=
    fun c hc => lt_iff_le_of_visited h hc
  rw [rememberedText]
  split_ifs with hsome
  · obtain ⟨c, hc, hca⟩ : ∃ c ∈ wf.changesOf ref, c.timeIdx = a := by
      refine List.mem_map.1 (mem_distinctIndices.1 ?_)
      rw [h]
      simp
    have hcounts : (decide (c.timeIdx < b) &&
        (countedLast (deltasAt (wf.changesOf ref) c.timeIdx)).isSome) = true := by
      rw [hca, hsome, Bool.and_true, decide_eq_true_eq, ← hca, hlt c hc, hca]
    -- the last change that counts stands at the index before
    cases hlast : lastWhere (fun c : Change => decide (c.timeIdx < b) &&
        (countedLast (deltasAt (wf.changesOf ref) c.timeIdx)).isSome) (wf.changesOf ref) with
    | none =>
        rw [lastWhere, List.getLast?_eq_none_iff, List.filter_eq_nil_iff] at hlast
        exact absurd hcounts (hlast c hc)
    | some last =>
        obtain ⟨hmem, hp⟩ := List.mem_filter.1 (List.mem_of_getLast? hlast)
        have hle := (hlt last hmem).1 (of_decide_eq_true (Bool.and_eq_true_iff.1 hp).1)
        have hge := time_le_of_lastWhere (Backend.changesOf_sorted ref) hlast hc hcounts
        rw [Option.map_some, Option.getD_some, le_antisymm hle (hca ▸ hge)]
  · rw [rememberedText, lastWhere, lastWhere]
    refine congrArg (fun l : List Change =>
      (l.getLast?.map fun c => countedText wf ref c.timeIdx).getD "")
      (List.filter_congr fun c hc => ?_)
    have hiff := hlt c hc
    by_cases hca : c.timeIdx = a
    · rw [hca]
      simp [hsome]
    · have hlt' : c.timeIdx < b ↔ c.timeIdx < a := by omega
      rw [decide_eq_decide.2 hlt']

lemma selectedEdge_parseEdge (rising falling : Bool) :
    ((parseEdge edge).1 && rising || (parseEdge edge).2 && falling) =
      selectedEdge edge rising falling := by
  cases edge <;> simp [parseEdge, selectedEdge]

/-- The scanner keeps the visited indices with an edge from the text that it remembers. -/
lemma scannerLoop_eq {done l : List ℕ} {prev : String} (h : distinctIndices wf ref = done ++ l)
    (hprev : ∀ b ∈ l.head?, prev = rememberedText wf ref b) :
    scannerLoop wf ref (parseEdge edge).1 (parseEdge edge).2 prev l =
      l.filter (rememberedEdge wf ref edge) := by
  induction l generalizing done prev with
  | nil => rfl
  | cons ti l ih =>
      obtain rfl := hprev ti rfl
      have hti : ti ∈ wf.timeIndicesOf ref := by
        rw [← mem_distinctIndices, h]
        simp
      have htext := raw_sampledValueAt_text hti
      have hrest (prev : String) (hnext : prev =
          if (countedLast (deltasAt (wf.changesOf ref) ti)).isSome then countedText wf ref ti
          else rememberedText wf ref ti) :=
        @ih (done ++ [ti]) prev (by simpa using h) fun b hb => by
          obtain ⟨rest, rfl⟩ := List.head?_eq_some_iff.1 hb
          rw [rememberedText_next (by simpa using h), hnext]
      rw [scannerLoop, List.filter_cons, rememberedEdge]
      cases hsampled : wf.sampledValueAt ref ti .raw with
      | none =>
          rw [hsampled, Option.map_none, eq_comm, Option.map_eq_none_iff] at htext
          have hempty : countedText wf ref ti = "" := by rw [countedText, htext]; rfl
          dsimp only
          rw [hempty, isRisingEdge_to_empty, isFallingEdge_to_empty, selectedEdge_false,
            if_neg (by simp), hrest _ (by rw [htext]; rfl)]
      | some sampled =>
          rw [hsampled, Option.map_some] at htext
          have hcounted : countedText wf ref ti = sampled.value.text := by
            rw [countedText, ← htext]
            rfl
          have hsome : (countedLast (deltasAt (wf.changesOf ref) ti)).isSome = true := by
            rw [← Option.isSome_map, ← htext]
            rfl
          dsimp only
          rw [hrest _ (by rw [if_pos hsome, hcounted]), selectedEdge_parseEdge, hcounted]
          -- an empty text is no edge, so that the scanner need not test for it
          by_cases hne : rememberedText wf ref ti = ""
          · rw [hne, isRisingEdge_empty, isFallingEdge_empty]
            simp
          · simp [hne]

lemma edgeIndices_eq : edgeIndices wf ref (parseEdge edge).1 (parseEdge edge).2 =
    (distinctIndices wf ref).filter (rememberedEdge wf ref edge) := by
  refine scannerLoop_eq (List.nil_append _).symm fun b hb => ?_
  obtain ⟨rest, hrest⟩ := List.head?_eq_some_iff.1 hb
  exact (rememberedText_first hrest).symm

/-- The scanner selects the same edges exactly when it remembers the same edges. -/
lemma edgeIndices_filter_iff :
    (edgeIndices wf ref (parseEdge edge).1 (parseEdge edge).2).filter (inRange wf first last) =
        selectedIndices wf ref edge first last ↔
      RememberedEdges wf first last ref edge := by
  rw [edgeIndices_eq, List.filter_filter, selectedIndices, RememberedEdges]
  constructor
  · intro h ti hti hrange
    have hmem := Iff.of_eq (congrArg (ti ∈ ·) h)
    rw [List.mem_filter, List.mem_filter, mem_distinctIndices, and_congr_right_iff, hrange,
      Bool.true_and, Bool.true_and] at hmem
    exact Bool.eq_iff_iff.2 (hmem hti)
  · intro h
    refine List.filter_congr fun ti hti => ?_
    cases hrange : inRange wf first last ti with
    | false => rfl
    | true => rw [h ti (mem_distinctIndices.1 hti) hrange]

/-! ### The AXI loop -/

/-- A value of a clock that is read for AXI is its settled text, or an X when there is none. -/
lemma readSignalAt_eq (h : IsClock wf loaded config) (ti : ℕ) (point : ObservationPoint) :
    readSignalAt wf loaded (wf.findSignal config.aclk) ti point =
      ((wf.sampledValueAt (wf.findSignal config.aclk) ti point).map
        fun s => s.value.text).getD "x" := by
  have hguard : (wf.findSignal config.aclk = 0 ||
      !loaded.contains (wf.nativeRef (wf.findSignal config.aclk))) = false := by
    simp [h.found, h.loaded]
  rw [readSignalAt, hguard]
  cases hs : wf.sampledValueAt (wf.findSignal config.aclk) ti point with
  | none => rfl
  | some sampled =>
      have hvalue := congrArg (Option.map SampledValue.value) hs
      obtain ⟨c, hc, hcv⟩ := exists_of_sampledValue (fun _ _ => rfl) hvalue
      have hkind : sampled.value.kind = .bitVector := hcv ▸ h.bits c hc
      simp [hkind]

lemma isSelectedEdge_eq_selectedEdge (ti : ℕ) :
    isSelectedEdge wf loaded config ref ti = selectedEdge (select config.edge)
      (isRisingEdge (readSignalAt wf loaded ref ti .before) (readSignalAt wf loaded ref ti .raw))
      (isFallingEdge (readSignalAt wf loaded ref ti .before)
        (readSignalAt wf loaded ref ti .raw)) := by
  rw [isSelectedEdge]
  cases config.edge <;> rfl

/-- The AXI loop compares an X where nothing is sampled, which is no edge. -/
lemma isSelectedEdge_eq (h : IsClock wf loaded config) {ti : ℕ}
    (hti : ti ∈ wf.timeIndicesOf (wf.findSignal config.aclk)) :
    isSelectedEdge wf loaded config (wf.findSignal config.aclk) ti =
      countedEdge wf (wf.findSignal config.aclk) (select config.edge) ti := by
  rw [isSelectedEdge_eq_selectedEdge, readSignalAt_eq h, readSignalAt_eq h]
  refine selectedEdge_sampled hti (fun cur => ⟨rfl, rfl⟩) fun prev => ?_
  simp [isRisingEdge, isFallingEdge]

lemma selectEdges_eq (previous : Option ℕ) (l : List ℕ) :
    selectEdges wf loaded config ref first last previous l =
      (dedup id previous l).filter fun ti =>
        inRange wf first last ti && isSelectedEdge wf loaded config ref ti := by
  induction l generalizing previous with
  | nil => rfl
  | cons ti l ih =>
      by_cases hprev : previous = some ti
      · rw [selectEdges, dedup, if_pos hprev, if_pos (show previous = some (id ti) from hprev)]
        exact ih previous
      · rw [selectEdges, dedup, if_neg hprev, if_neg (show previous ≠ some (id ti) from hprev),
          List.filter_cons, ih]
        dsimp only
        cases hrange : (decide (wf.timeAt ti < first) || decide (wf.timeAt ti > last)) with
        | true => simp [inRange, hrange]
        | false =>
            have hin : inRange wf first last ti = true := by rw [inRange, hrange]; rfl
            rw [hin, Bool.true_and]
            rfl

lemma selectedClockEdges_eq (h : IsClock wf loaded config) :
    selectedClockEdges wf loaded config first last =
      selectedIndices wf (wf.findSignal config.aclk) (select config.edge) first last := by
  rw [selectedClockEdges, if_neg h.found, selectEdges_eq]
  refine List.filter_congr fun ti hti => ?_
  rw [isSelectedEdge_eq h (mem_distinctIndices.1 hti)]

/-! ### Agreement -/

lemma pairwise_timeAt_iff {l : List ℕ} (hl : ∀ ti ∈ l, ti < wf.timeTable.length)
    (hsorted : l.Pairwise (· ≤ ·)) : (l.map wf.timeAt).Pairwise (· < ·) ↔ l.Nodup := by
  constructor
  · intro h
    exact (h.imp fun hlt => hlt.ne).of_map _ fun a b hab heq => hab (congrArg _ heq)
  · intro h
    have hlt : l.Pairwise (· < ·) :=
      (hsorted.and h).imp fun hab => lt_of_le_of_ne hab.1 hab.2
    refine List.pairwise_map.2 (hlt.imp_of_mem fun _ hb hab => ?_)
    exact Backend.timeAt_lt_of_lt hab (hl _ hb)

/-- Different indices have different times. -/
lemma nodup_map_timeAt {l : List ℕ} (hl : ∀ ti ∈ l, ti < wf.timeTable.length)
    (hsorted : l.Pairwise (· < ·)) : (l.map wf.timeAt).Nodup :=
  ((pairwise_timeAt_iff hl (hsorted.imp fun h => h.le)).2 (hsorted.imp fun h => h.ne)).imp
    fun h => h.ne

/-- The selected indices, with as many repetitions as the clock has changes. -/
def selectedChanges (wf : Backend) (ref : ℕ) (edge : EdgeSelect) (first last : ℕ) : List ℕ :=
  (wf.timeIndicesOf ref).filter fun ti => inRange wf first last ti && countedEdge wf ref edge ti

lemma count_timeIndicesOf (ti : ℕ) :
    (wf.timeIndicesOf ref).count ti = (wf.changesOf ref).countP fun c => c.timeIdx = ti := by
  rw [Backend.timeIndicesOf, List.count_eq_countP, List.countP_map]
  refine List.countP_congr fun c hc => ?_
  simp

/-- No index is selected twice exactly when every selected edge is one change. -/
lemma nodup_selectedChanges_iff :
    (selectedChanges wf ref edge first last).Nodup ↔
      OneChangePerEdge wf first last ref edge := by
  rw [List.nodup_iff_count_le_one]
  constructor
  · intro h ti hrange hedge
    have := h ti
    rwa [selectedChanges, List.count_filter (by simp [hrange, hedge]), count_timeIndicesOf] at this
  · intro h ti
    by_cases hsel : (inRange wf first last ti && countedEdge wf ref edge ti) = true
    · rw [selectedChanges, List.count_filter (by exact hsel), count_timeIndicesOf]
      obtain ⟨hrange, hedge⟩ := Bool.and_eq_true_iff.1 hsel
      exact h ti hrange hedge
    · rw [List.count_eq_zero.2]
      · exact Nat.zero_le 1
      · intro hmem
        exact hsel (List.mem_filter.1 hmem).2

lemma selectedIndices_pairwise :
    (selectedIndices wf ref edge first last).Pairwise (· < ·) :=
  (pairwise_distinctIndices wf ref).filter _

lemma selectedChanges_pairwise :
    (selectedChanges wf ref edge first last).Pairwise (· ≤ ·) :=
  (Backend.timeIndicesOf_sorted ref).filter _

/-- Without repetitions the loop of `run_event_find` selects what the others do. -/
lemma selectedChanges_eq (h : (selectedChanges wf ref edge first last).Nodup) :
    selectedChanges wf ref edge first last = selectedIndices wf ref edge first last := by
  have hlt : (selectedChanges wf ref edge first last).Pairwise (· < ·) :=
    (selectedChanges_pairwise.and h).imp fun hab => lt_of_le_of_ne hab.1 hab.2
  refine hlt.eq_of_mem_iff selectedIndices_pairwise fun ti => ?_
  rw [selectedChanges, selectedIndices, List.mem_filter, List.mem_filter, mem_distinctIndices]

/-- Lists of indices are the same if their times are. -/
lemma map_timeAt_injective {l l' : List ℕ} (hl : ∀ ti ∈ l, ti < wf.timeTable.length)
    (hl' : ∀ ti ∈ l', ti < wf.timeTable.length) (h : l.map wf.timeAt = l'.map wf.timeAt) :
    l = l' := by
  have hback : ∀ m : List ℕ, (∀ ti ∈ m, ti < wf.timeTable.length) →
      (m.map wf.timeAt).map wf.timeIdxOf = m := by
    intro m hm
    rw [List.map_map]
    exact (List.map_congr_left fun ti hti => Backend.timeIdxOf_timeAt (hm ti hti)).trans
      (List.map_id m)
  rw [← hback l hl, h, hback l' hl']

/-- The five loops select the same edges exactly when a selected edge is never made of several
changes and the scanner remembers the same edges. -/
theorem collectorsAgree_iff (wf : Backend) (loaded : Loaded) (config : AxiSignalMap)
    (first last : ℕ) (h : IsClock wf loaded config) :
    CollectorsAgree wf loaded config first last ↔
      OneChangePerEdge wf first last (wf.findSignal config.aclk) (select config.edge) ∧
        RememberedEdges wf first last (wf.findSignal config.aclk) (select config.edge) := by
  have hevent : eventFindSamples wf (wf.findSignal config.aclk) (select config.edge) first last
      none = selectedChanges wf (wf.findSignal config.aclk) (select config.edge) first last :=
    eventFindLoop_eq 0 fun _ hti => hti
  have hlen : ∀ ti ∈ selectedChanges wf (wf.findSignal config.aclk) (select config.edge) first
      last, ti < wf.timeTable.length := fun ti hti =>
    Backend.timeIndicesOf_lt (List.mem_filter.1 hti).1
  have hdistinct : ∀ ti ∈ distinctIndices wf (wf.findSignal config.aclk),
      ti < wf.timeTable.length := fun ti hti =>
    Backend.timeIndicesOf_lt (mem_distinctIndices.1 hti)
  rw [CollectorsAgree, ← nodup_selectedChanges_iff, ← pairwise_timeAt_iff hlen
    selectedChanges_pairwise, ← edgeIndices_filter_iff, hevent, collectAnalysisEdges_eq,
    selectedClockEdges_eq h, time_clockEdges, List.map_map]
  constructor
  · rintro ⟨times, htimes, rfl, hcollect, -, -, hscanner⟩
    refine ⟨htimes, map_timeAt_injective (fun ti hti => ?_) (fun ti hti => ?_)
      (hscanner.trans hcollect.symm)⟩
    · rw [edgeIndices_eq] at hti
      exact hdistinct ti (List.mem_of_mem_filter (List.mem_of_mem_filter hti))
    · exact hdistinct ti (List.mem_of_mem_filter hti)
  · rintro ⟨htimes, hscanner⟩
    have hnodup := (pairwise_timeAt_iff hlen selectedChanges_pairwise).1 htimes
    refine ⟨_, htimes, rfl, ?_⟩
    rw [selectedChanges_eq hnodup, hscanner]
    exact ⟨rfl, rfl, rfl, rfl⟩

/-! ### Fewer than `2 ^ 16` deltas at each time -/

section FewDeltas

variable (hfew : IsHistory (wf.changesOf ref))
include hfew

lemma countedLast_deltasAt {ti : ℕ} (h : ti ∈ wf.timeIndicesOf ref) :
    countedLast (deltasAt (wf.changesOf ref) ti) =
      lastWhere (fun c => c.timeIdx ≤ ti) (wf.changesOf ref) := by
  obtain ⟨pre, post, hgrp⟩ := isLastGroup_deltasAt hfew.sorted h
  have hlt : (deltasAt (wf.changesOf ref) ti).length < 2 ^ 16 :=
    hgrp.countP_eq ▸ hfew.deltas_lt ti
  rw [countedLast_eq_getLast? hlt, hgrp.lastWhere_le]

/-- The delta that counts as the last one of a change is the value that the clock settles to. -/
lemma countedText_eq_settledText {ti : ℕ} (h : ti ∈ wf.timeIndicesOf ref) :
    countedText wf ref ti = settledText wf ref fun c => c.timeIdx ≤ ti := by
  rw [countedText, countedLast_deltasAt hfew h, settledText]

lemma rememberedText_eq_settledText (ti : ℕ) :
    rememberedText wf ref ti = settledText wf ref fun c => c.timeIdx < ti := by
  have hcounts : ∀ c ∈ wf.changesOf ref,
      (countedLast (deltasAt (wf.changesOf ref) c.timeIdx)).isSome = true := by
    intro c hc
    rw [countedLast_deltasAt hfew (List.mem_map_of_mem hc), Option.isSome_iff_ne_none]
    exact fun hnone => lt_irrefl _ (lastWhere_eq_none_iff.1 hnone c hc)
  have hsame : lastWhere (fun c : Change => decide (c.timeIdx < ti) &&
        (countedLast (deltasAt (wf.changesOf ref) c.timeIdx)).isSome) (wf.changesOf ref) =
      lastWhere (fun c : Change => decide (c.timeIdx < ti)) (wf.changesOf ref) :=
    congrArg List.getLast? (List.filter_congr fun c hc => by rw [hcounts c hc, Bool.and_true])
  rw [rememberedText, settledText, hsame]
  cases hlast : lastWhere (fun c : Change => decide (c.timeIdx < ti)) (wf.changesOf ref) with
  | none => rfl
  | some c =>
      obtain ⟨hc, hlt⟩ := List.mem_filter.1 (List.mem_of_getLast? hlast)
      have hcti : c.timeIdx < ti := of_decide_eq_true hlt
      rw [Option.map_some, Option.map_some, Option.getD_some, Option.getD_some,
        countedText_eq_settledText hfew (List.mem_map_of_mem hc), settledText]
      -- the changes up to the last one before the index are those before the index
      have hupTo : ∀ d ∈ wf.changesOf ref, (d.timeIdx ≤ c.timeIdx ↔ d.timeIdx < ti) :=
        fun d hd => ⟨fun hle => hle.trans_lt hcti, fun hd' =>
          time_le_of_lastWhere hfew.sorted hlast hd (decide_eq_true hd')⟩
      rw [lastWhere, List.filter_congr fun d hd => decide_eq_decide.2 (hupTo d hd), ← lastWhere,
        hlast]
      rfl

/-- Then the scanner remembers the same edges. -/
lemma rememberedEdges_of_isHistory : RememberedEdges wf first last ref edge := by
  intro ti _ _
  rw [rememberedEdge, countedEdge, rememberedText_eq_settledText hfew]

end FewDeltas

lemma glitchTimes_sorted : [0, 5, 10, 15].Pairwise (· < ·) := by decide

lemma glitchTimes_lt : ∀ t ∈ [0, 5, 10, 15], t < 2 ^ 64 := by decide

/-- A clock that rises with a glitch at time 5 and cleanly at time 15. -/
def glitchClock : Backend :=
  Backend.ofTable [0, 5, 10, 15]
    [("clk", [(0, "0"), (1, "1"), (1, "0"), (1, "1"), (2, "0"), (3, "1")])]
    glitchTimes_sorted glitchTimes_lt (by decide)

/-- An AXI configuration at the rising edges of `glitchClock`. -/
def glitchConfig : AxiSignalMap where
  name := "axi0"
  aclk := "clk"
  aresetn := ""
  resetPolarity := .activeLow
  edge := .posedge
  awid := ""
  awaddr := ""
  awlen := ""
  awsize := ""
  awburst := ""
  awvalid := ""
  awready := ""
  wdata := ""
  wstrb := ""
  wlast := ""
  wvalid := ""
  wready := ""
  bid := ""
  bresp := ""
  bvalid := ""
  bready := ""
  arid := ""
  araddr := ""
  arlen := ""
  arsize := ""
  arburst := ""
  arvalid := ""
  arready := ""
  rid := ""
  rdata := ""
  rresp := ""
  rlast := ""
  rvalid := ""
  rready := ""

lemma glitchClock_isClock : IsClock glitchClock [1] glitchConfig :=
  ⟨by decide +kernel, by decide +kernel, by decide +kernel⟩

/-- `run_event_find` samples the edge at time 5 three times. -/
theorem glitchClock_not_collectorsAgree :
    IsClock glitchClock [1] glitchConfig ∧ ¬ CollectorsAgree glitchClock [1] glitchConfig 0 15 := by
  refine ⟨glitchClock_isClock, ?_⟩
  rintro ⟨times, hsorted, hevent, -⟩
  have hsamples : (eventFindSamples glitchClock 1 .posedge 0 15 none).map glitchClock.timeAt =
      [5, 5, 5, 15] := by decide +kernel
  have href : glitchClock.findSignal glitchConfig.aclk = 1 := by decide +kernel
  rw [href, show select glitchConfig.edge = .posedge from rfl, hsamples] at hevent
  rw [← hevent] at hsorted
  exact absurd hsorted (by decide)

/-- From time 10 on the loops agree. -/
theorem glitchClock_collectorsAgree :
    IsClock glitchClock [1] glitchConfig ∧ CollectorsAgree glitchClock [1] glitchConfig 10 15 := by
  refine ⟨glitchClock_isClock, (collectorsAgree_iff _ _ _ _ _ glitchClock_isClock).2
    ⟨?_, rememberedEdges_of_isHistory (isHistory_of_length_lt (Backend.changesOf_sorted _)
      (by decide +kernel))⟩⟩
  intro ti hrange hedge
  by_cases hti : ti = 1
  · subst hti
    exact absurd hrange (by decide +kernel)
  · have hchanges : (glitchClock.changesOf (glitchClock.findSignal glitchConfig.aclk)).map
        Change.timeIdx = [0, 1, 1, 1, 2, 3] := by decide +kernel
    have hcount := @count_timeIndicesOf glitchClock (glitchClock.findSignal glitchConfig.aclk) ti
    rw [Backend.timeIndicesOf, hchanges] at hcount
    rw [← hcount]
    simp only [List.count_cons, List.count_nil, beq_iff_eq]
    split_ifs <;> omega

end XdebugFst.Clock
