import Mathlib
import XdebugFst.Lib.Joined
import XdebugFst.Lib.Tally
import XdebugFst.Event.Find

/-!
# Exporting events

`event.export` searches for all events, with `max_events` as the limit of the search, and counts the
events that it gets by the values of the `group_by` names. Without an output path it returns the
first rows of them, up to `line_limit`; otherwise it writes them to a file.

The search counts all events, however, and what is counted, written and compared here are the events
that `max_events` has left. `consistent_iff` says when this makes no difference, and when the key of
a group, which joins the texts of the values, tells different values apart.
-/

namespace XdebugFst.Event

open Lib Lib.Json Waveform

/-! ### Requests and answers -/

/-- The `aggregate` argument. -/
structure AggregateArgs where
  events : Bool := true
  groupBy : Option (List String) := none

/-- The arguments of `event.export` beside those of the search. -/
structure ExportArgs where
  maxEvents : Option ℕ := none
  lineLimit : Option ℕ := none
  aggregate : Option AggregateArgs := none
  outputPath : Option String := none

/-- The groups of the events, and how many there are. -/
structure Aggregate where
  count : ℕ
  groups : OrderedMap String ℕ
  groupCount : ℕ

/-- The summary of an export. -/
structure ExportSummary where
  sampleCount : ℕ
  analysisComplete : Bool
  bounds : Option (String × String)
  totalCount : ℕ
  rowCount : ℕ
  lineLimit : ℤ
  status : String
  outputWritten : Bool
  output : Option String := none
  returnedCount : ℕ
  responseTruncated : Bool
  truncationScopes : List String

/-- The file that is written. -/
structure Artifact where
  events : List EventRow
  sampling : Json
  summary : ExportSummary
  aggregate : Option Aggregate

/-- The response, with the file if one was written. -/
structure ExportResult where
  summary : ExportSummary
  sampling : Json
  events : Option (List EventRow)
  aggregate : Option Aggregate
  artifact : Option Artifact

namespace ExportArgs

variable (args : ExportArgs)

/-- The limit of the search: a word of 32 bits. -/
def eventLimit : ℕ := (args.maxEvents.map (· % 2 ^ 32)).getD (2 ^ 32 - 1)

/-- How many rows of a response are kept: a word of 32 bits. -/
def rowLimit : ℕ := (args.lineLimit.map (· % 2 ^ 32)).getD 1000

def groupBy : Option (List String) := args.aggregate.bind AggregateArgs.groupBy

/-- The request asks for the events. -/
def includeEvents : Bool := (args.aggregate.map AggregateArgs.events).getD true

/-- The search of an export. -/
def query (find : FindArgs) : FindArgs :=
  { find with
    mode := "all"
    lineLimit := args.eventLimit }

end ExportArgs

/-! ### Groups -/

/-- What an event reports for a name: the value of a signal or else of a field. -/
def EventRow.reported (event : EventRow) (name : String) : Option Json :=
  match event.signals.lookup name with
  | some value => some value
  | none => event.fields.lookup name

/-- The text of a reported value in the key of a group. -/
def valueText : Option Json → String
  | some value => ((value.field? "value").bind string?).getD ""
  | none => "<missing>"

/-- One more name in the key of an event. -/
def appendName (event : EventRow) (key name : String) : String :=
  (if key ≠ "" then key ++ "|" else key) ++ (name ++ "=" ++ valueText (event.reported name))

/-- The key of the group of an event. -/
def groupKey (names : List String) (event : EventRow) : String :=
  names.foldl (appendName event) ""

/-- The number of events of each group: a word of 32 bits. -/
def countGroups (names : List String) (events : List EventRow) : OrderedMap String ℕ :=
  events.foldl (fun groups event =>
    let key := groupKey names event
    groups.insert key (((groups.find? key).getD 0 + 1) % 2 ^ 32)) OrderedMap.empty

/-! ### The export -/

section Export

variable (args : ExportArgs) (found : FindResult)

def exportAggregate : Aggregate :=
  match args.groupBy with
  | none => ⟨found.totalCount, OrderedMap.empty, 0⟩
  | some names =>
      let groups := countGroups names found.events
      ⟨found.totalCount, groups, groups.entries.length⟩

/-- The summary of the search, with the fields of an export. -/
def exportSummary (written : Bool) : ExportSummary where
  sampleCount := found.sampleCount
  analysisComplete := found.analysisComplete
  bounds := found.bounds
  totalCount := found.totalCount
  rowCount := found.totalCount
  lineLimit := (args.lineLimit.map fun n => (n : ℤ).bmod (2 ^ 32)).getD 1000
  status := if written then "written" else "preview"
  outputWritten := written
  returnedCount := found.returnedCount
  responseTruncated := found.responseTruncated
  truncationScopes := found.truncationScopes

/-- The response without an output path. -/
def exportPreview : ExportResult :=
  let shown := found.events.take args.rowLimit
  let truncated := shown.length < found.events.length
  let summary :=
    if args.includeEvents then
      { exportSummary args found false with
        returnedCount := shown.length
        responseTruncated := truncated
        truncationScopes := if truncated then ["response_events"] else [] }
    else
      { exportSummary args found false with
        returnedCount := 0
        responseTruncated := false
        truncationScopes := [] }
  { summary := summary
    sampling := found.sampling
    events := if args.includeEvents then some shown else none
    aggregate := args.aggregate.map fun _ => exportAggregate args found
    artifact := none }

/-- The file. Its summary is that of the search. -/
def exportArtifact : Artifact where
  events := found.events
  sampling := found.sampling
  summary := exportSummary args found true
  aggregate := args.aggregate.map fun _ => exportAggregate args found

/-- The response when the file has been written. -/
def exportWritten (path : String) : ExportResult where
  summary := { exportSummary args found true with
    output := some path
    returnedCount := found.totalCount
    responseTruncated := false
    truncationScopes := [] }
  sampling := found.sampling
  events := none
  aggregate := none
  artifact := some (exportArtifact args found)

end Export

/-- `event.export`. Writing a file fails with a message or succeeds. -/
def runEventExport (realText : String → String) (formatTime : ℕ → String)
    (write : String → Artifact → Option String) (wf : Backend) (find : FindArgs)
    (args : ExportArgs) : Except EventError ExportResult :=
  match runEventFind realText formatTime wf (args.query find) with
  | .error error => .error error
  | .ok found =>
      match args.outputPath with
      | none => .ok (exportPreview args found)
      | some path =>
          match write path (exportArtifact args found) with
          | some message => .error ⟨"EXPORT_FAILED", none, message⟩
          | none => .ok (exportWritten args found path)

/-! ### Keys -/

/-- What stands in front of a value in a key. -/
def cellLabel (name : String) : List Char := '|' :: (name.toList ++ ['='])

/-- The text that a key has for a name. -/
def EventRow.cellText (event : EventRow) (name : String) : List Char :=
  (valueText (event.reported name)).toList

lemma toList_appendName {key : String} (hkey : key ≠ "") (event : EventRow) (name : String) :
    (appendName event key name).toList =
      key.toList ++ (cellLabel name ++ event.cellText name) := by
  rw [appendName, if_pos hkey]
  simp [cellLabel, EventRow.cellText]

lemma foldl_appendName {key : String} (hkey : key ≠ "") (event : EventRow) (names : List String) :
    (names.foldl (appendName event) key).toList =
      key.toList ++ joined cellLabel event.cellText names := by
  induction names generalizing key with
  | nil => exact (List.append_nil _).symm
  | cons name rest ih =>
      have hlist := toList_appendName hkey event name
      have hne : appendName event key name ≠ "" := by
        intro h
        rw [h] at hlist
        simp [cellLabel] at hlist
      rw [List.foldl_cons, ih hne, hlist, joined, List.append_assoc, List.append_assoc]

/-- A key is the joined texts without the separator in front. -/
lemma joined_cells (event : EventRow) {names : List String} (hnames : names ≠ []) :
    joined cellLabel event.cellText names = '|' :: (groupKey names event).toList := by
  obtain ⟨name, rest, rfl⟩ := List.exists_cons_of_ne_nil hnames
  have hfirst : (appendName event "" name).toList = name.toList ++ ('=' :: event.cellText name) := by
    rw [appendName, if_neg (by simp)]
    simp [EventRow.cellText]
  have hne : appendName event "" name ≠ "" := by
    intro h
    rw [h] at hfirst
    simp at hfirst
  rw [groupKey, List.foldl_cons, foldl_appendName hne, hfirst, joined, cellLabel]
  simp

/-- The texts of two events are joined into one key. -/
lemma groupKey_eq_iff (names : List String) (e e' : EventRow) :
    groupKey names e = groupKey names e' ↔
      (∀ name ∈ names, e.cellText name = e'.cellText name) ∨
        Shifted cellLabel e.cellText e'.cellText names := by
  rw [← joined_eq_iff]
  by_cases hnames : names = []
  · subst hnames
    exact ⟨fun _ => rfl, fun _ => rfl⟩
  · rw [joined_cells e hnames, joined_cells e' hnames, List.cons_inj_right, String.toList_inj]

/-- Two events collide: the texts of their values are the same although a value differs, or the
texts differ and are joined into one key. -/
def Collide (names : List String) (e e' : EventRow) : Prop :=
  ((∀ name ∈ names, e.cellText name = e'.cellText name) ∧
      ∃ name ∈ names, e.reported name ≠ e'.reported name) ∨
    Shifted cellLabel e.cellText e'.cellText names

/-- Keys tell events apart by their values unless these collide. -/
lemma groupKey_separates_iff (names : List String) (e e' : EventRow) :
    (groupKey names e = groupKey names e' ↔ ∀ name ∈ names, e.reported name = e'.reported name) ↔
      ¬ Collide names e e' := by
  have htexts (h : ∀ name ∈ names, e.reported name = e'.reported name) :
      ∀ name ∈ names, e.cellText name = e'.cellText name := fun name hname => by
    rw [EventRow.cellText, h name hname, EventRow.cellText]
  rw [groupKey_eq_iff]
  constructor
  · rintro h (⟨hsame, name, hname, hne⟩ | hshifted)
    · exact hne (h.1 (Or.inl hsame) name hname)
    · obtain ⟨name, hname, hne⟩ := hshifted.ne
      exact hne (htexts (h.1 (Or.inr hshifted)) name hname)
  · intro hcollide
    constructor
    · rintro (hsame | hshifted)
      · intro name hname
        by_contra hne
        exact hcollide (Or.inl ⟨hsame, name, hname, hne⟩)
      · exact absurd (Or.inr hshifted) hcollide
    · exact fun h => Or.inl (htexts h)

lemma not_collide_self (names : List String) (e : EventRow) : ¬ Collide names e e := by
  rintro (⟨-, name, -, hne⟩ | hshifted)
  · exact hne rfl
  · obtain ⟨name, -, hne⟩ := hshifted.ne
    exact hne rfl

/-- Texts without the separator do not collide if they differ. -/
lemma not_collide_of_notMem {names : List String} {e e' : EventRow}
    (hsep : ∀ name ∈ names, '|' ∉ e.cellText name ∧ '|' ∉ e'.cellText name)
    (hne : ∃ name ∈ names, e.cellText name ≠ e'.cellText name) : ¬ Collide names e e' := by
  rintro (⟨hsame, -⟩ | hshifted)
  · obtain ⟨name, hname, hdiffer⟩ := hne
    exact hdiffer (hsame name hname)
  · have hlabel : ∀ name, (cellLabel name).head? = some '|' := fun _ => rfl
    obtain ⟨name, hname, hmem⟩ := hshifted.mem hlabel
    exact hmem.elim (hsep name hname).1 (hsep name hname).2

/-! ### Consistency -/

namespace ExportResult

variable (result : ExportResult)

/-- The events that were returned or written. -/
def delivered : List EventRow :=
  match result.artifact with
  | some artifact => artifact.events
  | none => result.events.getD []

/-- The aggregate of the response or of the file. -/
def aggregated : Option Aggregate :=
  match result.artifact with
  | some artifact => artifact.aggregate
  | none => result.aggregate

end ExportResult

/-- What an export says of the events of its search. An event falls in the group of its key. -/
structure Consistent (all : List EventRow) (args : ExportArgs) (result : ExportResult) : Prop where
  total : result.summary.totalCount = all.length
  ungrouped : ∀ aggregate, result.aggregated = some aggregate → args.groupBy = none →
    aggregate.groups = OrderedMap.empty
  groupSum : ∀ aggregate names, result.aggregated = some aggregate → args.groupBy = some names →
    aggregate.groups.values.sum = aggregate.count
  groupSize : ∀ aggregate names, result.aggregated = some aggregate → args.groupBy = some names →
    ∀ key, (aggregate.groups.find? key).getD 0 = (all.map (groupKey names)).count key
  sameGroup : ∀ names, args.groupBy = some names → ∀ e ∈ all, ∀ e' ∈ all,
    (groupKey names e = groupKey names e' ↔ ∀ name ∈ names, e.reported name = e'.reported name)
  returned : result.summary.returnedCount = result.delivered.length
  truncated : result.summary.responseTruncated = true ↔
    args.includeEvents = true ∧ result.delivered.length < result.summary.totalCount

/-- The limit of the search is not exhausted where it matters, and no two events of a grouped export
collide. -/
structure ExportFits (all : List EventRow) (args : ExportArgs) : Prop where
  written : ∀ path, args.outputPath = some path → all.length ≤ args.eventLimit
  grouped : ∀ names, args.groupBy = some names → all.length ≤ args.eventLimit
  shown : args.outputPath = none → args.includeEvents = true →
    all.length ≤ args.eventLimit ∨ args.rowLimit < args.eventLimit
  separated : ∀ names, args.groupBy = some names → ∀ e ∈ all, ∀ e' ∈ all, ¬ Collide names e e'

lemma ExportArgs.eventLimit_lt (args : ExportArgs) : args.eventLimit < 2 ^ 32 := by
  rw [ExportArgs.eventLimit]
  cases args.maxEvents with
  | none => decide
  | some n => exact Nat.mod_lt _ (by decide)

/-- The counters of the groups are not exhausted. -/
lemma countGroups_eq {names : List String} {events : List EventRow} (h : events.length < 2 ^ 32) :
    countGroups names events = tally (events.map (groupKey names)) := by
  rw [← foldl_wrapping_eq_tally (by rwa [List.length_map]), List.foldl_map]
  rfl

section Found

variable {args : ExportArgs} {found : FindResult} {all : List EventRow}
  (htotal : found.totalCount = all.length) (hevents : found.events = all.take args.eventLimit)
include htotal hevents

omit htotal in
lemma length_found : found.events.length = min args.eventLimit all.length := by
  rw [hevents, List.length_take]

/-- The aggregate of a grouped export. -/
lemma exportAggregate_eq {names : List String} (hnames : args.groupBy = some names) :
    (exportAggregate args found).count = all.length ∧ (exportAggregate args found).groups =
      tally ((all.take args.eventLimit).map (groupKey names)) := by
  have hlength := length_found hevents
  have hlimit := args.eventLimit_lt
  rw [exportAggregate, hnames, ← hevents, ← countGroups_eq (by omega)]
  exact ⟨htotal, rfl⟩

/-- The groups of an export count its events, and tell their values apart, exactly if the search
has kept all of them and none collide. -/
lemma groups_iff {result : ExportResult}
    (haggregated : result.aggregated = args.aggregate.map fun _ => exportAggregate args found) :
    ((∀ aggregate names, result.aggregated = some aggregate → args.groupBy = some names →
        aggregate.groups.values.sum = aggregate.count) ∧
      (∀ aggregate names, result.aggregated = some aggregate → args.groupBy = some names →
        ∀ key, (aggregate.groups.find? key).getD 0 = (all.map (groupKey names)).count key)) ↔
      ∀ names, args.groupBy = some names → all.length ≤ args.eventLimit := by
  constructor
  · rintro ⟨hsum, -⟩ names hnames
    obtain ⟨aggregate, haggregate, -⟩ := Option.bind_eq_some_iff.1 hnames
    obtain ⟨hcount, hgroups⟩ := exportAggregate_eq htotal hevents hnames
    rw [haggregate, Option.map_some] at haggregated
    have hsame := hsum _ _ haggregated hnames
    rw [hcount, hgroups, sum_values_tally, List.length_map, List.length_take] at hsame
    omega
  · intro h
    have haggregate {aggregate : Aggregate} (hresult : result.aggregated = some aggregate) :
        aggregate = exportAggregate args found := by
      rw [haggregated, Option.map_eq_some_iff] at hresult
      obtain ⟨-, -, rfl⟩ := hresult
      rfl
    constructor
    · intro aggregate names hresult hnames
      obtain ⟨hcount, hgroups⟩ := exportAggregate_eq htotal hevents hnames
      have hfits := h names hnames
      rw [haggregate hresult, hcount, hgroups, sum_values_tally, List.length_map,
        List.length_take, min_eq_right hfits]
    · intro aggregate names hresult hnames key
      obtain ⟨-, hgroups⟩ := exportAggregate_eq htotal hevents hnames
      rw [haggregate hresult, hgroups, getD_find?_tally, List.take_of_length_le (h names hnames)]

/-- The response counts its events exactly if the search has kept all of them or more than it
shows. -/
lemma counts_exportPreview_iff :
    ((exportPreview args found).summary.returnedCount = (exportPreview args found).delivered.length ∧
      ((exportPreview args found).summary.responseTruncated = true ↔ args.includeEvents = true ∧
        (exportPreview args found).delivered.length <
          (exportPreview args found).summary.totalCount)) ↔
      (args.includeEvents = true →
        all.length ≤ args.eventLimit ∨ args.rowLimit < args.eventLimit) := by
  have hlength := length_found hevents
  rw [exportPreview, ExportResult.delivered]
  cases hinclude : args.includeEvents with
  | false => simp
  | true =>
      simp only [if_true, Option.getD_some, decide_eq_true_eq, List.length_take, hlength, true_and,
        exportSummary, htotal, forall_const]
      omega

/-- The response and the file count the same events exactly if the search has kept all of them. -/
lemma counts_exportWritten_iff (path : String) :
    ((exportWritten args found path).summary.returnedCount =
        (exportWritten args found path).delivered.length ∧
      ((exportWritten args found path).summary.responseTruncated = true ↔
        args.includeEvents = true ∧ (exportWritten args found path).delivered.length <
          (exportWritten args found path).summary.totalCount)) ↔
      all.length ≤ args.eventLimit := by
  have hlength := length_found hevents
  simp only [exportWritten, ExportResult.delivered, exportArtifact, exportSummary, htotal, hlength,
    Bool.false_eq_true, false_iff, not_and, not_lt]
  constructor
  · rintro ⟨h, -⟩
    omega
  · intro h
    exact ⟨by omega, fun _ => by omega⟩

/-- What a response says of the groups and what it says of the returned events. -/
lemma consistent_iff_of_counts {result : ExportResult}
    (hresult : result.summary.totalCount = found.totalCount)
    (haggregated : result.aggregated = args.aggregate.map fun _ => exportAggregate args found) :
    Consistent all args result ↔
      ((∀ names, args.groupBy = some names → all.length ≤ args.eventLimit) ∧
        ∀ names, args.groupBy = some names → ∀ e ∈ all, ∀ e' ∈ all, ¬ Collide names e e') ∧
      (result.summary.returnedCount = result.delivered.length ∧
        (result.summary.responseTruncated = true ↔
          args.includeEvents = true ∧ result.delivered.length < result.summary.totalCount)) := by
  have hgroups := groups_iff htotal hevents haggregated
  have hkeys : (∀ names, args.groupBy = some names → ∀ e ∈ all, ∀ e' ∈ all,
      (groupKey names e = groupKey names e' ↔ ∀ name ∈ names, e.reported name = e'.reported name)) ↔
      ∀ names, args.groupBy = some names → ∀ e ∈ all, ∀ e' ∈ all, ¬ Collide names e e' := by
    simp only [groupKey_separates_iff]
  constructor
  · intro h
    exact ⟨⟨hgroups.1 ⟨h.groupSum, h.groupSize⟩, hkeys.1 h.sameGroup⟩, h.returned, h.truncated⟩
  · rintro ⟨⟨hkept, hseparated⟩, hreturned, htruncated⟩
    obtain ⟨hsum, hsize⟩ := hgroups.2 hkept
    refine ⟨hresult.trans htotal, fun aggregate haggregate hnames => ?_, hsum, hsize,
      hkeys.2 hseparated, hreturned, htruncated⟩
    rw [haggregated, Option.map_eq_some_iff] at haggregate
    obtain ⟨-, -, rfl⟩ := haggregate
    rw [exportAggregate, hnames]

end Found

/-- The counts of an export are consistent exactly if the limit of the search is not exhausted where
it matters and no two events of a grouped export collide. -/
theorem consistent_iff {realText : String → String} {formatTime : ℕ → String}
    {write : String → Artifact → Option String} {wf : Backend} {find : FindArgs}
    {args : ExportArgs} {result : ExportResult}
    (h : runEventExport realText formatTime write wf find args = .ok result) :
    Consistent (allEvents realText formatTime wf find) args result ↔
      ExportFits (allEvents realText formatTime wf find) args := by
  rw [runEventExport] at h
  cases hfound : runEventFind realText formatTime wf (args.query find) with
  | error error =>
      rw [hfound] at h
      cases h
  | ok found =>
      obtain ⟨htotal, hevents⟩ := runEventFind_all rfl hfound
      -- the mode and the limit do not matter for what is found
      have hall : allEvents realText formatTime wf (args.query find) =
          allEvents realText formatTime wf find := rfl
      rw [hall] at htotal hevents
      rw [hfound] at h
      cases hpath : args.outputPath with
      | none =>
          simp only [hpath] at h
          obtain rfl := Except.ok.inj h
          have hsummary : (exportPreview args found).summary.totalCount = found.totalCount := by
            rw [exportPreview]
            cases args.includeEvents <;> rfl
          rw [consistent_iff_of_counts htotal hevents hsummary rfl,
            counts_exportPreview_iff htotal hevents]
          constructor
          · rintro ⟨⟨hgrouped, hseparated⟩, hshown⟩
            exact ⟨fun path hsome => absurd (hpath.symm.trans hsome) (by simp), hgrouped,
              fun _ => hshown, hseparated⟩
          · exact fun h => ⟨⟨h.grouped, h.separated⟩, h.shown hpath⟩
      | some path =>
          simp only [hpath] at h
          cases hwrite : write path (exportArtifact args found) with
          | some message =>
              rw [hwrite] at h
              cases h
          | none =>
              rw [hwrite] at h
              obtain rfl := Except.ok.inj h
              rw [consistent_iff_of_counts htotal hevents rfl rfl,
                counts_exportWritten_iff htotal hevents path]
              constructor
              · rintro ⟨⟨hgrouped, hseparated⟩, hwritten⟩
                exact ⟨fun _ _ => hwritten, hgrouped,
                  fun hnone => absurd (hpath.symm.trans hnone) (by simp), hseparated⟩
              · exact fun h => ⟨⟨h.grouped, h.separated⟩, h.written path hpath⟩

lemma twoEdges_sorted : [0, 5, 10, 15].Pairwise (· < ·) := by decide

lemma twoEdges_lt : ∀ t ∈ [0, 5, 10, 15], t < 2 ^ 64 := by decide

/-- A clock that rises twice, and a signal that rises in between. -/
def twoEdges : Backend :=
  Backend.ofTable [0, 5, 10, 15]
    [("clk", [(0, "0"), (1, "1"), (2, "0"), (3, "1")]), ("v", [(0, "0"), (2, "1")])]
    twoEdges_sorted twoEdges_lt (by decide)

lemma noFields (signals : OrderedMap String String) (name : String) (field : EventField)
    (h : (OrderedMap.empty : OrderedMap String EventField).find? name = some field) :
    (signals.find? field.signal).isSome = true := by
  cases h

/-- A search whose events are the rising edges of the clock. -/
def risingFind : FindArgs where
  config :=
    { signals := (OrderedMap.empty.insert "c" "clk").insert "v" "v"
      fields := OrderedMap.empty
      fields_signal := noFields _ }
  clock := "clk"
  edge := "posedge"
  samplePoint := "after"
  expr := "c"
  first := 0
  last := 15

/-- The events are counted by their value of `v`. -/
def groupedArgs (maxEvents : Option ℕ) : ExportArgs where
  maxEvents := maxEvents
  aggregate := some { groupBy := some ["v"] }

def exportRising (maxEvents : Option ℕ) : Except EventError ExportResult :=
  runEventExport id toString (fun _ _ => none) twoEdges risingFind (groupedArgs maxEvents)

/-- What a response says, and how many events it has. -/
def shownCounts (result : ExportResult) : ℕ × ℕ × Bool :=
  (result.summary.totalCount, result.delivered.length, result.summary.responseTruncated)

lemma exists_exportRising {maxEvents : Option ℕ} {counts : ℕ × ℕ × Bool}
    (h : (exportRising maxEvents).toOption.map shownCounts = some counts) :
    ∃ result, exportRising maxEvents = .ok result ∧ shownCounts result = counts := by
  cases hrun : exportRising maxEvents with
  | error error =>
      rw [hrun] at h
      cases h
  | ok result =>
      rw [hrun] at h
      exact ⟨result, rfl, Option.some_inj.1 h⟩

lemma allEvents_risingFind : allEvents id toString twoEdges risingFind =
    [1, 3].map (eventRow id toString twoEdges risingFind) := by
  have hexpression : boundExpression risingFind = .ok (.signal "clk") := by rfl
  have hindices : eventIndices twoEdges risingFind (.signal "clk") = [1, 3] := by decide +kernel
  rw [allEvents_of_ok hexpression, hindices]

/-- Two events in two groups. -/
theorem exportRising_consistent : ∃ result, exportRising none = .ok result ∧
    Consistent (allEvents id toString twoEdges risingFind) (groupedArgs none) result := by
  obtain ⟨result, hresult, -⟩ :=
    @exists_exportRising none (2, 2, false) (by decide +kernel)
  refine ⟨result, hresult, (consistent_iff hresult).2 ?_⟩
  have htexts : ((eventRow id toString twoEdges risingFind 1).cellText "v",
      (eventRow id toString twoEdges risingFind 3).cellText "v") =
        (['1', '\'', 'h', '0'], ['1', '\'', 'h', '1']) := by decide +kernel
  obtain ⟨hlow, hhigh⟩ := Prod.mk.inj htexts
  rw [allEvents_risingFind]
  refine ⟨?_, fun _ _ => by decide, fun _ _ => Or.inl (by decide), ?_⟩
  · intro path hpath
    cases hpath
  · intro names hnames e he e' he'
    obtain rfl : names = ["v"] := (Option.some_inj.1 hnames).symm
    simp only [List.map_cons, List.map_nil, List.mem_cons, List.not_mem_nil, or_false] at he he'
    rcases he with rfl | rfl <;> rcases he' with rfl | rfl
    · exact not_collide_self _ _
    · exact not_collide_of_notMem (by simp [hlow, hhigh]) ⟨"v", by simp [hlow, hhigh]⟩
    · exact not_collide_of_notMem (by simp [hlow, hhigh]) ⟨"v", by simp [hlow, hhigh]⟩
    · exact not_collide_self _ _

/-- With a limit of one event, the response does not say that it leaves out the other. -/
theorem exportRising_not_consistent :
    ¬ ∀ (realText : String → String) (formatTime : ℕ → String)
      (write : String → Artifact → Option String) (wf : Backend) (find : FindArgs)
      (args : ExportArgs) (result : ExportResult),
      runEventExport realText formatTime write wf find args = .ok result →
        Consistent (allEvents realText formatTime wf find) args result := by
  intro h
  obtain ⟨result, hresult, hcounts⟩ :=
    @exists_exportRising (some 1) (2, 1, false) (by decide +kernel)
  obtain ⟨htotal, hrest⟩ := Prod.mk.inj hcounts
  obtain ⟨hdelivered, htruncated⟩ := Prod.mk.inj hrest
  have hconsistent := (h _ _ _ _ _ _ result hresult).truncated
  rw [htruncated, htotal, hdelivered] at hconsistent
  exact absurd (hconsistent.2 ⟨by decide, by decide⟩) (by decide)

end XdebugFst.Event
