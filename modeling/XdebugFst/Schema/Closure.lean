import XdebugFst.Lib.Closure
import XdebugFst.Lib.JsonTree
import XdebugFst.Lib.OrderedMap
import Mathlib.Data.Finset.Max
import Mathlib.Data.Finset.Union

/-!
# The definitions of a projected schema

A response schema is projected to the branch that a response selects, and the projection takes along
the definitions that it needs. `attachDefinitionClosure` collects the local references of the
projection and of each definition that it selects, and always goes on with the least pending name.

`attachDefinitionClosure_spec` says that it ends, that it fails exactly at a needed name without a
definition, and that otherwise the result has the needed definitions and no others.
-/

namespace XdebugFst.Schema

open Lib

/-- `local_definition_name` -/
def localDefinitionName (reference : String) : String :=
  if "#/$defs/".toList <+: reference.toList then String.ofList (reference.toList.drop 8) else ""

/-- The name that the `$ref` of an object refers to. -/
def ownDefinitionRef (fields : List (String × Json)) : Finset String :=
  match (fields.lookup "$ref").bind Json.string? with
  | some reference =>
      if localDefinitionName reference = "" then ∅ else {localDefinitionName reference}
  | none => ∅

mutual

/-- `collect_local_definition_refs` -/
def collectLocalDefinitionRefs : Json → Finset String
  | .object fields => ownDefinitionRef fields ∪ collectFieldRefs fields
  | .array items => collectItemRefs items
  | _ => ∅

/-- The loop over the items of an array. -/
def collectItemRefs : List Json → Finset String
  | [] => ∅
  | item :: rest => collectLocalDefinitionRefs item ∪ collectItemRefs rest

/-- The loop over the fields of an object. -/
def collectFieldRefs : List (String × Json) → Finset String
  | [] => ∅
  | (_, item) :: rest => collectLocalDefinitionRefs item ∪ collectFieldRefs rest

end

/-- The names of the definitions. -/
def definitionNames (definitions : Json) : Finset String :=
  (definitions.fields.map Prod.fst).toFinset

lemma mem_definitionNames {definitions : Json} {name : String} {definition : Json}
    (h : definitions.field? name = some definition) : name ∈ definitionNames definitions := by
  obtain ⟨pre, post, hfields, -⟩ := List.lookup_eq_some_iff.1 h
  rw [definitionNames, List.mem_toFinset, hfields]
  simp

/-- The definitions that are not selected. -/
def unselected (definitions : Json) (selected : OrderedMap String Json) : Finset String :=
  (definitionNames definitions).filter fun name => (selected.find? name).isNone

lemma card_unselected_insert_lt {definitions : Json} {selected : OrderedMap String Json}
    {name : String} {definition : Json} (hselected : ¬ (selected.find? name).isSome)
    (h : definitions.field? name = some definition) :
    (unselected definitions (selected.insert name definition)).card <
      (unselected definitions selected).card := by
  refine Finset.card_lt_card (Finset.ssubset_iff_of_subset ?_ |>.2 ⟨name, ?_, ?_⟩)
  · intro other hother
    rw [unselected, Finset.mem_filter] at hother ⊢
    refine ⟨hother.1, ?_⟩
    by_cases hname : other = name
    · subst hname
      simp at hother
    · rw [← selected.find?_insert_of_ne hname definition]
      exact hother.2
  · rw [unselected, Finset.mem_filter]
    exact ⟨mem_definitionNames h, by simpa using hselected⟩
  · simp [unselected]

/-- The loop of `attach_definition_closure`. It throws the name of a missing definition. -/
def closeDefinitions (definitions : Json) (pending : Finset String)
    (selected : OrderedMap String Json) : Except String (OrderedMap String Json) :=
  if hpending : pending.Nonempty then
    let name := pending.min' hpending
    if _hselected : (selected.find? name).isSome then
      closeDefinitions definitions (pending.erase name) selected
    else
      match _hfound : definitions.field? name with
      | none => .error name
      | some definition =>
          closeDefinitions definitions
            (pending.erase name ∪ collectLocalDefinitionRefs definition)
            (selected.insert name definition)
  else .ok selected
termination_by ((unselected definitions selected).card, pending.card)
decreasing_by
  · exact Prod.Lex.right _ (Finset.card_erase_lt_of_mem (pending.min'_mem hpending))
  · exact Prod.Lex.left _ _ (card_unselected_insert_lt _hselected _hfound)

/-- Set a field of an object with sorted names. -/
def setSorted (name : String) (value : Json) (fields : List (String × Json)) :
    List (String × Json) :=
  (fields.filter fun field => field.1 ≠ name).orderedInsert (fun a b => a.1 ≤ b.1) (name, value)

/-- `attach_definition_closure`. It throws the name of a missing definition. -/
def attachDefinitionClosure (projected definitions : Json) : Except String Json := do
  let selected ← closeDefinitions definitions (collectLocalDefinitionRefs projected) .empty
  return .object (setSorted "$defs" (.object selected.entries) projected.fields)

/-! ### The needed definitions -/

/-- The projection needs a definition. -/
def NeedsDefinition (projected definitions : Json) (name : String) : Prop :=
  Needs definitions.field? collectLocalDefinitionRefs (collectLocalDefinitionRefs projected) name

/-- What the loop does from a state of the worklist. -/
lemma closeDefinitions_spec {definitions : Json} {start pending : Finset String}
    {selected : OrderedMap String Json}
    (h : Closing definitions.field? collectLocalDefinitionRefs start pending
      {name | (selected.find? name).isSome})
    (hvalues : ∀ name definition, selected.find? name = some definition →
      definitions.field? name = some definition) :
    (∃ name, closeDefinitions definitions pending selected = .error name ∧
      Needs definitions.field? collectLocalDefinitionRefs start name ∧
      definitions.field? name = none) ∨
    ∃ result, closeDefinitions definitions pending selected = .ok result ∧
      Closing definitions.field? collectLocalDefinitionRefs start ∅
        {name | (result.find? name).isSome} ∧
      ∀ name definition, result.find? name = some definition →
        definitions.field? name = some definition := by
  induction pending, selected using closeDefinitions.induct definitions with
  | case1 pending selected hpending name hselected ih =>
      rw [closeDefinitions, dif_pos hpending, dif_pos hselected]
      exact ih (h.skip hselected) hvalues
  | case2 pending selected hpending name hselected hmissing =>
      refine Or.inl ⟨name, ?_, h.needs_pending _ (pending.min'_mem hpending), hmissing⟩
      rw [closeDefinitions, dif_pos hpending, dif_neg hselected]
      split
      · rfl
      · rename_i hfound
        exact absurd (hmissing.symm.trans hfound) (by simp)
  | case3 pending selected hpending name hselected definition hfound ih =>
      have hclosing := h.select (pending.min'_mem hpending) hfound
      have hrun : closeDefinitions definitions pending selected =
          closeDefinitions definitions (pending.erase name ∪ collectLocalDefinitionRefs definition)
            (selected.insert name definition) := by
        rw [closeDefinitions, dif_pos hpending, dif_neg hselected]
        split
        · rename_i hmissing
          exact absurd (hfound.symm.trans hmissing) (by simp)
        · rename_i other hother
          rw [Option.some.inj (hother.symm.trans hfound)]
      have hset : {n | ((selected.insert name definition).find? n).isSome} =
          insert name {n | (selected.find? n).isSome} := by
        ext n
        by_cases hn : n = name
        · simp [hn]
        · simp [hn, selected.find?_insert_of_ne hn]
      rw [hrun]
      refine ih (hset ▸ hclosing) fun other value hvalue => ?_
      rcases (selected.find?_insert_eq_some_iff).1 hvalue with ⟨rfl, rfl⟩ | ⟨-, hvalue⟩
      · exact hfound
      · exact hvalues other value hvalue
  | case4 pending selected hpending =>
      obtain rfl := Finset.not_nonempty_iff_eq_empty.1 hpending
      rw [closeDefinitions, dif_neg hpending]
      exact Or.inr ⟨selected, rfl, h, hvalues⟩

/-! ### The fields of the result -/

lemma lookup_orderedInsert_self {name : String} {value : Json} {fields : List (String × Json)}
    (h : ∀ field ∈ fields, field.1 ≠ name) : (fields.orderedInsert (fun a b => a.1 ≤ b.1)
      (name, value)).lookup name = some value := by
  induction fields with
  | nil => simp
  | cons field rest ih =>
      obtain ⟨key, item⟩ := field
      have hne : name ≠ key := Ne.symm (h _ List.mem_cons_self)
      rw [List.orderedInsert_cons]
      split_ifs
      · simp
      · rw [List.lookup_cons, beq_false_of_ne hne]
        exact ih fun field hfield => h field (List.mem_cons_of_mem _ hfield)

lemma lookup_orderedInsert_of_ne {name other : String} (h : other ≠ name) (value : Json)
    (fields : List (String × Json)) : (fields.orderedInsert (fun a b => a.1 ≤ b.1)
      (name, value)).lookup other = fields.lookup other := by
  induction fields with
  | nil => simp [List.lookup_cons, beq_false_of_ne h]
  | cons field rest ih =>
      obtain ⟨key, item⟩ := field
      rw [List.orderedInsert_cons]
      split_ifs
      · rw [List.lookup_cons, beq_false_of_ne h]
      · rw [List.lookup_cons, List.lookup_cons, ih]

lemma lookup_setSorted_self (name : String) (value : Json) (fields : List (String × Json)) :
    (setSorted name value fields).lookup name = some value :=
  lookup_orderedInsert_self fun field hfield => by simpa using (List.mem_filter.1 hfield).2

lemma lookup_setSorted_of_ne {name other : String} (h : other ≠ name) (value : Json)
    (fields : List (String × Json)) :
    (setSorted name value fields).lookup other = fields.lookup other := by
  have herase : ((Json.object fields).erase name).field? other = fields.lookup other :=
    Json.field?_erase h
  exact (lookup_orderedInsert_of_ne h value _).trans herase

lemma lookup_entries (m : OrderedMap String Json) (name : String) :
    m.entries.lookup name = m.find? name := by
  rw [OrderedMap.find?]
  induction m.entries with
  | nil => rfl
  | cons entry rest ih =>
      obtain ⟨key, item⟩ := entry
      by_cases hname : name = key
      · simp [hname]
      · rw [List.lookup_cons, beq_false_of_ne hname, List.find?_cons_of_neg (by simp [Ne.symm hname])]
        exact ih

/-- The projection gets the definitions that it needs and no others, unless one is missing. -/
theorem attachDefinitionClosure_spec (projected definitions : Json) :
    (∃ name, attachDefinitionClosure projected definitions = .error name ∧
      NeedsDefinition projected definitions name ∧ definitions.field? name = none) ∨
    ∃ schema selected, attachDefinitionClosure projected definitions = .ok schema ∧
      (∀ field, field ≠ "$defs" → schema.field? field = projected.field? field) ∧
      schema.field? "$defs" = some selected ∧
      (∀ name, NeedsDefinition projected definitions name →
        ∃ definition, definitions.field? name = some definition ∧
          selected.field? name = some definition) ∧
      ∀ name, ¬ NeedsDefinition projected definitions name → selected.field? name = none := by
  have hinit : Closing definitions.field? collectLocalDefinitionRefs
      (collectLocalDefinitionRefs projected) (collectLocalDefinitionRefs projected)
      {name | ((OrderedMap.empty : OrderedMap String Json).find? name).isSome} := by
    have hempty : {name | ((OrderedMap.empty : OrderedMap String Json).find? name).isSome} = ∅ := by
      simp
    rw [hempty]
    exact Closing.init
  rcases closeDefinitions_spec hinit (by simp) with ⟨name, hrun, hneeds, hmissing⟩ |
    ⟨result, hrun, hclosed, hvalues⟩
  · exact Or.inl ⟨name, by rw [attachDefinitionClosure, hrun]; rfl, hneeds, hmissing⟩
  · refine Or.inr ⟨.object (setSorted "$defs" (.object result.entries) projected.fields),
      .object result.entries, by rw [attachDefinitionClosure, hrun]; rfl, fun field hfield => ?_,
      ?_, fun name hname => ?_, fun name hname => ?_⟩
    · exact lookup_setSorted_of_ne hfield _ _
    · exact lookup_setSorted_self _ _ _
    · obtain ⟨definition, hdefinition⟩ := Option.isSome_iff_exists.1 (hclosed.mem_iff.2 hname)
      exact ⟨definition, hvalues _ _ hdefinition, (lookup_entries _ _).trans hdefinition⟩
    · rw [Json.field?_object, lookup_entries, ← Option.not_isSome_iff_eq_none]
      exact fun hsome => hname (hclosed.mem_iff.1 hsome)

end XdebugFst.Schema
