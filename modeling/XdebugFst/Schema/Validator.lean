import XdebugFst.Lib.JsonSchema
import XdebugFst.Schema.Closure

/-!
# The validator of runtime schemas

The keywords of `json-validator.cpp`. A schema object is compiled to one validator for each type of
values and to the combinations that hold for all types; here each keyword stands for itself. The
checks of strings and numbers, the equality of values and the regular expressions are parameters.
-/

namespace XdebugFst.Schema

open Lib JsonSchema

/-- The items of an array, and no items for any other value. -/
def items : Json → List Json
  | .array items => items
  | _ => []

@[simp]
lemma items_array (elements : List Json) : items (.array elements) = elements := rfl

/-- What the validator needs of strings and numbers and of the equality of values. -/
structure Checks where
  /-- The keywords that ask no other schema: `type`, `minLength`, `minimum` and so on. -/
  check : String → Json → Json → Bool
  /-- `operator==` of two values. -/
  equal : Json → Json → Bool
  /-- `regex_search` -/
  search : String → String → Bool

variable (C : Checks)

/-- The value has the properties that are named in a list. -/
def hasRequired (required value : Json) : Bool :=
  !value.isObject || (items required).all fun name =>
    match name with
    | .string name => value.contains name
    | _ => true

/-- What a keyword says by itself. -/
def assertion (keyword : String) (argument value : Json) : Bool :=
  match keyword with
  | "enum" => (items argument).any fun candidate => C.equal value candidate
  | "const" => C.equal argument value
  | "required" => hasRequired argument value
  | "dependencies" => argument.fields.all fun dependency =>
      !value.contains dependency.1 || hasRequired dependency.2 value
  -- a combination of no schemas never succeeds
  | "allOf" => !(items argument).isEmpty
  | "anyOf" | "oneOf" | "not" | "if" | "then" | "else" | "properties" | "patternProperties"
  | "additionalProperties" | "propertyNames" | "items" | "additionalItems" | "contains" => true
  -- what is not about values
  | "$defs" | "definitions" | "$schema" | "$id" | "title" | "description" | "default" => true
  | _ => C.check keyword argument value

/-- How a keyword puts verdicts together. -/
def mode (keyword : String) : Mode :=
  match keyword with
  | "anyOf" | "contains" => .some
  | "oneOf" => .one
  | "not" => .none
  | "then" => .when true
  | "else" => .when false
  | _ => .all

/-- A property is declared by its name or by a pattern. -/
def declared (beside : String → Option Json) (name : String) : Bool :=
  ((beside "properties").bind (·.field? name)).isSome ||
    (((beside "patternProperties").map Json.fields).getD []).any fun pattern =>
      C.search pattern.1 name

/-- The schemas that a keyword asks, with what it asks them about. -/
def parts (beside : String → Option Json) (keyword : String) (argument value : Json) :
    List (Json × Json) :=
  match keyword with
  | "allOf" | "anyOf" | "oneOf" => (items argument).map (·, value)
  | "not" => [(argument, value)]
  | "then" | "else" =>
      match beside "if" with
      | some condition => [(condition, value), (argument, value)]
      | none => []
  | "properties" => value.fields.filterMap fun property =>
      (argument.field? property.1).map (·, property.2)
  | "patternProperties" => value.fields.flatMap fun property =>
      (argument.fields.filter fun pattern => C.search pattern.1 property.1).map fun pattern =>
        (pattern.2, property.2)
  | "additionalProperties" =>
      (value.fields.filter fun property => !declared C beside property.1).map fun property =>
        (argument, property.2)
  | "propertyNames" => value.fields.map fun property => (argument, .string property.1)
  | "dependencies" => argument.fields.filterMap fun dependency =>
      match dependency.2 with
      | .array _ => none
      | schema => if value.contains dependency.1 then some (schema, value) else none
  | "items" =>
      match argument with
      | .array schemas => schemas.zip (items value)
      | schema => (items value).map (schema, ·)
  | "additionalItems" =>
      match beside "items" with
      | some (.array schemas) => ((items value).drop schemas.length).map (argument, ·)
      | _ => []
  | "contains" =>
      match value with
      | .array elements => elements.map (argument, ·)
      | _ => [(.bool true, value)]
  | _ => []

/-- The keywords of the validator. -/
def draft7 : Vocabulary := ⟨assertion C, mode, parts C⟩

/-- What a reference of a schema with these definitions refers to. -/
def definitionAt (definitions : Json) (reference : String) : Option Json :=
  if localDefinitionName reference = "" then none
  else definitions.field? (localDefinitionName reference)

variable {C}

/-- Only these keywords change what the ones beside them ask. -/
lemma parts_congr {beside beside' : String → Option Json} {keyword : String} {argument value : Json}
    (hdeclared : keyword = "additionalProperties" →
      ∀ name, declared C beside name = declared C beside' name)
    (hif : beside "if" = beside' "if") (hitems : beside "items" = beside' "items") :
    parts C beside keyword argument value = parts C beside' keyword argument value := by
  unfold parts
  split <;> try rfl
  · rw [hif]
  · rw [hif]
  · simp only [hdeclared rfl]
  · rw [hitems]

/-! ### References -/

lemma refs_of_mem_fields {schema argument : Json} {name : String}
    (h : (name, argument) ∈ schema.fields) :
    collectLocalDefinitionRefs argument ⊆ collectLocalDefinitionRefs schema := by
  cases schema with
  | object fields =>
      replace h : (name, argument) ∈ fields := h
      rw [collectLocalDefinitionRefs]
      refine Finset.subset_union_right.trans' ?_
      induction fields with
      | nil => cases h
      | cons field rest ih =>
          obtain ⟨key, item⟩ := field
          rw [collectFieldRefs]
          rcases List.mem_cons.1 h with h | h
          · cases h
            exact Finset.subset_union_left
          · exact (ih h).trans Finset.subset_union_right
  | _ => cases h

lemma refs_of_field {schema argument : Json} {name : String}
    (h : schema.field? name = some argument) :
    collectLocalDefinitionRefs argument ⊆ collectLocalDefinitionRefs schema := by
  obtain ⟨pre, post, hfields, -⟩ := List.lookup_eq_some_iff.1 h
  exact refs_of_mem_fields (hfields ▸ List.mem_append_right pre List.mem_cons_self)

lemma refs_of_mem_items {schema argument : Json} (h : argument ∈ items schema) :
    collectLocalDefinitionRefs argument ⊆ collectLocalDefinitionRefs schema := by
  cases schema with
  | array elements =>
      replace h : argument ∈ elements := h
      rw [collectLocalDefinitionRefs]
      induction elements with
      | nil => cases h
      | cons item rest ih =>
          rw [collectItemRefs]
          rcases List.mem_cons.1 h with rfl | h
          · exact Finset.subset_union_left
          · exact (ih h).trans Finset.subset_union_right
  | _ => cases h

/-- What a keyword asks refers to nothing new. -/
lemma refs_of_mem_parts {schema argument value : Json} {keyword : String}
    (h : schema.field? keyword = some argument) {q : Json × Json}
    (hq : q ∈ parts C schema.field? keyword argument value) :
    collectLocalDefinitionRefs q.1 ⊆ collectLocalDefinitionRefs schema := by
  have hargument := refs_of_field h
  have hitem : ∀ {s}, s ∈ items argument →
      collectLocalDefinitionRefs s ⊆ collectLocalDefinitionRefs schema :=
    fun hs => (refs_of_mem_items hs).trans hargument
  have hfield : ∀ {name s}, (name, s) ∈ argument.fields →
      collectLocalDefinitionRefs s ⊆ collectLocalDefinitionRefs schema :=
    fun hs => (refs_of_mem_fields hs).trans hargument
  unfold parts at hq
  split at hq
  -- the combinations
  case h_1 | h_2 | h_3 =>
    obtain ⟨s, hs, rfl⟩ := List.mem_map.1 hq
    exact hitem hs
  case h_4 =>
    obtain rfl := List.mem_singleton.1 hq
    exact hargument
  case h_5 | h_6 =>
    split at hq
    next condition hif =>
      rcases List.mem_pair.1 hq with rfl | rfl
      · exact refs_of_field hif
      · exact hargument
    next => cases hq
  -- the properties of objects
  case h_7 =>
    obtain ⟨property, -, hs⟩ := List.mem_filterMap.1 hq
    obtain ⟨s, hfound, rfl⟩ := Option.map_eq_some_iff.1 hs
    exact (refs_of_field hfound).trans hargument
  case h_8 =>
    obtain ⟨property, -, hs⟩ := List.mem_flatMap.1 hq
    obtain ⟨pattern, hpattern, rfl⟩ := List.mem_map.1 hs
    exact hfield (List.mem_filter.1 hpattern).1
  case h_9 | h_10 =>
    obtain ⟨property, -, rfl⟩ := List.mem_map.1 hq
    exact hargument
  case h_11 =>
    obtain ⟨dependency, hdependency, hs⟩ := List.mem_filterMap.1 hq
    split at hs
    · cases hs
    · split_ifs at hs
      cases hs
      exact hfield hdependency
  -- the items of arrays
  case h_12 =>
    split at hq
    next schemas => exact hitem (List.of_mem_zip hq).1
    next =>
      obtain ⟨element, -, rfl⟩ := List.mem_map.1 hq
      exact hargument
  case h_13 =>
    split at hq
    · obtain ⟨element, -, rfl⟩ := List.mem_map.1 hq
      exact hargument
    · cases hq
  case h_14 =>
    split at hq
    · obtain ⟨element, -, rfl⟩ := List.mem_map.1 hq
      exact hargument
    · obtain rfl := List.mem_singleton.1 hq
      exact Finset.empty_subset _
  case h_15 => cases hq

end XdebugFst.Schema
