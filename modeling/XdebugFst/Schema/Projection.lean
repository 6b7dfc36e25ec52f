import XdebugFst.Schema.Validator

/-!
# Projecting a response schema

A response schema is a choice between branches, and a branch may be a choice between variants. When
the fields `ok`, `query_mode` and `found` of a response leave one branch, and one variant of it, the
response is validated against a projection of the schema: `projectedSchema` has this branch merged
into it, and no choice.
-/

namespace XdebugFst.Schema

open Lib JsonSchema

/-! ### The selection -/

/-- `resolve_local_schema` -/
def resolveLocalSchema (schema definitions : Json) : Option Json :=
  match schema.field? "$ref" with
  | some (.string reference) => definitionAt definitions reference
  | _ => some schema

section Selection

variable (dump : Json → String)

/-- `discriminator_allows_value` -/
def discriminatorAllowsValue (schema value : Json) : Bool :=
  (match schema.field? "const" with
    | some candidate => dump candidate = dump value
    | none => true) &&
  match schema.field? "enum" with
  | some (.array candidates) => candidates.any fun candidate => dump candidate = dump value
  | _ => true

/-- `top_response_branch_possible` -/
def topResponseBranchPossible (branch response : Json) : Bool :=
  match (branch.field? "properties").bind (·.field? "ok"), response.field? "ok" with
  | some schema, some value => discriminatorAllowsValue dump schema value
  | _, _ => true

/-- `summary_variant_possible` -/
def summaryVariantPossible (variant definitions summary : Json) : Bool :=
  match ((variant.field? "properties").bind (·.field? "summary")).bind
      (resolveLocalSchema · definitions) with
  | none => true
  | some summarySchema => ["query_mode", "found"].all fun field =>
      match (summarySchema.field? "properties").bind (·.field? field), summary.field? field with
      | some schema, some value => discriminatorAllowsValue dump schema value
      | _, _ => true

/-- A branch of a response schema, a variant of it if there are variants, and their places. -/
structure Selection where
  top : Json × ℕ
  nested : Option (Json × ℕ)

/-- The only candidate, with its place. -/
def uniqueCandidate (possible : Json → Bool) (candidates : List Json) : Option (Json × ℕ) :=
  match candidates.zipIdx.filter fun candidate => possible candidate.1 with
  | [candidate] => some candidate
  | _ => none

/-- `select_unique_response_branch` -/
def selectUniqueResponseBranch (source response : Json) : Option Selection :=
  match response.field? "ok", source.field? "oneOf", source.field? "$defs" with
  | some (.bool _), some (.array branches), some (.object definitions) =>
      match uniqueCandidate (topResponseBranchPossible dump · response) branches with
      | none => none
      | some top =>
          match top.1.field? "oneOf", response.field? "summary" with
          | none, _ => some ⟨top, none⟩
          | some (.array variants), some (.object summary) =>
              (uniqueCandidate (summaryVariantPossible dump · (.object definitions)
                (.object summary)) variants).map fun nested => ⟨top, some nested⟩
          | _, _ => none
  | _, _, _ => none

end Selection

/-! ### The merge -/

section Merge

variable (C : Checks)

/-- `schema_contains_alternative`, with the levels that are left. -/
def schemaContainsAlternative (definitions : Json) : ℕ → Json → Json → Bool
  | 0, _, _ => false
  | levels + 1, generalSchema, selectedSchema =>
      match resolveLocalSchema generalSchema definitions,
        resolveLocalSchema selectedSchema definitions with
      | some general, some selected => C.equal general selected ||
          match general.field? "anyOf" with
          | some (.array alternatives) => alternatives.any fun alternative =>
              schemaContainsAlternative definitions levels alternative selectedSchema
          | _ => false
      | _, _ => false

/-- `schema_is_same_or_alternative` -/
def schemaIsSameOrAlternative (generalSchema selectedSchema definitions : Json) : Bool :=
  schemaContainsAlternative C definitions 33 generalSchema selectedSchema

/-- `projected[name] = value` -/
def setField (name : String) (value projected : Json) : Json :=
  .object (setSorted name value projected.fields)

/-- What a property of the selected branch makes of the one that is there. -/
def mergedProperty (definitions : Json) (general : Option Json) (selected : Json) : Json :=
  match general with
  | none => selected
  | some general =>
      if schemaIsSameOrAlternative C general selected definitions then selected
      else .object [("allOf", .array [general, selected])]

/-- The properties that the loop over the selected ones leaves. -/
def mergeProperties (definitions : Json) (properties selected : List (String × Json)) :
    List (String × Json) :=
  selected.foldl (fun properties property => setSorted property.1
    (mergedProperty C definitions (properties.lookup property.1) property.2) properties) properties

/-- The part of `apply_selected_response_branch` about properties. -/
def applyProperties (definitions projected selected : Json) : Json :=
  match selected.field? "properties" with
  | some (.object properties) => setField "properties" (.object (mergeProperties C definitions
      (((projected.field? "properties").map Json.fields).getD []) properties)) projected
  | _ => projected

/-- `merge_required_fields` -/
def mergeRequiredFields (projected selected : Json) : Json :=
  match selected.field? "required" with
  | some (.array fields) => setField "required" (.array (fields.foldl
      (fun required field => if required.any (C.equal · field) then required
        else required ++ [field])
      (((projected.field? "required").map items).getD []))) projected
  | _ => projected

/-- What is left of a branch. -/
def residual (selected : Json) : Json := ((selected.erase "properties").erase "required").erase "oneOf"

/-- The part of `apply_selected_response_branch` about the rest of the branch. -/
def applyResidual (projected selected : Json) : Json :=
  if (residual selected).fields.isEmpty then projected
  else setField "allOf" (.array ((((projected.field? "allOf").map items).getD []) ++
    [residual selected])) projected

/-- `apply_selected_response_branch` on a branch that is an object. -/
def applySelectedResponseBranch (definitions projected selected : Json) : Json :=
  applyResidual (mergeRequiredFields C (applyProperties C definitions projected selected) selected)
    selected

/-- The schema without its choice and its definitions. -/
def withoutChoice (source : Json) : Json := (source.erase "$defs").erase "oneOf"

/-- The projection for a selection. It throws the name of a missing definition. -/
def projectedSchema (source definitions : Json) (selection : Selection) : Except String Json :=
  let projected := applySelectedResponseBranch C definitions (withoutChoice source) selection.top.1
  attachDefinitionClosure (match selection.nested with
    | some nested => applySelectedResponseBranch C definitions projected nested.1
    | none => projected) definitions

end Merge

end XdebugFst.Schema
