import XdebugFst.Schema.ResponseValidation

/-!
# Validating responses

`validate_response` validates a response against the projection that it selects, and against the
whole schema when it selects none. The compiled schemas are kept for the responses that come later.

`validateResponse_exact` says that neither makes a difference: whatever was validated before, a
response is accepted exactly when the whole schema accepts it.
-/

namespace XdebugFst.Schema

open Lib JsonSchema

/-- `RuntimeSchemaValidationResult`, without the report that is made from it. -/
structure ValidationResult where
  ok : Bool := true
  code : String := ""
  message : String := ""
  deriving DecidableEq

def configError (message : String) : ValidationResult :=
  ⟨false, "SCHEMA_VALIDATION_CONFIG_ERROR", message⟩

/-- What validation needs of its surroundings. -/
structure Runtime where
  checks : Checks
  dump : Json → String
  /-- `read_plain_json` at the path of a schema. -/
  read : String → Except String Json
  /-- Why `set_root_schema` throws, if it does. -/
  compileError : Json → Option String
  /-- A compiled schema reports no issue. -/
  accepts : Json → Json → Bool

/-- The projections of a schema that were compiled. -/
structure Variants where
  source : Json
  compiled : OrderedMap String Json := .empty

/-- The caches of the validator. -/
structure ValidatorCache where
  variants : OrderedMap String Variants := .empty
  whole : OrderedMap String Json := .empty

/-- The key of a projection. -/
def variantKey (selection : Selection) : String :=
  "top:" ++ toString selection.top.2 ++ match selection.nested with
    | some nested => "/nested:" ++ toString nested.2
    | none => ""

section Validator

variable (R : Runtime)

/-- `validate_response_with_cached_schema` -/
def validateWithCachedSchema (schema response : Json) : ValidationResult :=
  if R.accepts schema response then {}
  else ⟨false, "INTERNAL_RESPONSE_SCHEMA_VIOLATION",
    "handler response violated its action-specific response schema"⟩

/-- `compile_projected_validator` -/
def compileValidator (ref : String) (schema : Json) : Except ValidationResult Json :=
  let copy := setField "$schema" (.string "http://json-schema.org/draft-07/schema#") schema
  match R.compileError copy with
  | some what => .error (configError ("failed to compile runtime schema " ++ ref ++ ": " ++ what))
  | none => .ok copy

/-- The projection for a selection, compiled. -/
def compileVariant (ref : String) (source : Json) (selection : Selection) :
    Except ValidationResult Json :=
  match projectedSchema R.checks source ((source.field? "$defs").getD .null) selection with
  | .error name =>
      .error (configError ("response projection references missing definition: " ++ name))
  | .ok projected => compileValidator R ref projected

/-- `get_cached_validator`, and the validation. -/
def validateWhole (ref : String) (response : Json) (cache : ValidatorCache) :
    ValidationResult × ValidatorCache :=
  match cache.whole.find? ref with
  | some schema => (validateWithCachedSchema R schema response, cache)
  | none =>
      match R.read ref with
      | .error message => (configError message, cache)
      | .ok source =>
          match compileValidator R ref source with
          | .error result => (result, cache)
          | .ok schema => (validateWithCachedSchema R schema response,
              { cache with whole := cache.whole.insert ref schema })

/-- The projections of a schema that are kept. -/
def cachedVariants (ref : String) (cache : ValidatorCache) : Except ValidationResult Variants :=
  match cache.variants.find? ref with
  | some variants => .ok variants
  | none =>
      match R.read ref with
      | .error message => .error (configError message)
      | .ok source => .ok { source }

/-- `validate_response` -/
def validateResponse (ref : String) (response : Json) (cache : ValidatorCache) :
    ValidationResult × ValidatorCache :=
  match cachedVariants R ref cache with
  | .error result => (result, cache)
  | .ok variants =>
      let cache := { cache with variants := cache.variants.insert ref variants }
      match selectUniqueResponseBranch R.dump variants.source response with
      | none => validateWhole R ref response cache
      | some selection =>
          match variants.compiled.find? (variantKey selection) with
          | some schema => (validateWithCachedSchema R schema response, cache)
          | none =>
              match compileVariant R ref variants.source selection with
              | .error result => (result, cache)
              | .ok schema =>
                  let compiled := variants.compiled.insert (variantKey selection) schema
                  (validateWithCachedSchema R schema response, { cache with
                    variants := cache.variants.insert ref { variants with compiled } })

/-- The caches after responses were validated. -/
def cacheAfter (calls : List (String × Json)) : ValidatorCache :=
  calls.foldl (fun cache call => (validateResponse R call.1 call.2 cache).2) {}

/-! ### The caches -/

/-- The projections that are kept are what would be compiled again. -/
def KeptVariants (ref : String) (variants : Variants) : Prop :=
  ∀ key schema, variants.compiled.find? key = some schema → ∃ response selection,
    selectUniqueResponseBranch R.dump variants.source response = some selection ∧
      variantKey selection = key ∧ compileVariant R ref variants.source selection = .ok schema

/-- What is kept is what would be compiled again. -/
structure Kept (cache : ValidatorCache) : Prop where
  variants : ∀ ref variants, cache.variants.find? ref = some variants →
    R.read ref = .ok variants.source ∧ KeptVariants R ref variants
  whole : ∀ ref schema, cache.whole.find? ref = some schema → ∃ source,
    R.read ref = .ok source ∧ compileValidator R ref source = .ok schema

/-- The result when nothing is kept. -/
def freshResult (ref : String) (response : Json) : ValidationResult :=
  match R.read ref with
  | .error message => configError message
  | .ok source =>
      match selectUniqueResponseBranch R.dump source response with
      | none =>
          match compileValidator R ref source with
          | .error result => result
          | .ok schema => validateWithCachedSchema R schema response
      | some selection =>
          match compileVariant R ref source selection with
          | .error result => result
          | .ok schema => validateWithCachedSchema R schema response

end Validator

/-- The key tells the branch and the variant. -/
lemma variantKey_inj {selection selection' : Selection}
    (h : variantKey selection = variantKey selection') :
    selection.top.2 = selection'.top.2 ∧
      selection.nested.map Prod.snd = selection'.nested.map Prod.snd := by
  have hslash : ∀ n : ℕ, '/' ∉ (toString n).toList := notMem_toString (by decide)
  have hcolon : ∀ n : ℕ, ':' ∉ (toString n).toList := notMem_toString (by decide)
  have hnumber : ∀ {m n : ℕ}, (toString m).toList = (toString n).toList → m = n :=
    fun h => Nat.repr_injective (String.toList_injective h)
  have hlist := congrArg String.toList h
  rw [variantKey, variantKey, String.toList_append, String.toList_append, String.toList_append,
    String.toList_append, List.append_assoc, List.append_assoc, List.append_right_inj] at hlist
  cases hnested : selection.nested with
  | none =>
      cases hnested' : selection'.nested with
      | none =>
          rw [hnested, hnested'] at hlist
          exact ⟨hnumber (by simpa using hlist), rfl⟩
      | some nested' =>
          rw [hnested, hnested'] at hlist
          have hmem : '/' ∈ (toString selection.top.2).toList ++ "".toList := by
            rw [hlist]
            simp
          exact absurd (by simpa using hmem) (hslash selection.top.2)
  | some nested =>
      cases hnested' : selection'.nested with
      | none =>
          rw [hnested, hnested'] at hlist
          have hmem : '/' ∈ (toString selection'.top.2).toList ++ "".toList := by
            rw [← hlist]
            simp
          exact absurd (by simpa using hmem) (hslash selection'.top.2)
      | some nested' =>
          rw [hnested, hnested'] at hlist
          have hsplit : ∀ n : ℕ, ("/nested:" ++ toString n).toList =
              "/nested".toList ++ ':' :: (toString n).toList := by
            intro n
            simp
          dsimp only at hlist
          rw [hsplit, hsplit, ← List.append_assoc, ← List.append_assoc] at hlist
          obtain ⟨htop, hnested⟩ := append_separator_inj (hcolon nested.2) (hcolon nested'.2) hlist
          rw [List.append_left_inj] at htop
          exact ⟨hnumber htop, by simp [hnumber hnested]⟩

variable {R : Runtime}

lemma exists_definitions {dump : Json → String} {source response : Json} {selection : Selection}
    (h : selectUniqueResponseBranch dump source response = some selection) :
    ∃ definitions, source.field? "$defs" = some definitions := by
  rw [selectUniqueResponseBranch] at h
  split at h
  next branches fields _ _ hfields => exact ⟨_, hfields⟩
  next => cases h

/-- Two candidates of one list at one place. -/
lemma candidate_eq {possible possible' : Json → Bool} {candidates : List Json}
    {candidate candidate' : Json × ℕ} (h : uniqueCandidate possible candidates = some candidate)
    (h' : uniqueCandidate possible' candidates = some candidate')
    (hplace : candidate.2 = candidate'.2) : candidate = candidate' := by
  obtain ⟨-, -, -, hat, -⟩ := uniqueCandidate_eq_some h
  obtain ⟨-, -, -, hat', -⟩ := uniqueCandidate_eq_some h'
  rw [hplace, hat'] at hat
  exact Prod.ext (Option.some.inj hat).symm hplace

/-- A key belongs to one selection. -/
lemma selection_eq_of_key {source response response' : Json} {selection selection' : Selection}
    (h : selectUniqueResponseBranch R.dump source response = some selection)
    (h' : selectUniqueResponseBranch R.dump source response' = some selection')
    (hkey : variantKey selection = variantKey selection') : selection = selection' := by
  obtain ⟨definitions, hdefinitions⟩ := exists_definitions h
  obtain ⟨hplace, hnestedPlace⟩ := variantKey_inj hkey
  obtain ⟨branches, hbranches, htop, hnested⟩ := selectUniqueResponseBranch_eq_some hdefinitions h
  obtain ⟨branches', hbranches', htop', hnested'⟩ :=
    selectUniqueResponseBranch_eq_some hdefinitions h'
  cases hbranches.symm.trans hbranches'
  have hsame : selection.top = selection'.top := candidate_eq htop htop' hplace
  obtain ⟨top, nested⟩ := selection
  obtain ⟨top', nested'⟩ := selection'
  obtain rfl : top = top' := hsame
  rcases hnested with ⟨rfl, -⟩ | ⟨variants, _, place, rfl, hvariants, -, hunique⟩
  · rcases hnested' with ⟨rfl, -⟩ | ⟨_, _, _, rfl, -⟩
    · rfl
    · cases hnestedPlace
  · rcases hnested' with ⟨rfl, -⟩ | ⟨variants', _, place', rfl, hvariants', -, hunique'⟩
    · cases hnestedPlace
    · cases hvariants.symm.trans hvariants'
      rw [candidate_eq hunique hunique' (Option.some.inj hnestedPlace)]

namespace Kept

variable {cache : ValidatorCache}

lemma empty : Kept R {} where
  variants _ _ h := by simp at h
  whole _ _ h := by simp at h

lemma insert (h : Kept R cache) {ref : String} {variants : Variants}
    (hread : R.read ref = .ok variants.source) (hvariants : KeptVariants R ref variants) :
    Kept R { cache with variants := cache.variants.insert ref variants } where
  variants ref' variants' hfound := by
    rcases (OrderedMap.find?_insert_eq_some_iff _).1 hfound with ⟨rfl, rfl⟩ | ⟨-, hfound⟩
    · exact ⟨hread, hvariants⟩
    · exact h.variants ref' variants' hfound
  whole := h.whole

/-- The projections of a schema that was read before or is read now. -/
lemma cachedVariants_cases (h : Kept R cache) (ref : String) :
    (∃ message, R.read ref = .error message ∧
      cachedVariants R ref cache = .error (configError message)) ∨
    ∃ variants, R.read ref = .ok variants.source ∧ cachedVariants R ref cache = .ok variants ∧
      KeptVariants R ref variants := by
  rw [cachedVariants]
  cases hfound : cache.variants.find? ref with
  | some variants =>
      obtain ⟨hread, hvariants⟩ := h.variants ref variants hfound
      exact Or.inr ⟨variants, hread, rfl, hvariants⟩
  | none =>
      cases hread : R.read ref with
      | error message => exact Or.inl ⟨message, rfl, rfl⟩
      | ok source => exact Or.inr ⟨{ source }, rfl, rfl, fun key schema hkey => by simp at hkey⟩

/-- Validating against the whole schema. -/
lemma validateWhole_spec (h : Kept R cache) {ref : String} {source : Json}
    (hread : R.read ref = .ok source) (response : Json) :
    (validateWhole R ref response cache).1 =
        (match compileValidator R ref source with
          | .error result => result
          | .ok schema => validateWithCachedSchema R schema response) ∧
      Kept R (validateWhole R ref response cache).2 := by
  rw [validateWhole]
  cases hfound : cache.whole.find? ref with
  | some schema =>
      obtain ⟨source', hread', hcompile⟩ := h.whole ref schema hfound
      cases hread.symm.trans hread'
      rw [hcompile]
      exact ⟨rfl, h⟩
  | none =>
      rw [hread]
      dsimp only
      cases hcompile : compileValidator R ref source with
      | error result => exact ⟨rfl, h⟩
      | ok schema =>
          refine ⟨rfl, h.variants, fun ref' schema' hkept => ?_⟩
          rcases (OrderedMap.find?_insert_eq_some_iff _).1 hkept with ⟨rfl, rfl⟩ | ⟨-, hkept⟩
          · exact ⟨source, hread, hcompile⟩
          · exact h.whole ref' schema' hkept

/-- What is kept makes no difference, and what is kept then is right too. -/
lemma validateResponse_spec (h : Kept R cache) (ref : String) (response : Json) :
    (validateResponse R ref response cache).1 = freshResult R ref response ∧
      Kept R (validateResponse R ref response cache).2 := by
  rw [validateResponse, freshResult]
  rcases h.cachedVariants_cases ref with ⟨message, hread, hvariants⟩ |
    ⟨variants, hread, hvariants, hkept⟩
  · rw [hread, hvariants]
    exact ⟨rfl, h⟩
  rw [hread, hvariants]
  have hinsert := h.insert hread hkept
  dsimp only
  cases hselection : selectUniqueResponseBranch R.dump variants.source response with
  | none => exact hinsert.validateWhole_spec hread response
  | some selection =>
      dsimp only
      cases hfound : variants.compiled.find? (variantKey selection) with
      | some schema =>
          obtain ⟨response', selection', hselection', hkey, hcompile⟩ := hkept _ _ hfound
          obtain rfl := selection_eq_of_key hselection' hselection hkey
          rw [hcompile]
          exact ⟨rfl, hinsert⟩
      | none =>
          dsimp only
          cases hcompile : compileVariant R ref variants.source selection with
          | error result => exact ⟨rfl, hinsert⟩
          | ok schema =>
              refine ⟨rfl, hinsert.insert hread ?_⟩
              intro key schema' hschema'
              rcases (OrderedMap.find?_insert_eq_some_iff _).1 hschema' with ⟨rfl, rfl⟩ | ⟨-, hschema'⟩
              · exact ⟨response, selection, hselection, rfl, hcompile⟩
              · exact hkept key schema' hschema'

end Kept

lemma kept_cacheAfter (R : Runtime) (calls : List (String × Json)) : Kept R (cacheAfter R calls) := by
  rw [cacheAfter]
  induction calls using List.reverseRecOn with
  | nil => exact Kept.empty
  | append_singleton calls call ih =>
      rw [List.foldl_append]
      exact (ih.validateResponse_spec call.1 call.2).2

/-! ### The projection is exact -/

/-- The validator comes to the verdict of the schema, and compares values as it should. -/
structure Runtime.Faithful (R : Runtime) : Prop where
  lawful : R.checks.Lawful
  accepts_eq : ∀ schema definitions value verdict, schema.field? "$defs" = some definitions →
    Verdict (draft7 R.checks) (definitionAt definitions) schema value verdict →
    R.accepts schema value = verdict

/-- A schema that compiles is validated as it is. -/
lemma validate_compiled_iff (hR : R.Faithful) {ref : String} {projected schema definitions : Json}
    {response : Json} (h : compileValidator R ref projected = .ok schema)
    (hdefinitions : projected.field? "$defs" = some definitions)
    (href : projected.field? "$ref" = none)
    (hdecided : Decided (draft7 R.checks) (definitionAt definitions) projected response) :
    (validateWithCachedSchema R schema response).ok = true ↔
      Valid (draft7 R.checks) (definitionAt definitions) projected response := by
  rw [compileValidator] at h
  split at h
  next => cases h
  next =>
    obtain rfl := Except.ok.inj h
    obtain ⟨⟨verdict, hverdict⟩, hvalid⟩ := setField_silent
      (.string "http://json-schema.org/draft-07/schema#")
      (show "$schema" ∈ ["$defs", "$schema"] by decide) (isObject_of_field? hdefinitions) href
      hdecided
    rw [← hvalid, ← hverdict.eq_true_iff, validateWithCachedSchema, hR.accepts_eq _ _ _ _
      ((field?_setField_of_ne (by decide) _ _).trans hdefinitions) hverdict]
    cases verdict <;> simp

lemma compileValidator_error {ref : String} {schema : Json} {result : ValidationResult}
    (h : compileValidator R ref schema = .error result) :
    result.code = "SCHEMA_VALIDATION_CONFIG_ERROR" := by
  rw [compileValidator] at h
  split at h
  next =>
    obtain rfl := Except.error.inj h
    rfl
  next => cases h

/-- Whatever was validated before, a response is accepted exactly when its whole schema accepts it,
unless a schema cannot be compiled. -/
theorem validateResponse_exact (R : Runtime) (hR : R.Faithful) (calls : List (String × Json))
    (ref : String) (response source definitions : Json) (hread : R.read ref = .ok source)
    (hdefinitions : source.field? "$defs" = some definitions)
    (hshape : Projectable R.checks definitions source)
    (hdecided : Decided (draft7 R.checks) (definitionAt definitions) source response) :
    (validateResponse R ref response (cacheAfter R calls)).1.code =
        "SCHEMA_VALIDATION_CONFIG_ERROR" ∨
      ((validateResponse R ref response (cacheAfter R calls)).1.ok = true ↔
        Valid (draft7 R.checks) (definitionAt definitions) source response) := by
  rw [((kept_cacheAfter R calls).validateResponse_spec ref response).1, freshResult, hread]
  dsimp only
  cases hselection : selectUniqueResponseBranch R.dump source response with
  | none =>
      dsimp only
      cases hcompile : compileValidator R ref source with
      | error result => exact Or.inl (compileValidator_error hcompile)
      | ok schema =>
          exact Or.inr (validate_compiled_iff hR hcompile hdefinitions hshape.noRef hdecided)
  | some selection =>
      dsimp only
      obtain ⟨hmerged, hvalid⟩ := mergedSchema_meets hR.lawful hshape hdefinitions hselection hdecided
      cases hcompile : compileVariant R ref source selection with
      | error result =>
          left
          rw [compileVariant] at hcompile
          split at hcompile
          next =>
            obtain rfl := Except.error.inj hcompile
            rfl
          next => exact compileValidator_error hcompile
      | ok schema =>
          right
          rw [compileVariant, hdefinitions] at hcompile
          split at hcompile
          next => cases hcompile
          next projected hprojected =>
            rw [Option.getD_some, projectedSchema_eq] at hprojected
            obtain ⟨hobject, href⟩ := mergedSchema_object hshape.object hshape.noRef selection
            obtain ⟨closed, hclosed, -, hclosedRef, hclosedDecided, hsame⟩ :=
              attachDefinitionClosure_meets hobject href hprojected hmerged
            exact (validate_compiled_iff hR hcompile hclosed hclosedRef hclosedDecided).trans
              (hsame.trans hvalid)

/-! ### A schema with branches and variants -/

/-- Equality of scalars, which is all that a small schema asks for. -/
def scalarEqual : Json → Json → Bool
  | .null, .null => true
  | .bool a, .bool b => a == b
  | .string a, .string b => a == b
  | _, _ => false

lemma eq_of_scalarEqual {a b : Json} (h : scalarEqual a b = true) : a = b := by
  unfold scalarEqual at h
  split at h
  · rfl
  · rw [eq_of_beq h]
  · rw [eq_of_beq h]
  · cases h

/-- Checks that know the boolean type. -/
def booleanChecks : Checks where
  check keyword argument value :=
    match keyword, argument with
    | "type", .string "boolean" => value.bool?.isSome
    | _, _ => true
  equal := scalarEqual
  search _ _ := false

lemma lawful_booleanChecks : booleanChecks.Lawful where
  equal_scalar _ _ h _ := eq_of_scalarEqual h
  equal_schema _ _ _ _ _ h := by rw [eq_of_scalarEqual h]

/-- A schema that tells by a field which objects it accepts. -/
def fieldSchema (name : String) (schema : Json) : Json :=
  .object [("properties", .object [(name, schema)])]

def constSchema (value : Bool) : Json := .object [("const", .bool value)]

/-- The summaries of a search. -/
def searchDefinitions : Json :=
  .object [("found", fieldSchema "found" (constSchema true)),
    ("missed", fieldSchema "found" (constSchema false))]

/-- A response with one of the summaries. -/
def summaryVariant (definition : String) : Json :=
  fieldSchema "summary" (.object [("$ref", .string ("#/$defs/" ++ definition))])

/-- A success has one of the summaries. -/
def successBranch : Json :=
  .object [("oneOf", .array [summaryVariant "found", summaryVariant "missed"]),
    ("properties", .object [("ok", constSchema true)])]

def failureBranch : Json := fieldSchema "ok" (constSchema false)

/-- Success or failure of a search. -/
def searchSchema : Json :=
  .object [("$defs", searchDefinitions), ("oneOf", .array [successBranch, failureBranch]),
    ("properties", .object [("ok", .object [("type", .string "boolean")])])]

open Classical in
/-- A validator that comes to the verdicts of schemas. -/
noncomputable def searchRuntime : Runtime where
  checks := booleanChecks
  dump value := if value.bool? = some true then "true" else "false"
  read _ := .ok searchSchema
  compileError _ := none
  accepts schema value := decide (Valid (draft7 booleanChecks)
    (definitionAt ((schema.field? "$defs").getD .null)) schema value)

lemma faithful_searchRuntime : searchRuntime.Faithful where
  lawful := lawful_booleanChecks
  accepts_eq schema definitions value verdict hdefinitions hverdict := by
    show @decide _ (Classical.propDecidable _) = verdict
    rw [hdefinitions, Option.getD_some]
    refine Bool.eq_iff_iff.2 (Iff.trans ?_ hverdict.eq_true_iff.symm)
    exact @decide_eq_true_iff _ (Classical.propDecidable _)

/-- What the branch of a success is projected to. -/
def successSchema : Json :=
  .object [("properties", .object [("ok", .object [("allOf", .array
    [.object [("type", .string "boolean")], constSchema true])])])]

lemma applySelected_successBranch : applySelectedResponseBranch booleanChecks searchDefinitions
    (withoutChoice searchSchema) successBranch = successSchema := rfl

/-- A branch or a variant with one property fits together with a schema that has one property. -/
lemma mergeable_of_properties {general selected : Json} {name name' : String}
    {projected branch : Json}
    (hobject : branch.isObject = true) (href : branch.field? "$ref" = none)
    (hadditional : branch.field? "additionalProperties" = none)
    (hselected : branch.field? "properties" = some (.object [(name, selected)]))
    (hprojected : projected = .object [("properties", .object [(name', general)])])
    (halone : anyOfAlone searchDefinitions 33 general = true) :
    Mergeable searchDefinitions projected branch where
  selected_object := hobject
  selected_noRef := href
  selected_noAdditional := hadditional
  nodup properties h := by
    obtain rfl : [(name, selected)] = properties :=
      Json.object.inj (Option.some.inj (hselected.symm.trans h))
    exact List.nodup_singleton _
  declared h := by
    rw [hprojected] at h
    cases h
  alone name general' h := by
    rw [hprojected] at h
    obtain ⟨-, rfl⟩ := field?_singleton h
    exact halone
  allOf argument h := by
    rw [hprojected] at h
    cases h

lemma discriminating_constSchema (value : Bool) : Discriminating (constSchema value) where
  noRef := rfl
  const_scalar candidate h := by
    obtain ⟨-, rfl⟩ := field?_singleton h
    trivial
  enum_scalar candidates h := by cases h

lemma choices_successBranch {variant : Json} (h : variant ∈ choices successBranch) :
    ∃ found : Bool, variant = summaryVariant (if found then "found" else "missed") ∧
      summarySchema searchDefinitions variant = some (fieldSchema "found" (constSchema found)) := by
  rcases List.mem_pair.1 h with rfl | rfl
  · exact ⟨true, rfl, rfl⟩
  · exact ⟨false, rfl, rfl⟩

lemma projectable_searchSchema : Projectable booleanChecks searchDefinitions searchSchema where
  object := rfl
  noRef := rfl
  top branch h := by
    rcases List.mem_pair.1 h with rfl | rfl
    · exact mergeable_of_properties rfl rfl rfl rfl rfl rfl
    · exact mergeable_of_properties rfl rfl rfl rfl rfl rfl
  ok branch h schema hschema := by
    rcases List.mem_pair.1 h with rfl | rfl
    · obtain rfl := Option.some.inj hschema
      exact discriminating_constSchema true
    · obtain rfl := Option.some.inj hschema
      exact discriminating_constSchema false
  variant branch h variant hvariant := by
    rcases List.mem_pair.1 h with rfl | rfl
    · rw [applySelected_successBranch]
      obtain ⟨found, rfl, -⟩ := choices_successBranch hvariant
      exact mergeable_of_properties rfl rfl rfl rfl rfl rfl
    · cases hvariant
  flat branch h variant hvariant := by
    rcases List.mem_pair.1 h with rfl | rfl
    · obtain ⟨found, rfl, -⟩ := choices_successBranch hvariant
      rfl
    · cases hvariant
  summary branch h variant hvariant schema hschema := by
    rcases List.mem_pair.1 h with rfl | rfl
    · obtain ⟨found, -, hsummary⟩ := choices_successBranch hvariant
      obtain rfl := Option.some.inj (hsummary.symm.trans hschema)
      refine ⟨rfl, fun field _ s hs => ?_⟩
      obtain ⟨-, rfl⟩ := field?_singleton hs
      exact discriminating_constSchema found
    · cases hvariant

section Decided

variable {resolve : String → Option Json} {schema value : Json}

lemma decided_constSchema (allowed : Bool) :
    Decided (draft7 booleanChecks) resolve (constSchema allowed) value := by
  rw [decided_object_iff rfl rfl]
  intro keyword argument hfield q hq
  obtain ⟨rfl, rfl⟩ := field?_singleton hfield
  cases hq

lemma decided_typeSchema {type : Json} :
    Decided (draft7 booleanChecks) resolve (.object [("type", type)]) value := by
  rw [decided_object_iff rfl rfl]
  intro keyword argument hfield q hq
  obtain ⟨rfl, rfl⟩ := field?_singleton hfield
  cases hq

/-- A single property asks its schema. -/
lemma decided_property {name : String} {beside : String → Option Json}
    (h : ∀ item, Decided (draft7 booleanChecks) resolve schema item) {q : Json × Json}
    (hq : q ∈ (draft7 booleanChecks).parts beside "properties" (.object [(name, schema)]) value) :
    Decided (draft7 booleanChecks) resolve q.1 q.2 := by
  rw [draft7_parts] at hq
  obtain ⟨property, -, hfield, -⟩ := mem_parts_properties.1 hq
  rw [← (field?_singleton hfield).2]
  exact h q.2

lemma decided_fieldSchema {name : String}
    (h : ∀ item, Decided (draft7 booleanChecks) resolve schema item) :
    Decided (draft7 booleanChecks) resolve (fieldSchema name schema) value := by
  rw [decided_object_iff rfl rfl]
  intro keyword argument hfield q hq
  obtain ⟨rfl, rfl⟩ := field?_singleton hfield
  exact decided_property h hq

end Decided

section Search

variable {value : Json}

/-- A summary is looked up in the definitions. -/
lemma decided_summaryVariant (found : Bool) :
    Decided (draft7 booleanChecks) (definitionAt searchDefinitions)
      (summaryVariant (if found then "found" else "missed")) value := by
  refine decided_fieldSchema fun item => ?_
  have htarget : definitionAt searchDefinitions
      ("#/$defs/" ++ if found then "found" else "missed") =
        some (fieldSchema "found" (constSchema found)) := by
    cases found <;> rfl
  have hdecided : Decided (draft7 booleanChecks) (definitionAt searchDefinitions)
      (fieldSchema "found" (constSchema found)) item :=
    decided_fieldSchema fun _ => decided_constSchema found
  obtain ⟨verdict, h⟩ := hdecided
  exact ⟨verdict, .ref rfl rfl htarget h⟩

lemma decided_successBranch : Decided (draft7 booleanChecks) (definitionAt searchDefinitions)
    successBranch value := by
  rw [decided_object_iff rfl rfl]
  intro keyword argument hfield q hq
  obtain ⟨pre, post, hfields, -⟩ := List.lookup_eq_some_iff.1 hfield
  have hmem : (keyword, argument) ∈ successBranch.fields := by simp [hfields]
  simp only [successBranch, Json.fields_object, List.mem_cons, Prod.mk.injEq, List.not_mem_nil,
    or_false] at hmem
  rcases hmem with ⟨rfl, rfl⟩ | ⟨rfl, rfl⟩
  · rcases List.mem_pair.1 hq with rfl | rfl
    · exact decided_summaryVariant true
    · exact decided_summaryVariant false
  · exact decided_property (fun _ => decided_constSchema true) hq

lemma decided_searchSchema : Decided (draft7 booleanChecks) (definitionAt searchDefinitions)
    searchSchema value := by
  rw [decided_object_iff rfl rfl]
  intro keyword argument hfield q hq
  obtain ⟨pre, post, hfields, -⟩ := List.lookup_eq_some_iff.1 hfield
  have hmem : (keyword, argument) ∈ searchSchema.fields := by simp [hfields]
  simp only [searchSchema, Json.fields_object, List.mem_cons, Prod.mk.injEq, List.not_mem_nil,
    or_false] at hmem
  rcases hmem with ⟨rfl, rfl⟩ | ⟨rfl, rfl⟩ | ⟨rfl, rfl⟩
  · cases hq
  · rcases List.mem_pair.1 hq with rfl | rfl
    · exact decided_successBranch
    · exact decided_fieldSchema fun _ => decided_constSchema false
  · exact decided_property (fun _ => decided_typeSchema) hq

end Search

/-- The response to a search. -/
def searchResponse (found : Bool) : Json :=
  .object [("ok", .bool true), ("summary", .object [("found", .bool found)])]

/-- A search that found something, and one that failed. -/
def searchCalls : List (String × Json) :=
  [("r", searchResponse true), ("r", .object [("ok", .bool false)])]

/-- After these calls, a search that finds nothing. -/
theorem searchSchema_exact :
    (validateResponse searchRuntime "r" (searchResponse false)
        (cacheAfter searchRuntime searchCalls)).1.code = "SCHEMA_VALIDATION_CONFIG_ERROR" ∨
    ((validateResponse searchRuntime "r" (searchResponse false)
        (cacheAfter searchRuntime searchCalls)).1.ok = true ↔
      Valid (draft7 booleanChecks) (definitionAt searchDefinitions) searchSchema
        (searchResponse false)) :=
  validateResponse_exact searchRuntime faithful_searchRuntime searchCalls "r" _ searchSchema
    searchDefinitions rfl rfl projectable_searchSchema decided_searchSchema

end XdebugFst.Schema
