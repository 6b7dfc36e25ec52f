import XdebugFst.Lib.Text
import XdebugFst.Schema.Merge

/-!
# What a projection accepts

A response leaves one branch of its schema when its discriminating fields rule out the others, and a
branch that is ruled out does not accept the response. The branch that is left is merged into the
schema, with the definitions that it needs.

`mergedSchema_meets` and `attachDefinitionClosure_meets` say that the projection accepts the response
exactly when the whole schema does. Response schemas have the shape that this needs (`Projectable`).
-/

namespace XdebugFst.Schema

open Lib JsonSchema

/-! ### The branches that are left out -/

section Selection

variable {C : Checks} {resolve : String → Option Json} {definitions : Json} {dump : Json → String}

lemma uniqueCandidate_eq_some {possible : Json → Bool} {candidates : List Json}
    {candidate : Json × ℕ} (h : uniqueCandidate possible candidates = some candidate) :
    ∃ pre post, candidates = pre ++ candidate.1 :: post ∧
      candidates[candidate.2]? = some candidate.1 ∧
      ∀ other ∈ pre ++ post, possible other = false := by
  rw [uniqueCandidate] at h
  split at h
  next found hfound =>
    obtain rfl := Option.some.inj h
    obtain ⟨pre, post, hzip, hpre, -, hpost⟩ := List.filter_eq_cons_iff.1 hfound
    refine ⟨pre.map Prod.fst, post.map Prod.fst, ?_, ?_, ?_⟩
    · rw [← List.zipIdx_map_fst 0 candidates, hzip]
      simp
    · have hmem : found ∈ candidates.zipIdx := by simp [hzip]
      exact List.mem_zipIdx_iff_getElem?.1 hmem
    · intro other hother
      rw [← List.map_append] at hother
      obtain ⟨pair, hpair, rfl⟩ := List.mem_map.1 hother
      rcases List.mem_append.1 hpair with hpair | hpair
      · simpa using hpre pair hpair
      · simpa using List.filter_eq_nil_iff.1 hpost pair hpair
  next => cases h

/-- The schema of a field that tells branches apart. -/
structure Discriminating (schema : Json) : Prop where
  noRef : schema.field? "$ref" = none
  const_scalar : ∀ candidate, schema.field? "const" = some candidate → IsScalar candidate
  enum_scalar : ∀ candidates, schema.field? "enum" = some (.array candidates) →
    ∀ candidate ∈ candidates, IsScalar candidate

/-- A value that such a schema accepts is allowed by it. -/
lemma discriminatorAllowsValue_of_valid (hC : C.Lawful) {schema value : Json}
    (h : Discriminating schema) (hvalid : Valid (draft7 C) resolve schema value) :
    discriminatorAllowsValue dump schema value = true := by
  have hholds : ∀ keyword argument, schema.field? keyword = some argument →
      assertion C keyword argument value = true := fun keyword argument hfield =>
    ((valid_object_iff (isObject_of_field? hfield) h.noRef hvalid.decided).1 hvalid keyword argument
      hfield).1
  rw [discriminatorAllowsValue, Bool.and_eq_true]
  constructor
  · split
    next candidate hfield =>
      obtain rfl := hC.equal_scalar _ _ (hholds "const" candidate hfield)
        (Or.inl (h.const_scalar candidate hfield))
      simp
    next => rfl
  · split
    next candidates hfield =>
      obtain ⟨candidate, hmem, hequal⟩ := List.any_eq_true.1 (hholds "enum" _ hfield)
      obtain rfl := hC.equal_scalar _ _ hequal
        (Or.inr (h.enum_scalar candidates hfield candidate hmem))
      exact List.any_eq_true.2 ⟨value, hmem, by simp⟩
    next => rfl

/-- A schema that accepts a value accepts its properties. -/
lemma valid_of_property {schema value argument s item : Json} {name : String}
    (href : schema.field? "$ref" = none) (hvalid : Valid (draft7 C) resolve schema value)
    (hargument : schema.field? "properties" = some argument) (hs : argument.field? name = some s)
    (hitem : value.field? name = some item) : Valid (draft7 C) resolve s item := by
  have hholds : KeywordHolds C resolve schema "properties" argument value :=
    (valid_object_iff (isObject_of_field? hargument) href hvalid.decided).1 hvalid _ _ hargument
  obtain ⟨pre, post, hfields, -⟩ := List.lookup_eq_some_iff.1 hitem
  exact keywordHolds_properties.1 hholds (name, item) (by simp [hfields]) s hs

/-- A branch that accepts a response is possible for it. -/
lemma topResponseBranchPossible_of_valid (hC : C.Lawful) {branch response : Json}
    (href : branch.field? "$ref" = none)
    (hok : ∀ schema, (branch.field? "properties").bind (·.field? "ok") = some schema →
      Discriminating schema)
    (hvalid : Valid (draft7 C) resolve branch response) :
    topResponseBranchPossible dump branch response = true := by
  rw [topResponseBranchPossible]
  split
  next schema value hschema hvalue =>
    obtain ⟨argument, hargument, hs⟩ := Option.bind_eq_some_iff.1 hschema
    exact discriminatorAllowsValue_of_valid hC (hok schema hschema)
      (valid_of_property href hvalid hargument hs hvalue)
  next => rfl

/-- The schema of the summary of a variant. -/
def summarySchema (definitions variant : Json) : Option Json :=
  ((variant.field? "properties").bind (·.field? "summary")).bind (resolveLocalSchema · definitions)

/-- A variant that accepts a response is possible for its summary. -/
lemma summaryVariantPossible_of_valid (hC : C.Lawful) {variant response summary : Json}
    (href : variant.field? "$ref" = none)
    (hsummary : ∀ schema, summarySchema definitions variant = some schema →
      schema.field? "$ref" = none ∧ ∀ field ∈ ["query_mode", "found"], ∀ s,
        (schema.field? "properties").bind (·.field? field) = some s → Discriminating s)
    (hfield : response.field? "summary" = some summary)
    (hvalid : Valid (draft7 C) (definitionAt definitions) variant response) :
    summaryVariantPossible dump variant definitions summary = true := by
  rw [summaryVariantPossible]
  split
  next => rfl
  next schema hschema =>
    obtain ⟨hnoRef, hdiscriminating⟩ := hsummary schema hschema
    obtain ⟨s, hs, hresolved⟩ := Option.bind_eq_some_iff.1 hschema
    obtain ⟨argument, hargument, hs⟩ := Option.bind_eq_some_iff.1 hs
    have hvalid' : Valid (draft7 C) (definitionAt definitions) schema summary :=
      (verdict_resolveLocalSchema hresolved).1 (valid_of_property href hvalid hargument hs hfield)
    rw [List.all_eq_true]
    intro field hmem
    split
    next property value hproperty hvalue =>
      obtain ⟨argument, hargument, hs⟩ := Option.bind_eq_some_iff.1 hproperty
      exact discriminatorAllowsValue_of_valid hC (hdiscriminating field hmem property hproperty)
        (valid_of_property hnoRef hvalid' hargument hs hvalue)
    next => rfl

/-- A choice in which the others are left out is the one that stays. -/
lemma valid_choice_iff {schema value choice : Json} {pre post : List Json}
    (hobject : schema.isObject = true) (href : schema.field? "$ref" = none)
    (hdecided : Decided (draft7 C) resolve schema value)
    (hchoice : schema.field? "oneOf" = some (.array (pre ++ choice :: post)))
    (hother : ∀ other ∈ pre ++ post, ¬ Valid (draft7 C) resolve other value) :
    Valid (draft7 C) resolve schema value ↔ HoldsBut C resolve ["oneOf"] schema value ∧
      Valid (draft7 C) resolve choice value := by
  rw [valid_iff_holdsBut hobject href hdecided, holdsBut_cons (List.not_mem_nil (a := "oneOf"))]
  refine and_congr_right fun _ => ?_
  have hparts : parts C schema.field? "oneOf" (.array (pre ++ choice :: post)) value =
      pre.map (·, value) ++ (choice, value) :: post.map (·, value) := by
    simp [parts]
  have hone : KeywordHolds C resolve schema "oneOf" (.array (pre ++ choice :: post)) value ↔
      Valid (draft7 C) resolve choice value := by
    rw [KeywordHolds, Vocabulary.Holds, draft7_parts, hparts]
    refine (and_iff_right rfl).trans (Mode.one_holds_iff ?_)
    intro q hq
    rw [← List.map_append] at hq
    obtain ⟨other, hmem, rfl⟩ := List.mem_map.1 hq
    exact hother other hmem
  simp [hchoice, hone]

lemma valid_noChoice_iff {schema value : Json} (hobject : schema.isObject = true)
    (href : schema.field? "$ref" = none) (hdecided : Decided (draft7 C) resolve schema value)
    (hchoice : schema.field? "oneOf" = none) :
    Valid (draft7 C) resolve schema value ↔ HoldsBut C resolve ["oneOf"] schema value := by
  rw [valid_iff_holdsBut hobject href hdecided, holdsBut_cons (List.not_mem_nil (a := "oneOf")),
    hchoice]
  simp

end Selection

/-! ### The projection -/

section Projected

variable {C : Checks} {definitions source response : Json} {dump : Json → String}

/-- The schemas that a schema chooses from. -/
def choices (schema : Json) : List Json := ((schema.field? "oneOf").map items).getD []

/-- The shape of response schemas. -/
structure Projectable (C : Checks) (definitions source : Json) : Prop where
  object : source.isObject = true
  noRef : source.field? "$ref" = none
  top : ∀ branch ∈ choices source, Mergeable definitions (withoutChoice source) branch
  ok : ∀ branch ∈ choices source, ∀ schema,
    (branch.field? "properties").bind (·.field? "ok") = some schema → Discriminating schema
  variant : ∀ branch ∈ choices source, ∀ variant ∈ choices branch, Mergeable definitions
    (applySelectedResponseBranch C definitions (withoutChoice source) branch) variant
  flat : ∀ branch ∈ choices source, ∀ variant ∈ choices branch, variant.field? "oneOf" = none
  summary : ∀ branch ∈ choices source, ∀ variant ∈ choices branch, ∀ schema,
    summarySchema definitions variant = some schema → schema.field? "$ref" = none ∧
      ∀ field ∈ ["query_mode", "found"], ∀ s,
        (schema.field? "properties").bind (·.field? field) = some s → Discriminating s

/-- The projection without its definitions. -/
def mergedSchema (C : Checks) (definitions source : Json) (selection : Selection) : Json :=
  let projected := applySelectedResponseBranch C definitions (withoutChoice source) selection.top.1
  match selection.nested with
  | some nested => applySelectedResponseBranch C definitions projected nested.1
  | none => projected

lemma projectedSchema_eq (selection : Selection) : projectedSchema C source definitions selection =
    attachDefinitionClosure (mergedSchema C definitions source selection) definitions := rfl

lemma isObject_withoutChoice (h : source.isObject = true) :
    (withoutChoice source).isObject = true := by
  rw [withoutChoice, Json.isObject_erase, Json.isObject_erase, h]

lemma field?_withoutChoice_ref (h : source.field? "$ref" = none) :
    (withoutChoice source).field? "$ref" = none := by
  rw [withoutChoice, Json.field?_erase (by decide), Json.field?_erase (by decide), h]

/-- The schema without its choice says the rest. -/
lemma withoutChoice_decided {resolve : String → Option Json} (hobject : source.isObject = true)
    (href : source.field? "$ref" = none) (h : Decided (draft7 C) resolve source response) :
    Decided (draft7 C) resolve (withoutChoice source) response ∧
      (Valid (draft7 C) resolve (withoutChoice source) response ↔
        HoldsBut C resolve ["oneOf"] source response) := by
  have hdefs : ∀ argument, KeywordHolds C resolve source "$defs" argument response := fun argument =>
    ⟨rfl, fun q hq => by cases hq⟩
  rw [holdsBut_cons (show "$defs" ∉ ["oneOf"] by decide), and_iff_left fun argument _ => hdefs argument]
  refine without_decided hobject (isObject_withoutChoice hobject) href ?_ ?_ ?_ h
  · intro keyword hmem
    rcases List.mem_pair.1 hmem with rfl | rfl
    · rw [withoutChoice, Json.field?_erase (by decide), field?_erase_self]
    · rw [withoutChoice, field?_erase_self]
  · intro keyword hmem
    rw [List.mem_pair, not_or] at hmem
    rw [withoutChoice, Json.field?_erase hmem.2, Json.field?_erase hmem.1]
  · intro keyword argument hmem hfield
    refine parts_congr (fun _ name => ?_) ?_ ?_ <;>
      simp [withoutChoice, declared, Json.field?_erase]

/-- What a selection is. -/
lemma selectUniqueResponseBranch_eq_some (hdefinitions : source.field? "$defs" = some definitions)
    {selection : Selection}
    (h : selectUniqueResponseBranch dump source response = some selection) :
    ∃ branches, source.field? "oneOf" = some (.array branches) ∧
      uniqueCandidate (topResponseBranchPossible dump · response) branches = some selection.top ∧
      ((selection.nested = none ∧ selection.top.1.field? "oneOf" = none) ∨
        ∃ variants summary nested, selection.nested = some nested ∧
          selection.top.1.field? "oneOf" = some (.array variants) ∧
          response.field? "summary" = some summary ∧
          uniqueCandidate (summaryVariantPossible dump · definitions summary) variants =
            some nested) := by
  rw [selectUniqueResponseBranch] at h
  split at h
  next branches fields _ hbranches hfields =>
    obtain rfl := Option.some.inj (hdefinitions.symm.trans hfields)
    refine ⟨branches, hbranches, ?_⟩
    split at h
    next => cases h
    next top htop =>
      split at h
      next hnone =>
        cases h
        exact ⟨htop, Or.inl ⟨rfl, hnone⟩⟩
      next variants summary hvariants hsummary =>
        obtain ⟨nested, hnested, rfl⟩ := Option.map_eq_some_iff.1 h
        exact ⟨htop, Or.inr ⟨variants, _, nested, rfl, hvariants, hsummary, hnested⟩⟩
      next => cases h
  next => cases h

lemma mem_choices {schema choice : Json} {all : List Json}
    (h : schema.field? "oneOf" = some (.array all)) (hmem : choice ∈ all) :
    choice ∈ choices schema := by
  simp [choices, h, hmem]

/-- A schema whose other choices are not possible is itself without its choice, and the choice. -/
lemma valid_unique_iff {schema value : Json} {all : List Json} {chosen : Json × ℕ}
    {possible : Json → Bool} {resolve : String → Option Json} (hobject : schema.isObject = true)
    (href : schema.field? "$ref" = none) (hdecided : Decided (draft7 C) resolve schema value)
    (hchoice : schema.field? "oneOf" = some (.array all))
    (hunique : uniqueCandidate possible all = some chosen)
    (hpossible : ∀ choice ∈ all, Valid (draft7 C) resolve choice value → possible choice = true) :
    chosen.1 ∈ all ∧ Decided (draft7 C) resolve chosen.1 value ∧
      (Valid (draft7 C) resolve schema value ↔ HoldsBut C resolve ["oneOf"] schema value ∧
        Valid (draft7 C) resolve chosen.1 value) := by
  obtain ⟨pre, post, rfl, -, hother⟩ := uniqueCandidate_eq_some hunique
  have hmem : chosen.1 ∈ pre ++ chosen.1 :: post := by simp
  refine ⟨hmem, ?_, valid_choice_iff hobject href hdecided hchoice fun other hmem hvalid => ?_⟩
  · refine (decided_object_iff hobject href).1 hdecided _ _ hchoice (chosen.1, value) ?_
    exact List.mem_map.2 ⟨chosen.1, hmem, rfl⟩
  · have hall : other ∈ pre ++ chosen.1 :: post := by
      rcases List.mem_append.1 hmem with hmem | hmem
      · exact List.mem_append_left _ hmem
      · exact List.mem_append_right _ (List.mem_cons_of_mem _ hmem)
    exact absurd (hpossible other hall hvalid) (by simp [hother other hmem])

lemma mergedSchema_object (hobject : source.isObject = true) (href : source.field? "$ref" = none)
    (selection : Selection) : (mergedSchema C definitions source selection).isObject = true ∧
      (mergedSchema C definitions source selection).field? "$ref" = none := by
  have hobject' := isObject_withoutChoice hobject
  have href' := field?_withoutChoice_ref href
  rw [mergedSchema]
  cases selection.nested with
  | none => exact ⟨isObject_apply hobject', field?_apply_ref href'⟩
  | some nested =>
      exact ⟨isObject_apply (isObject_apply hobject'), field?_apply_ref (field?_apply_ref href')⟩

/-- The merged schema accepts what the whole schema accepts. -/
theorem mergedSchema_meets (hC : C.Lawful) (hshape : Projectable C definitions source)
    (hdefinitions : source.field? "$defs" = some definitions) {selection : Selection}
    (hselection : selectUniqueResponseBranch dump source response = some selection)
    (h : Decided (draft7 C) (definitionAt definitions) source response) :
    Decided (draft7 C) (definitionAt definitions) (mergedSchema C definitions source selection)
        response ∧
      (Valid (draft7 C) (definitionAt definitions) (mergedSchema C definitions source selection)
        response ↔ Valid (draft7 C) (definitionAt definitions) source response) := by
  obtain ⟨branches, hbranches, htop, hnested⟩ :=
    selectUniqueResponseBranch_eq_some hdefinitions hselection
  obtain ⟨hmem, hdecided, hvalid⟩ := valid_unique_iff hshape.object hshape.noRef h hbranches htop
    fun branch hbranch => topResponseBranchPossible_of_valid hC
      (hshape.top branch (mem_choices hbranches hbranch)).selected_noRef
      (hshape.ok branch (mem_choices hbranches hbranch))
  have hchoice := mem_choices hbranches hmem
  have hmerge := hshape.top _ hchoice
  obtain ⟨hrest, hvalidRest⟩ := withoutChoice_decided hshape.object hshape.noRef h
  have hobject := isObject_withoutChoice hshape.object
  have href := field?_withoutChoice_ref hshape.noRef
  obtain ⟨happlied, hvalidApplied⟩ := apply_meets hC hobject href hmerge hrest hdecided
  rw [hvalid, ← hvalidRest]
  rcases hnested with ⟨hnone, hflat⟩ | ⟨variants, summary, nested, hsome, hvariants, hsummary,
    hunique⟩
  · rw [mergedSchema, hnone]
    refine ⟨happlied, hvalidApplied.trans (and_congr_right fun _ => ?_)⟩
    exact (valid_noChoice_iff hmerge.selected_object hmerge.selected_noRef hdecided hflat).symm
  · obtain ⟨hmem', hdecided', hvalid'⟩ := valid_unique_iff hmerge.selected_object
      hmerge.selected_noRef hdecided hvariants hunique fun variant hvariant =>
        summaryVariantPossible_of_valid hC
          (hshape.variant _ hchoice variant (mem_choices hvariants hvariant)).selected_noRef
          (hshape.summary _ hchoice variant (mem_choices hvariants hvariant)) hsummary
    have hmerge' := hshape.variant _ hchoice _ (mem_choices hvariants hmem')
    obtain ⟨happlied', hvalidApplied'⟩ := apply_meets hC (isObject_apply hobject)
      (field?_apply_ref href) hmerge' happlied hdecided'
    rw [mergedSchema, hsome]
    refine ⟨happlied', hvalidApplied'.trans ?_⟩
    rw [hvalidApplied, hvalid', and_assoc]
    refine and_congr_right fun _ => and_congr_right fun _ => ?_
    exact (valid_noChoice_iff hmerge'.selected_object hmerge'.selected_noRef hdecided'
      (hshape.flat _ hchoice _ (mem_choices hvariants hmem'))).symm

end Projected

/-! ### The definitions of the projection -/

section Definitions

variable {C : Checks} {definitions projected schema value : Json}

lemma mem_refs_of_ref {reference : String}
    (h : schema.field? "$ref" = some (.string reference))
    (hname : localDefinitionName reference ≠ "") :
    localDefinitionName reference ∈ collectLocalDefinitionRefs schema := by
  cases schema with
  | object fields =>
      rw [Json.field?_object] at h
      rw [collectLocalDefinitionRefs, Finset.mem_union, ownDefinitionRef, h]
      simp [hname]
  | _ => cases h

/-- What is not about values can be set. -/
lemma setField_silent {resolve : String → Option Json} {name : String} (argument : Json)
    (hsilent : name ∈ ["$defs", "$schema"]) (hobject : projected.isObject = true)
    (href : projected.field? "$ref" = none) (h : Decided (draft7 C) resolve projected value) :
    Decided (draft7 C) resolve (setField name argument projected) value ∧
      (Valid (draft7 C) resolve (setField name argument projected) value ↔
        Valid (draft7 C) resolve projected value) := by
  have hsays : ∀ schema argument, KeywordHolds C resolve schema name argument value := by
    rcases List.mem_pair.1 hsilent with rfl | rfl <;>
      exact fun schema argument => ⟨rfl, fun q hq => by cases hq⟩
  have hne : ∀ keyword, keyword ∈ ["$ref", "properties", "patternProperties", "if", "items"] →
      keyword ≠ name := by
    rcases List.mem_pair.1 hsilent with rfl | rfl <;> decide
  have hmeets : Decided (draft7 C) resolve (setField name argument projected) value ∧
      (Valid (draft7 C) resolve (setField name argument projected) value ↔
        Valid (draft7 C) resolve projected value ∧ True) := by
    refine setField_meets hobject href (hne "$ref" (by decide)).symm ?_ h ?_ ?_
    · intro keyword argument' _ _
      refine parts_congr (fun _ other => ?_) (field?_setField_of_ne (hne "if" (by decide)) _ _)
        (field?_setField_of_ne (hne "items" (by decide)) _ _)
      rw [declared, declared, field?_setField_of_ne (hne "properties" (by decide)),
        field?_setField_of_ne (hne "patternProperties" (by decide))]
    · rcases List.mem_pair.1 hsilent with rfl | rfl <;> exact fun q hq => by cases hq
    · exact ⟨fun _ => ⟨fun argument' _ => hsays _ _, trivial⟩, fun _ => hsays _ _⟩
  exact ⟨hmeets.1, hmeets.2.trans (and_iff_left trivial)⟩

/-- The definitions that the projection needs are enough for it. -/
lemma attachDefinitionClosure_meets (hobject : projected.isObject = true)
    (href : projected.field? "$ref" = none)
    (h : attachDefinitionClosure projected definitions = .ok schema)
    (hdecided : Decided (draft7 C) (definitionAt definitions) projected value) :
    ∃ closed, schema.field? "$defs" = some closed ∧ schema.isObject = true ∧
      schema.field? "$ref" = none ∧ Decided (draft7 C) (definitionAt closed) schema value ∧
      (Valid (draft7 C) (definitionAt closed) schema value ↔
        Valid (draft7 C) (definitionAt definitions) projected value) := by
  have hinit : Closing definitions.field? collectLocalDefinitionRefs
      (collectLocalDefinitionRefs projected) (collectLocalDefinitionRefs projected)
      {name | ((OrderedMap.empty : OrderedMap String Json).find? name).isSome} := by
    have hempty : {name | ((OrderedMap.empty : OrderedMap String Json).find? name).isSome} = ∅ := by
      simp
    rw [hempty]
    exact Closing.init
  rcases closeDefinitions_spec hinit (by simp) with ⟨name, hrun, -⟩ | ⟨selected, hrun, hclosed, hvalues⟩
  · rw [attachDefinitionClosure, hrun] at h
    cases h
  rw [attachDefinitionClosure, hrun] at h
  obtain rfl : setField "$defs" (.object selected.entries) projected = schema := Except.ok.inj h
  refine ⟨.object selected.entries, field?_setField_self _ _ _, rfl,
    (field?_setField_of_ne (by decide) _ _).trans href, ?_⟩
  -- the same verdict with the definitions that are attached
  have hagree : ∀ verdict, Verdict (draft7 C) (definitionAt definitions) projected value verdict →
      Verdict (draft7 C) (definitionAt (.object selected.entries)) projected value verdict := by
    intro verdict hverdict
    refine hverdict.of_agree (fun schema => ∀ name ∈ collectLocalDefinitionRefs schema,
      NeedsDefinition projected definitions name) ?_ ?_ fun name hname => Needs.of_mem hname
    · intro schema reference target hreached href hresolve
      rw [definitionAt] at hresolve
      split_ifs at hresolve with hname
      have hneeds := hreached _ (mem_refs_of_ref href hname)
      obtain ⟨definition, hdefinition⟩ := Option.isSome_iff_exists.1 (hclosed.mem_iff.2 hneeds)
      cases (hvalues _ _ hdefinition).symm.trans hresolve
      refine ⟨?_, fun name hmem => hneeds.next hresolve hmem⟩
      rw [definitionAt, if_neg hname]
      exact (lookup_entries _ _).trans hdefinition
    · exact fun schema keyword argument item hreached hfield q hq name hmem =>
        hreached name (refs_of_mem_parts hfield hq hmem)
  obtain ⟨verdict, hverdict⟩ := hdecided
  obtain ⟨hset, hvalid⟩ := setField_silent (C := C) (.object selected.entries)
    (show "$defs" ∈ ["$defs", "$schema"] by decide) hobject href ⟨verdict, hagree verdict hverdict⟩
  refine ⟨hset, hvalid.trans ?_⟩
  rw [← (hagree verdict hverdict).eq_true_iff, ← hverdict.eq_true_iff]

end Definitions

end XdebugFst.Schema
