import XdebugFst.Schema.Projection

/-!
# Merging a branch into a schema

`apply_selected_response_branch` merges the properties of a branch, its required names and the rest
of it. Each of the three sets one keyword of the schema, so that the schema says what it said before
and what the branch says there (`setField_meets`). A property that offers the one of the branch as an
alternative is replaced by it, and any other is joined with it.

`apply_meets` says that a branch that is merged into a schema stands for both, when they fit
together (`Mergeable`).
-/

namespace XdebugFst.Schema

open Lib JsonSchema

/-! ### Replacing one keyword -/

section Keywords

variable {C : Checks} {resolve : String → Option Json} {projected selected value argument : Json}
  {name : String}

lemma draft7_parts (C : Checks) : (draft7 C).parts = parts C := rfl

lemma field?_setField_self (name : String) (value projected : Json) :
    (setField name value projected).field? name = some value := lookup_setSorted_self _ _ _

lemma field?_setField_of_ne {other : String} (h : other ≠ name) (value projected : Json) :
    (setField name value projected).field? other = projected.field? other :=
  lookup_setSorted_of_ne h _ _

/-- A keyword of a schema holds for a value. -/
def KeywordHolds (C : Checks) (resolve : String → Option Json) (schema : Json) (keyword : String)
    (argument value : Json) : Prop :=
  (draft7 C).Holds (fun q => Valid (draft7 C) resolve q.1 q.2) schema.field? keyword argument value

/-- All keywords of a schema hold for a value, but for some of them. -/
def HoldsBut (C : Checks) (resolve : String → Option Json) (but : List String)
    (schema value : Json) : Prop :=
  ∀ keyword argument, keyword ∉ but → schema.field? keyword = some argument →
    KeywordHolds C resolve schema keyword argument value

lemma valid_iff_holdsBut (hobject : selected.isObject = true)
    (href : selected.field? "$ref" = none) (h : Decided (draft7 C) resolve selected value) :
    Valid (draft7 C) resolve selected value ↔ HoldsBut C resolve [] selected value := by
  rw [valid_object_iff hobject href h]
  exact forall₂_congr fun keyword argument => by simp [KeywordHolds]

lemma holdsBut_cons {name : String} {but : List String} (hname : name ∉ but) (schema : Json) :
    HoldsBut C resolve but schema value ↔ HoldsBut C resolve (name :: but) schema value ∧
      ∀ argument, schema.field? name = some argument →
        KeywordHolds C resolve schema name argument value := by
  constructor
  · intro h
    exact ⟨fun keyword argument hbut => h keyword argument fun hmem =>
      hbut (List.mem_cons_of_mem _ hmem), fun argument => h name argument hname⟩
  · rintro ⟨hrest, hargument⟩ keyword argument hbut hfield
    by_cases hkeyword : keyword = name
    · subst hkeyword
      exact hargument argument hfield
    · exact hrest keyword argument (by simp [hkeyword, hbut]) hfield

lemma keywordHolds_congr {schema schema' : Json} {keyword : String}
    (h : parts C schema.field? keyword argument value =
      parts C schema'.field? keyword argument value) :
    KeywordHolds C resolve schema keyword argument value ↔
      KeywordHolds C resolve schema' keyword argument value := by
  rw [KeywordHolds, KeywordHolds, Vocabulary.Holds, Vocabulary.Holds]
  exact and_congr Iff.rfl (by rw [draft7_parts, h])

/-- A schema without some of its keywords says the rest. -/
lemma without_decided {schema rest : Json} {but : List String} (hobject : schema.isObject = true)
    (hrest : rest.isObject = true) (href : schema.field? "$ref" = none)
    (hgone : ∀ keyword, keyword ∈ but → rest.field? keyword = none)
    (hsame : ∀ keyword, keyword ∉ but → rest.field? keyword = schema.field? keyword)
    (hparts : ∀ keyword argument, keyword ∉ but → schema.field? keyword = some argument →
      parts C rest.field? keyword argument value = parts C schema.field? keyword argument value)
    (h : Decided (draft7 C) resolve schema value) :
    Decided (draft7 C) resolve rest value ∧
      (Valid (draft7 C) resolve rest value ↔ HoldsBut C resolve but schema value) := by
  have href' : rest.field? "$ref" = none := by
    by_cases hbut : "$ref" ∈ but
    · exact hgone _ hbut
    · rw [hsame _ hbut, href]
  have hdecided : Decided (draft7 C) resolve rest value := by
    rw [decided_object_iff hrest href']
    intro keyword argument hfield q hq
    have hbut : keyword ∉ but := fun hmem => by
      rw [hgone _ hmem] at hfield
      cases hfield
    rw [hsame _ hbut] at hfield
    rw [draft7_parts, hparts _ _ hbut hfield] at hq
    exact (decided_object_iff hobject href).1 h keyword argument hfield q hq
  refine ⟨hdecided, ?_⟩
  rw [valid_iff_holdsBut hrest href' hdecided]
  refine forall₂_congr fun keyword argument => ?_
  by_cases hbut : keyword ∈ but
  · simp [hgone _ hbut, hbut]
  · rw [hsame _ hbut]
    simp only [List.not_mem_nil, not_false_eq_true, true_imp_iff, hbut]
    exact imp_congr_right fun hfield => keywordHolds_congr (hparts _ _ hbut hfield)

/-- A keyword that is set says what it said before and `E`. -/
lemma setField_meets {E : Prop} (hobject : projected.isObject = true)
    (href : projected.field? "$ref" = none) (hname : name ≠ "$ref")
    (hother : ∀ keyword argument', keyword ≠ name → projected.field? keyword = some argument' →
      parts C (setField name argument projected).field? keyword argument' value =
        parts C projected.field? keyword argument' value)
    (hdecided : Decided (draft7 C) resolve projected value)
    (hparts : ∀ q ∈ parts C (setField name argument projected).field? name argument value,
      Decided (draft7 C) resolve q.1 q.2)
    (hE : KeywordHolds C resolve (setField name argument projected) name argument value ↔
      (∀ argument', projected.field? name = some argument' →
        KeywordHolds C resolve projected name argument' value) ∧ E) :
    Decided (draft7 C) resolve (setField name argument projected) value ∧
      (Valid (draft7 C) resolve (setField name argument projected) value ↔
        Valid (draft7 C) resolve projected value ∧ E) := by
  have href' : (setField name argument projected).field? "$ref" = none := by
    rw [field?_setField_of_ne hname.symm, href]
  have hdecided' : Decided (draft7 C) resolve (setField name argument projected) value := by
    rw [decided_object_iff rfl href']
    intro keyword argument' hfield q hq
    by_cases hkeyword : keyword = name
    · subst hkeyword
      rw [field?_setField_self] at hfield
      cases hfield
      exact hparts q hq
    · rw [field?_setField_of_ne hkeyword] at hfield
      refine (decided_object_iff hobject href).1 hdecided keyword argument' hfield q ?_
      rw [draft7_parts, ← hother keyword argument' hkeyword hfield]
      exact hq
  refine ⟨hdecided', ?_⟩
  have hrest : HoldsBut C resolve [name] (setField name argument projected) value ↔
      HoldsBut C resolve [name] projected value := by
    refine forall₂_congr fun keyword argument' => imp_congr_right fun hbut => ?_
    have hkeyword : keyword ≠ name := by simpa using hbut
    rw [field?_setField_of_ne hkeyword]
    exact imp_congr_right fun hfield =>
      keywordHolds_congr (hother keyword argument' hkeyword hfield)
  rw [valid_iff_holdsBut rfl href' hdecided', valid_iff_holdsBut hobject href hdecided,
    holdsBut_cons List.not_mem_nil, holdsBut_cons (List.not_mem_nil (a := name)) projected, hrest,
    and_assoc]
  refine and_congr_right fun _ => ?_
  simpa [field?_setField_self] using hE

end Keywords

/-! ### Required properties -/

/-- Values that are equal to no others. -/
def IsScalar : Json → Prop
  | .null | .bool _ | .string _ => True
  | _ => False

/-- `operator==` compares scalars by themselves, and equal schemas have the same verdicts. -/
structure Checks.Lawful (C : Checks) : Prop where
  equal_scalar : ∀ a b, C.equal a b = true → IsScalar a ∨ IsScalar b → a = b
  equal_schema : ∀ resolve a b value verdict, C.equal a b = true →
    (Verdict (draft7 C) resolve a value verdict ↔ Verdict (draft7 C) resolve b value verdict)

section Required

variable {C : Checks} {resolve : String → Option Json} {projected selected value argument : Json}

lemma hasRequired_iff : hasRequired argument value = true ↔
    (value.isObject = true → ∀ name, .string name ∈ items argument → value.contains name = true) := by
  rw [hasRequired, Bool.or_eq_true, List.all_eq_true, Bool.not_eq_true', ← Bool.not_eq_true,
    ← imp_iff_not_or]
  refine imp_congr_right fun _ => ⟨fun h name hmem => h _ hmem, fun h field hmem => ?_⟩
  cases field with
  | string name => exact h name hmem
  | _ => rfl

lemma keywordHolds_required {schema : Json} :
    KeywordHolds C resolve schema "required" argument value ↔ hasRequired argument value = true := by
  rw [KeywordHolds, Vocabulary.Holds, draft7_parts]
  simp [draft7, assertion, mode, parts, Mode.Holds]

/-- The merged names are the names of both. -/
lemma mem_mergeRequired (hC : C.Lawful) (name : String) (fields required : List Json) :
    .string name ∈ fields.foldl (fun required field => if required.any (C.equal · field) then
      required else required ++ [field]) required ↔
      .string name ∈ required ∨ .string name ∈ fields := by
  induction fields generalizing required with
  | nil => simp
  | cons field rest ih =>
      rw [List.foldl_cons, ih, List.mem_cons]
      split_ifs with hany
      · obtain ⟨existing, hmem, hequal⟩ := List.any_eq_true.1 hany
        have hfield : field = .string name → .string name ∈ required := by
          rintro rfl
          rwa [hC.equal_scalar _ _ hequal (Or.inr trivial)] at hmem
        constructor
        · tauto
        · rintro (h | rfl | h)
          · exact Or.inl h
          · exact Or.inl (hfield rfl)
          · exact Or.inr h
      · rw [List.mem_append, List.mem_singleton]
        tauto

lemma items_getD_map (o : Option Json) {name : String} :
    .string name ∈ (o.map items).getD [] ↔ ∃ x, o = some x ∧ .string name ∈ items x := by
  cases o <;> simp

/-- The merged list is required when both are. -/
lemma mergeRequiredFields_meets (selected : Json) (hC : C.Lawful) (hobject : projected.isObject = true)
    (href : projected.field? "$ref" = none)
    (hdecided : Decided (draft7 C) resolve projected value) :
    Decided (draft7 C) resolve (mergeRequiredFields C projected selected) value ∧
      (Valid (draft7 C) resolve (mergeRequiredFields C projected selected) value ↔
        Valid (draft7 C) resolve projected value ∧ ∀ argument,
          selected.field? "required" = some argument →
            KeywordHolds C resolve selected "required" argument value) := by
  rw [mergeRequiredFields]
  cases hfield : selected.field? "required" with
  | none => simpa using hdecided
  | some argument =>
      cases argument with
      | array fields =>
          refine setField_meets hobject href (by decide) ?_ hdecided ?_ ?_
          · intro keyword argument' hkeyword _
            refine parts_congr (fun _ name => ?_) ?_ ?_ <;>
              simp only [declared, field?_setField_of_ne, ne_eq, String.reduceEq, not_false_eq_true]
          · intro q hq
            simp [parts] at hq
          · simp only [keywordHolds_required, hasRequired_iff]
            have hmem := fun name => (mem_mergeRequired hC name fields _).trans
              (or_congr_left (items_getD_map (projected.field? "required")))
            constructor
            · intro h
              refine ⟨fun x hx hvalue name hname => h hvalue name ((hmem name).2
                (Or.inl ⟨x, hx, hname⟩)), ?_⟩
              rintro _ ⟨⟩ hvalue name hname
              exact h hvalue name ((hmem name).2 (Or.inr hname))
            · rintro ⟨hprojected, hselected⟩ hvalue name hname
              rcases (hmem name).1 hname with ⟨x, hx, hname⟩ | hname
              · exact hprojected x hx hvalue name hname
              · exact hselected _ rfl hvalue name hname
      | _ =>
          refine ⟨hdecided, (and_iff_left ?_).symm⟩
          rintro _ ⟨⟩
          rw [keywordHolds_required, hasRequired_iff]
          simp [items]

end Required

/-! ### The rest of a branch -/

section Residual

variable {C : Checks} {resolve : String → Option Json} {projected selected value argument : Json}

lemma field?_erase_self (name : String) (schema : Json) : (schema.erase name).field? name = none := by
  cases schema with
  | object fields =>
      rw [Json.erase, Json.field?_object, List.lookup_eq_none_iff]
      intro field hfield
      have hne : field.1 ≠ name := by simpa using (List.mem_filter.1 hfield).2
      exact bne_iff_ne.2 hne.symm
  | _ => rfl

/-- What a branch says beside its properties and its choice. -/
def residualBut : List String := ["properties", "required", "oneOf"]

lemma field?_residual {keyword : String} (h : keyword ∉ residualBut) :
    (residual selected).field? keyword = selected.field? keyword := by
  simp only [residualBut, List.mem_cons, List.not_mem_nil, or_false, not_or] at h
  rw [residual, Json.field?_erase h.2.2, Json.field?_erase h.2.1, Json.field?_erase h.1]

lemma field?_residual_of_mem {keyword : String} (h : keyword ∈ residualBut) :
    (residual selected).field? keyword = none := by
  simp only [residualBut, List.mem_cons, List.not_mem_nil, or_false] at h
  rcases h with rfl | rfl | rfl
  · rw [residual, Json.field?_erase (by decide), Json.field?_erase (by decide), field?_erase_self]
  · rw [residual, Json.field?_erase (by decide), field?_erase_self]
  · rw [residual, field?_erase_self]

lemma parts_residual {keyword : String} (hadditional : selected.field? "additionalProperties" = none)
    (hfield : selected.field? keyword = some argument) :
    parts C (residual selected).field? keyword argument value =
      parts C selected.field? keyword argument value := by
  refine parts_congr ?_ (field?_residual (by decide)) (field?_residual (by decide))
  rintro rfl
  rw [hadditional] at hfield
  cases hfield

/-- The rest of a branch says what the branch says beside. -/
lemma residual_decided (hobject : selected.isObject = true) (href : selected.field? "$ref" = none)
    (hadditional : selected.field? "additionalProperties" = none)
    (h : Decided (draft7 C) resolve selected value) :
    Decided (draft7 C) resolve (residual selected) value ∧
      (Valid (draft7 C) resolve (residual selected) value ↔
        HoldsBut C resolve residualBut selected value) := by
  refine without_decided hobject ?_ href (fun _ => field?_residual_of_mem) (fun _ => field?_residual)
    (fun keyword argument _ => parts_residual hadditional) h
  rw [residual, Json.isObject_erase, Json.isObject_erase, Json.isObject_erase, hobject]

lemma keywordHolds_allOf {schema : Json} :
    KeywordHolds C resolve schema "allOf" argument value ↔
      items argument ≠ [] ∧ ∀ s ∈ items argument, Valid (draft7 C) resolve s value := by
  rw [KeywordHolds, Vocabulary.Holds, draft7_parts]
  simp [draft7, assertion, mode, parts, Mode.Holds]

/-- The rest of a branch is one more schema that all values satisfy. -/
lemma applyResidual_meets (hobject : projected.isObject = true)
    (href : projected.field? "$ref" = none)
    (hallOf : ∀ argument, projected.field? "allOf" = some argument → items argument ≠ [])
    (hselected : selected.isObject = true) (hselectedRef : selected.field? "$ref" = none)
    (hadditional : selected.field? "additionalProperties" = none)
    (hdecided : Decided (draft7 C) resolve projected value)
    (h : Decided (draft7 C) resolve selected value) :
    Decided (draft7 C) resolve (applyResidual projected selected) value ∧
      (Valid (draft7 C) resolve (applyResidual projected selected) value ↔
        Valid (draft7 C) resolve projected value ∧
          HoldsBut C resolve residualBut selected value) := by
  obtain ⟨hresidual, hvalid⟩ := residual_decided hselected hselectedRef hadditional h
  rw [← hvalid, applyResidual]
  split_ifs with hempty
  · refine ⟨hdecided, (and_iff_left ?_).symm⟩
    rw [hvalid]
    intro keyword argument hbut hfield
    rw [← field?_residual hbut, Json.field?, List.isEmpty_iff.1 hempty] at hfield
    cases hfield
  · refine setField_meets hobject href (by decide) ?_ hdecided ?_ ?_
    · intro keyword argument' hkeyword _
      refine parts_congr (fun _ name => ?_) ?_ ?_ <;>
        simp only [declared, field?_setField_of_ne, ne_eq, String.reduceEq, not_false_eq_true]
    · intro q hq
      obtain ⟨s, hs, rfl⟩ := List.mem_map.1 hq
      rcases List.mem_append.1 hs with hs | hs
      · cases hfield : projected.field? "allOf" with
        | none => simp [hfield] at hs
        | some argument =>
            rw [hfield] at hs
            exact (decided_object_iff hobject href).1 hdecided _ _ hfield (s, value)
              (List.mem_map.2 ⟨s, hs, rfl⟩)
      · obtain rfl := List.mem_singleton.1 hs
        exact hresidual
    · simp only [keywordHolds_allOf]
      cases hfield : projected.field? "allOf" with
      | none => simp
      | some argument => simp [hallOf argument hfield, or_imp, forall_and]

end Residual

/-! ### Properties -/

/-- A schema that offers alternatives says nothing beside them. -/
def anyOfAlone (definitions : Json) : ℕ → Json → Bool
  | 0, _ => true
  | levels + 1, schema =>
      match (resolveLocalSchema schema definitions) with
      | none => true
      | some general =>
          match general.field? "anyOf" with
          | some (.array alternatives) => general.fields.all (fun field => field.1 = "anyOf") &&
              alternatives.all (anyOfAlone definitions levels)
          | _ => true

section Properties

variable {C : Checks} {definitions projected selected value : Json}

lemma isObject_of_field? {schema argument : Json} {name : String}
    (h : schema.field? name = some argument) : schema.isObject = true := by
  cases schema with
  | object fields => rfl
  | _ => cases h

lemma verdict_resolveLocalSchema {schema target : Json} {verdict : Bool}
    (h : resolveLocalSchema schema definitions = some target) :
    Verdict (draft7 C) (definitionAt definitions) schema value verdict ↔
      Verdict (draft7 C) (definitionAt definitions) target value verdict := by
  rw [resolveLocalSchema] at h
  split at h
  next reference href => exact verdict_ref_iff (isObject_of_field? href) href h
  next => rw [Option.some.inj h]

/-- What an alternative accepts is accepted by the schema that offers it. -/
lemma valid_of_containsAlternative (hC : C.Lawful) {levels : ℕ} {general selected : Json}
    (h : schemaContainsAlternative C definitions levels general selected = true)
    (halone : anyOfAlone definitions levels general = true)
    (hdecided : Decided (draft7 C) (definitionAt definitions) general value)
    (hvalid : Valid (draft7 C) (definitionAt definitions) selected value) :
    Valid (draft7 C) (definitionAt definitions) general value := by
  induction levels generalizing general with
  | zero => cases h
  | succ levels ih =>
      rw [schemaContainsAlternative] at h
      split at h
      next target selectedTarget htarget hselected =>
        rw [Valid, verdict_resolveLocalSchema htarget]
        replace hdecided : Decided (draft7 C) (definitionAt definitions) target value :=
          hdecided.imp fun verdict => (verdict_resolveLocalSchema htarget).1
        rw [anyOfAlone, htarget] at halone
        dsimp only at halone
        rcases Bool.or_eq_true _ _ ▸ h with hequal | hany
        · rw [hC.equal_schema _ _ _ _ _ hequal, ← verdict_resolveLocalSchema hselected]
          exact hvalid
        split at hany
        next alternatives hanyOf =>
          rw [hanyOf] at halone
          simp only [Bool.and_eq_true, List.all_eq_true] at halone
          obtain ⟨alternative, hmem, hcontains⟩ := List.any_eq_true.1 hany
          have hobject := isObject_of_field? hanyOf
          have honly : ∀ keyword argument, target.field? keyword = some argument →
              keyword = "anyOf" := by
            intro keyword argument hfield
            obtain ⟨pre, post, hfields, -⟩ := List.lookup_eq_some_iff.1 hfield
            simpa using halone.1 (keyword, argument) (by simp [hfields])
          have href : target.field? "$ref" = none := by
            by_contra hsome
            obtain ⟨argument, hfield⟩ := Option.ne_none_iff_exists'.1 hsome
            exact absurd (honly _ _ hfield) (by decide)
          have hpart := (decided_object_iff hobject href).1 hdecided _ _ hanyOf (alternative, value)
            (List.mem_map.2 ⟨alternative, hmem, rfl⟩)
          refine (valid_object_iff hobject href hdecided).2 fun keyword argument hfield => ?_
          obtain rfl := honly keyword argument hfield
          cases hanyOf.symm.trans hfield
          exact ⟨rfl, (alternative, value), List.mem_map.2 ⟨alternative, hmem, rfl⟩,
            ih hcontains (halone.2 alternative hmem) hpart⟩
        next => cases hany
      next => cases h

lemma field?_singleton {name keyword : String} {argument argument' : Json}
    (h : (Json.object [(name, argument)]).field? keyword = some argument') :
    keyword = name ∧ argument = argument' := by
  by_cases hkeyword : keyword = name
  · subst hkeyword
    exact ⟨rfl, by simpa using h⟩
  · rw [Json.field?_object, List.lookup_cons, beq_false_of_ne hkeyword] at h
    cases h

/-- A schema that wants two schemas to hold. -/
lemma both_meets {resolve : String → Option Json} {a b : Json}
    (ha : Decided (draft7 C) resolve a value) (hb : Decided (draft7 C) resolve b value) :
    Decided (draft7 C) resolve (.object [("allOf", .array [a, b])]) value ∧
      (Valid (draft7 C) resolve (.object [("allOf", .array [a, b])]) value ↔
        Valid (draft7 C) resolve a value ∧ Valid (draft7 C) resolve b value) := by
  have hdecided : Decided (draft7 C) resolve (.object [("allOf", .array [a, b])]) value := by
    rw [decided_object_iff rfl rfl]
    intro keyword argument hfield q hq
    obtain ⟨rfl, rfl⟩ := field?_singleton hfield
    rcases List.mem_pair.1 hq with rfl | rfl
    · exact ha
    · exact hb
  refine ⟨hdecided, (valid_object_iff rfl rfl hdecided).trans ⟨fun h => ?_, ?_⟩⟩
  · simpa using (keywordHolds_allOf.1 (h "allOf" _ rfl)).2
  · rintro ⟨ha, hb⟩ keyword argument hfield
    obtain ⟨rfl, rfl⟩ := field?_singleton hfield
    exact keywordHolds_allOf.2 ⟨by simp, by simp [ha, hb]⟩

/-- A merged property accepts what both schemas accept. -/
lemma mergedProperty_meets (hC : C.Lawful) {general : Option Json} {selected : Json}
    (halone : ∀ g, general = some g → anyOfAlone definitions 33 g = true)
    (hgeneral : ∀ g, general = some g → Decided (draft7 C) (definitionAt definitions) g value)
    (hselected : Decided (draft7 C) (definitionAt definitions) selected value) :
    Decided (draft7 C) (definitionAt definitions) (mergedProperty C definitions general selected)
        value ∧
      (Valid (draft7 C) (definitionAt definitions) (mergedProperty C definitions general selected)
        value ↔ (∀ g, general = some g → Valid (draft7 C) (definitionAt definitions) g value) ∧
          Valid (draft7 C) (definitionAt definitions) selected value) := by
  cases general with
  | none => exact ⟨hselected, by simp [mergedProperty]⟩
  | some g =>
      rw [mergedProperty]
      split_ifs with h
      · refine ⟨hselected, (and_iff_right_of_imp fun hvalid => ?_).symm⟩
        rintro _ ⟨⟩
        exact valid_of_containsAlternative hC h (halone g rfl) (hgeneral g rfl) hvalid
      · simpa using both_meets (hgeneral g rfl) hselected

lemma lookup_mergeProperties {name : String} {properties selected : List (String × Json)}
    (hnodup : (selected.map Prod.fst).Nodup) :
    (mergeProperties C definitions properties selected).lookup name =
      match selected.lookup name with
      | none => properties.lookup name
      | some schema => some (mergedProperty C definitions (properties.lookup name) schema) := by
  induction selected generalizing properties with
  | nil => rfl
  | cons property rest ih =>
      obtain ⟨key, schema⟩ := property
      rw [List.map_cons, List.nodup_cons] at hnodup
      rw [mergeProperties, List.foldl_cons, ← mergeProperties, ih hnodup.2, List.lookup_cons]
      by_cases hname : name = key
      · subst hname
        have hrest : rest.lookup name = none := by
          rw [List.lookup_eq_none_iff]
          rintro field hfield
          exact bne_iff_ne.2 fun heq => hnodup.1 (heq ▸ List.mem_map.2 ⟨field, hfield, rfl⟩)
        simp [hrest, lookup_setSorted_self]
      · rw [beq_false_of_ne hname, lookup_setSorted_of_ne hname]

lemma mem_parts_properties {beside : String → Option Json} {argument : Json} {q : Json × Json} :
    q ∈ parts C beside "properties" argument value ↔ ∃ property ∈ value.fields,
      argument.field? property.1 = some q.1 ∧ property.2 = q.2 := by
  obtain ⟨schema, item⟩ := q
  simp [parts, List.mem_filterMap, Option.map_eq_some_iff]

/-- The properties of a value satisfy the schemas that are given for them. -/
lemma keywordHolds_properties {resolve : String → Option Json} {schema argument : Json} :
    KeywordHolds C resolve schema "properties" argument value ↔
      ∀ property ∈ value.fields, ∀ s, argument.field? property.1 = some s →
        Valid (draft7 C) resolve s property.2 := by
  have hholds : KeywordHolds C resolve schema "properties" argument value ↔
      ∀ q ∈ parts C schema.field? "properties" argument value, Valid (draft7 C) resolve q.1 q.2 :=
    and_iff_right rfl
  rw [hholds]
  constructor
  · exact fun h property hproperty s hs =>
      h (s, property.2) (mem_parts_properties.2 ⟨property, hproperty, hs, rfl⟩)
  · rintro h ⟨s, item⟩ hq
    obtain ⟨property, hproperty, hs, rfl⟩ := mem_parts_properties.1 hq
    exact h property hproperty s hs

lemma decided_of_property {resolve : String → Option Json} {schema argument s : Json}
    {property : String × Json} (hobject : schema.isObject = true)
    (href : schema.field? "$ref" = none) (hdecided : Decided (draft7 C) resolve schema value)
    (hargument : schema.field? "properties" = some argument) (hproperty : property ∈ value.fields)
    (hs : argument.field? property.1 = some s) : Decided (draft7 C) resolve s property.2 := by
  refine (decided_object_iff hobject href).1 hdecided "properties" argument hargument
    (s, property.2) ?_
  rw [draft7_parts]
  exact mem_parts_properties.2 ⟨property, hproperty, hs, rfl⟩

/-- For a property of a value the merged schemas say what both say. -/
lemma mergeProperties_meets (hC : C.Lawful) (existing : List (String × Json))
    {selected : List (String × Json)} (property : String × Json)
    (hnodup : (selected.map Prod.fst).Nodup)
    (halone : ∀ g, existing.lookup property.1 = some g → anyOfAlone definitions 33 g = true)
    (hexisting : ∀ g, existing.lookup property.1 = some g →
      Decided (draft7 C) (definitionAt definitions) g property.2)
    (hselected : ∀ s, selected.lookup property.1 = some s →
      Decided (draft7 C) (definitionAt definitions) s property.2) :
    (∀ s, (mergeProperties C definitions existing selected).lookup property.1 = some s →
      Decided (draft7 C) (definitionAt definitions) s property.2) ∧
    ((∀ s, (mergeProperties C definitions existing selected).lookup property.1 = some s →
        Valid (draft7 C) (definitionAt definitions) s property.2) ↔
      (∀ g, existing.lookup property.1 = some g →
        Valid (draft7 C) (definitionAt definitions) g property.2) ∧
      ∀ s, selected.lookup property.1 = some s →
        Valid (draft7 C) (definitionAt definitions) s property.2) := by
  rw [lookup_mergeProperties hnodup]
  cases hname : selected.lookup property.1 with
  | none => simpa using hexisting
  | some s =>
      have h := mergedProperty_meets hC halone hexisting (hselected s hname)
      simpa using h

/-- How a schema and a branch fit together. -/
structure Mergeable (definitions projected selected : Json) : Prop where
  selected_object : selected.isObject = true
  selected_noRef : selected.field? "$ref" = none
  selected_noAdditional : selected.field? "additionalProperties" = none
  nodup : ∀ properties, selected.field? "properties" = some (.object properties) →
    (properties.map Prod.fst).Nodup
  /-- A schema that forbids other properties declares those of the branch. -/
  declared : (projected.field? "additionalProperties").isSome → ∀ properties,
    selected.field? "properties" = some (.object properties) → ∀ name ∈ properties.map Prod.fst,
      ((projected.field? "properties").bind (·.field? name)).isSome
  alone : ∀ name general, (projected.field? "properties").bind (·.field? name) = some general →
    anyOfAlone definitions 33 general = true
  allOf : ∀ argument, projected.field? "allOf" = some argument → items argument ≠ []

/-- The properties of a branch are merged into those of the schema. -/
lemma applyProperties_meets (hC : C.Lawful) (hobject : projected.isObject = true)
    (href : projected.field? "$ref" = none) (hmerge : Mergeable definitions projected selected)
    (hdecided : Decided (draft7 C) (definitionAt definitions) projected value)
    (h : Decided (draft7 C) (definitionAt definitions) selected value) :
    Decided (draft7 C) (definitionAt definitions) (applyProperties C definitions projected selected)
        value ∧
      (Valid (draft7 C) (definitionAt definitions)
          (applyProperties C definitions projected selected) value ↔
        Valid (draft7 C) (definitionAt definitions) projected value ∧ ∀ argument,
          selected.field? "properties" = some argument →
            KeywordHolds C (definitionAt definitions) selected "properties" argument value) := by
  rw [applyProperties]
  cases hfield : selected.field? "properties" with
  | none => simpa using hdecided
  | some argument =>
      cases argument with
      | object properties =>
          set existing := ((projected.field? "properties").map Json.fields).getD [] with hexisting
          have hlookup : ∀ name, (projected.field? "properties").bind (·.field? name) =
              existing.lookup name := by
            intro name
            rw [hexisting]
            cases projected.field? "properties" <;> rfl
          have hmeets := fun property (hproperty : property ∈ value.fields) =>
            mergeProperties_meets hC existing property (hmerge.nodup properties hfield)
              (fun g hg => hmerge.alone _ g ((hlookup _).trans hg))
              (fun g hg => by
                obtain ⟨argument, hargument, hg⟩ := Option.bind_eq_some_iff.1 ((hlookup _).trans hg)
                exact decided_of_property hobject href hdecided hargument hproperty hg)
              fun s hs => decided_of_property hmerge.selected_object hmerge.selected_noRef h hfield
                hproperty hs
          refine setField_meets hobject href (by decide) ?_ hdecided ?_ ?_
          · intro keyword argument' hkeyword hargument
            refine parts_congr ?_ (field?_setField_of_ne (by decide) _ _)
              (field?_setField_of_ne (by decide) _ _)
            rintro rfl name
            rw [declared, declared, hlookup, field?_setField_self,
              field?_setField_of_ne (by decide), Option.bind_some, Json.field?_object,
              lookup_mergeProperties (hmerge.nodup properties hfield)]
            refine congrArg₂ _ ?_ rfl
            cases hname : properties.lookup name with
            | none => rfl
            | some s =>
                obtain ⟨pre, post, hproperties, -⟩ := List.lookup_eq_some_iff.1 hname
                rw [← hlookup, hmerge.declared (by simp [hargument]) properties hfield name
                  (by simp [hproperties])]
                rfl
          · rintro ⟨s, item⟩ hq
            obtain ⟨property, hproperty, hs, rfl⟩ := mem_parts_properties.1 hq
            exact (hmeets property hproperty).1 s hs
          · simp only [keywordHolds_properties]
            constructor
            · intro hall
              refine ⟨fun argument hargument property hproperty g hg => ?_, ?_⟩
              · refine ((hmeets property hproperty).2.1 (hall property hproperty)).1 g ?_
                rw [← hlookup, hargument]
                exact hg
              · rintro _ ⟨⟩ property hproperty s hs
                exact ((hmeets property hproperty).2.1 (hall property hproperty)).2 s hs
            · rintro ⟨hprojected, hselected⟩ property hproperty
              refine (hmeets property hproperty).2.2
                ⟨fun g hg => ?_, hselected _ rfl property hproperty⟩
              obtain ⟨argument, hargument, hg⟩ := Option.bind_eq_some_iff.1 ((hlookup _).trans hg)
              exact hprojected argument hargument property hproperty g hg
      | _ =>
          refine ⟨hdecided, (and_iff_left ?_).symm⟩
          rintro _ ⟨⟩
          rw [keywordHolds_properties]
          rintro property - s ⟨⟩

end Properties

/-! ### The merged branch -/

section Apply

variable {C : Checks} {definitions projected selected value : Json}

lemma isObject_applyProperties (h : projected.isObject = true) :
    (applyProperties C definitions projected selected).isObject = true := by
  rw [applyProperties]
  split
  · rfl
  · exact h

lemma isObject_mergeRequiredFields (h : projected.isObject = true) :
    (mergeRequiredFields C projected selected).isObject = true := by
  rw [mergeRequiredFields]
  split
  · rfl
  · exact h

lemma isObject_applyResidual (h : projected.isObject = true) :
    (applyResidual projected selected).isObject = true := by
  rw [applyResidual]
  split_ifs
  · exact h
  · rfl

lemma field?_applyProperties {keyword : String} (h : keyword ≠ "properties") :
    (applyProperties C definitions projected selected).field? keyword =
      projected.field? keyword := by
  rw [applyProperties]
  split
  · exact field?_setField_of_ne h _ _
  · rfl

lemma field?_mergeRequiredFields {keyword : String} (h : keyword ≠ "required") :
    (mergeRequiredFields C projected selected).field? keyword = projected.field? keyword := by
  rw [mergeRequiredFields]
  split
  · exact field?_setField_of_ne h _ _
  · rfl

lemma field?_applyResidual {keyword : String} (h : keyword ≠ "allOf") :
    (applyResidual projected selected).field? keyword = projected.field? keyword := by
  rw [applyResidual]
  split_ifs
  · rfl
  · exact field?_setField_of_ne h _ _

lemma isObject_apply (h : projected.isObject = true) :
    (applySelectedResponseBranch C definitions projected selected).isObject = true :=
  isObject_applyResidual (isObject_mergeRequiredFields (isObject_applyProperties h))

lemma field?_apply_ref (h : projected.field? "$ref" = none) :
    (applySelectedResponseBranch C definitions projected selected).field? "$ref" = none := by
  rw [applySelectedResponseBranch, field?_applyResidual (by decide),
    field?_mergeRequiredFields (by decide), field?_applyProperties (by decide), h]

/-- A branch that is merged into a schema stands for both, but for its own choice. -/
theorem apply_meets (hC : C.Lawful) (hobject : projected.isObject = true)
    (href : projected.field? "$ref" = none) (hmerge : Mergeable definitions projected selected)
    (hdecided : Decided (draft7 C) (definitionAt definitions) projected value)
    (h : Decided (draft7 C) (definitionAt definitions) selected value) :
    Decided (draft7 C) (definitionAt definitions)
        (applySelectedResponseBranch C definitions projected selected) value ∧
      (Valid (draft7 C) (definitionAt definitions)
          (applySelectedResponseBranch C definitions projected selected) value ↔
        Valid (draft7 C) (definitionAt definitions) projected value ∧
          HoldsBut C (definitionAt definitions) ["oneOf"] selected value) := by
  obtain ⟨hproperties, hvalid⟩ := applyProperties_meets hC hobject href hmerge hdecided h
  obtain ⟨hrequired, hvalid'⟩ := mergeRequiredFields_meets selected hC
    (isObject_applyProperties hobject)
    (by rw [field?_applyProperties (by decide), href]) hproperties
  obtain ⟨hresidual, hvalid''⟩ := applyResidual_meets
    (isObject_mergeRequiredFields (isObject_applyProperties hobject))
    (by rw [field?_mergeRequiredFields (by decide), field?_applyProperties (by decide), href])
    (by
      rw [field?_mergeRequiredFields (by decide), field?_applyProperties (by decide)]
      exact hmerge.allOf) hmerge.selected_object hmerge.selected_noRef
    hmerge.selected_noAdditional hrequired h
  refine ⟨hresidual, hvalid''.trans ?_⟩
  rw [hvalid', hvalid, holdsBut_cons (show "required" ∉ ["oneOf"] by decide),
    holdsBut_cons (show "properties" ∉ ["required", "oneOf"] by decide), residualBut]
  tauto

end Apply

end XdebugFst.Schema
