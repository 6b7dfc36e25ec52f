import XdebugFst.Lib.Json

/-!
# Verdicts of JSON schemas

A schema is a boolean, a reference, or an object with keywords. A keyword looks at the value itself,
or asks other schemas about the value or about parts of it and puts their verdicts together. Which
keywords there are is a parameter, the `Vocabulary`.

References can go round in circles, so that a schema need not come to a verdict. `Verdict` holds
when the evaluation of a schema ends with this verdict. It ends with at most one
(`Verdict.unique`), and for an object it is put together by `decided_object_iff` and
`valid_object_iff`. Of the references only those matter that the schema reaches
(`Verdict.of_agree`).
-/

namespace Lib.JsonSchema

/-- How the verdicts of the parts of a keyword are put together. -/
inductive Mode
  | all | some | one | none
  /-- When the first part has this verdict, the others hold. -/
  | when (verdict : Bool)
  deriving DecidableEq

/-- What a mode says about the parts that satisfy `P`. -/
def Mode.Holds {α : Type} (P : α → Prop) : Mode → List α → Prop
  | .all, parts => ∀ q ∈ parts, P q
  | .some, parts => ∃ q ∈ parts, P q
  | .one, parts => ∃ pre q post, parts = pre ++ q :: post ∧ P q ∧ ∀ r ∈ pre ++ post, ¬ P r
  | .none, parts => ∀ q ∈ parts, ¬ P q
  | .when _, [] => True
  | .when verdict, q :: rest => (P q ↔ verdict = true) → ∀ r ∈ rest, P r

lemma Mode.holds_congr {α : Type} {P Q : α → Prop} {mode : Mode} {parts : List α}
    (h : ∀ q ∈ parts, P q ↔ Q q) : mode.Holds P parts ↔ mode.Holds Q parts := by
  cases mode with
  | all => exact forall₂_congr h
  | some => exact exists_congr fun q => and_congr_right fun hq => h q hq
  | one =>
      refine exists_congr fun pre => exists_congr fun q => exists_congr fun post =>
        and_congr_right fun hparts => ?_
      subst hparts
      refine and_congr (h q (by simp)) (forall₂_congr fun r hr => not_congr (h r ?_))
      rcases List.mem_append.1 hr with hr | hr
      · exact List.mem_append_left _ hr
      · exact List.mem_append_right _ (List.mem_cons_of_mem _ hr)
  | none => exact forall₂_congr fun q hq => not_congr (h q hq)
  | when verdict =>
      cases parts with
      | nil => exact Iff.rfl
      | cons q rest =>
          exact imp_congr (iff_congr (h q List.mem_cons_self) Iff.rfl)
            (forall₂_congr fun r hr => h r (List.mem_cons_of_mem _ hr))

/-- Exactly one part holds, when all but one do not. -/
lemma Mode.one_holds_iff {α : Type} {P : α → Prop} {pre post : List α} {q : α}
    (h : ∀ r ∈ pre ++ post, ¬ P r) : Mode.one.Holds P (pre ++ q :: post) ↔ P q := by
  refine ⟨?_, fun hq => ⟨pre, q, post, rfl, hq, h⟩⟩
  rintro ⟨pre', q', post', hparts, hq', -⟩
  have hmem : q' ∈ pre ++ q :: post := by simp [hparts]
  rcases List.mem_append.1 hmem with hmem | hmem
  · exact absurd hq' (h q' (List.mem_append_left _ hmem))
  rcases List.mem_cons.1 hmem with rfl | hmem
  · exact hq'
  · exact absurd hq' (h q' (List.mem_append_right _ hmem))

/-- The keywords of a language of schemas. -/
structure Vocabulary where
  /-- What a keyword with an argument says about a value by itself. -/
  assertion : String → Json → Json → Bool
  mode : String → Mode
  /-- The schemas that a keyword asks, and what it asks them about. It is given the keywords beside
  it. -/
  parts : (String → Option Json) → String → Json → Json → List (Json × Json)

/-- A keyword holds when its parts satisfy `P` as it says. -/
def Vocabulary.Holds (V : Vocabulary) (P : Json × Json → Prop) (beside : String → Option Json)
    (keyword : String) (argument value : Json) : Prop :=
  V.assertion keyword argument value = true ∧
    (V.mode keyword).Holds P (V.parts beside keyword argument value)

/-- The evaluation of a schema on a value ends with a verdict. -/
inductive Verdict (V : Vocabulary) (resolve : String → Option Json) : Json → Json → Bool → Prop
  | bool (verdict : Bool) (value : Json) : Verdict V resolve (.bool verdict) value verdict
  | ref {schema target value : Json} {reference : String} {verdict : Bool}
      (hobject : schema.isObject = true) (href : schema.field? "$ref" = some (.string reference))
      (hresolve : resolve reference = some target) (h : Verdict V resolve target value verdict) :
      Verdict V resolve schema value verdict
  | object {schema value : Json} {verdict : Bool} (answer : Json × Json → Bool)
      (hobject : schema.isObject = true) (href : schema.field? "$ref" = none)
      (hparts : ∀ keyword argument, schema.field? keyword = some argument →
        ∀ q ∈ V.parts schema.field? keyword argument value, Verdict V resolve q.1 q.2 (answer q))
      (hverdict : verdict = true ↔ ∀ keyword argument, schema.field? keyword = some argument →
        V.Holds (fun q => answer q = true) schema.field? keyword argument value) :
      Verdict V resolve schema value verdict

/-- The evaluation of a schema ends. -/
def Decided (V : Vocabulary) (resolve : String → Option Json) (schema value : Json) : Prop :=
  ∃ verdict, Verdict V resolve schema value verdict

/-- The schema accepts the value. -/
def Valid (V : Vocabulary) (resolve : String → Option Json) (schema value : Json) : Prop :=
  Verdict V resolve schema value true

section Verdicts

variable {V : Vocabulary} {resolve : String → Option Json} {schema target value : Json}
  {verdict : Bool}

theorem Verdict.unique {verdict' : Bool} (h : Verdict V resolve schema value verdict)
    (h' : Verdict V resolve schema value verdict') : verdict = verdict' := by
  induction h generalizing verdict' with
  | bool =>
      cases h' with
      | bool => rfl
      | ref hobject => cases hobject
      | object _ hobject => cases hobject
  | ref hobject href hresolve _ ih =>
      cases h' with
      | bool => cases hobject
      | ref _ href' hresolve' h' =>
          cases href.symm.trans href'
          cases hresolve.symm.trans hresolve'
          exact ih h'
      | object answer _ href' => cases href.symm.trans href'
  | object answer hobject href hparts hverdict ih =>
      cases h' with
      | bool => cases hobject
      | ref _ href' => cases href.symm.trans href'
      | object answer' _ _ hparts' hverdict' =>
          refine Bool.eq_iff_iff.2 (hverdict.trans (Iff.trans ?_ hverdict'.symm))
          refine forall₃_congr fun keyword argument hfield => and_congr Iff.rfl ?_
          refine Mode.holds_congr fun q hq => ?_
          rw [ih keyword argument hfield q hq (hparts' keyword argument hfield q hq)]

lemma Valid.decided (h : Valid V resolve schema value) : Decided V resolve schema value :=
  ⟨true, h⟩

lemma Verdict.eq_true_iff (h : Verdict V resolve schema value verdict) :
    verdict = true ↔ Valid V resolve schema value := by
  constructor
  · rintro rfl
    exact h
  · exact fun hvalid => h.unique hvalid

/-- A reference is what it refers to. -/
lemma verdict_ref_iff {reference : String} (hobject : schema.isObject = true)
    (href : schema.field? "$ref" = some (.string reference))
    (hresolve : resolve reference = some target) :
    Verdict V resolve schema value verdict ↔ Verdict V resolve target value verdict := by
  refine ⟨fun h => ?_, .ref hobject href hresolve⟩
  cases h with
  | bool => cases hobject
  | ref _ href' hresolve' h =>
      cases href.symm.trans href'
      cases hresolve.symm.trans hresolve'
      exact h
  | object answer _ href' => cases href.symm.trans href'

/-- An object comes to a verdict when all that its keywords ask does. -/
theorem decided_object_iff (hobject : schema.isObject = true) (href : schema.field? "$ref" = none) :
    Decided V resolve schema value ↔
      ∀ keyword argument, schema.field? keyword = some argument →
        ∀ q ∈ V.parts schema.field? keyword argument value, Decided V resolve q.1 q.2 := by
  classical
  constructor
  · rintro ⟨verdict, h⟩ keyword argument hfield q hq
    cases h with
    | bool => cases hobject
    | ref _ href' => cases href.symm.trans href'
    | object answer _ _ hparts => exact ⟨_, hparts keyword argument hfield q hq⟩
  · intro h
    refine ⟨decide (∀ keyword argument, schema.field? keyword = some argument →
      V.Holds (fun q => decide (Valid V resolve q.1 q.2) = true) schema.field? keyword argument
        value), .object (fun q => decide (Valid V resolve q.1 q.2)) hobject href ?_
        decide_eq_true_iff⟩
    intro keyword argument hfield q hq
    obtain ⟨verdict, hverdict⟩ := h keyword argument hfield q hq
    rwa [show decide (Valid V resolve q.1 q.2) = verdict from
      Bool.eq_iff_iff.2 (decide_eq_true_iff.trans hverdict.eq_true_iff.symm)]

/-- An object that comes to a verdict accepts what all its keywords accept. -/
theorem valid_object_iff (hobject : schema.isObject = true) (href : schema.field? "$ref" = none)
    (h : Decided V resolve schema value) : Valid V resolve schema value ↔
      ∀ keyword argument, schema.field? keyword = some argument →
        V.Holds (fun q => Valid V resolve q.1 q.2) schema.field? keyword argument value := by
  obtain ⟨verdict, h⟩ := h
  rw [← h.eq_true_iff]
  cases h with
  | bool => cases hobject
  | ref _ href' => cases href.symm.trans href'
  | object answer _ _ hparts hverdict =>
      refine hverdict.trans (forall₃_congr fun keyword argument hfield => and_congr Iff.rfl ?_)
      exact Mode.holds_congr fun q hq => (hparts keyword argument hfield q hq).eq_true_iff

/-- References that the schema does not reach do not matter. -/
theorem Verdict.of_agree {resolve' : String → Option Json} (Reached : Json → Prop)
    (hresolve : ∀ schema reference target, Reached schema →
      schema.field? "$ref" = some (.string reference) → resolve reference = some target →
      resolve' reference = some target ∧ Reached target)
    (hparts : ∀ schema keyword argument value, Reached schema →
      schema.field? keyword = some argument →
      ∀ q ∈ V.parts schema.field? keyword argument value, Reached q.1)
    (h : Verdict V resolve schema value verdict) (hschema : Reached schema) :
    Verdict V resolve' schema value verdict := by
  induction h with
  | bool verdict value => exact .bool verdict value
  | ref hobject href hfound _ ih =>
      obtain ⟨hfound', htarget⟩ := hresolve _ _ _ hschema href hfound
      exact .ref hobject href hfound' (ih htarget)
  | object answer hobject href _ hverdict ih =>
      exact .object answer hobject href (fun keyword argument hfield q hq =>
        ih keyword argument hfield q hq (hparts _ _ _ _ hschema hfield q hq)) hverdict

end Verdicts

end Lib.JsonSchema
