import XdebugFst.Lib.Json
import Mathlib.Logic.Relation

/-!
# JSON values as trees

An induction over the values inside a value: the items of arrays and the fields of objects. A
relation between the fields of objects becomes one between values in `Inside`: one object somewhere
in a value is replaced by a related one.
-/

namespace Lib.Json

/-- Induction over the items of the arrays and the fields of the objects. -/
theorem tree_induction {P : Json → Prop} (array : ∀ items, (∀ v ∈ items, P v) → P (array items))
    (object : ∀ fields, (∀ f ∈ fields, P f.2) → P (object fields))
    (leaf : ∀ v, (∀ items, v ≠ .array items) → (∀ fields, v ≠ .object fields) → P v) :
    ∀ value, P value
  | .array items => array items fun v _ => tree_induction array object leaf v
  | .object fields => object fields fun f hf =>
      have : sizeOf f.2 < 1 + sizeOf fields := by
        have h := List.sizeOf_lt_of_mem hf
        obtain ⟨name, item⟩ := f
        simp only [Prod.mk.sizeOf_spec] at h ⊢
        omega
      tree_induction array object leaf f.2
  | .null => leaf _ (by simp) (by simp)
  | .bool _ => leaf _ (by simp) (by simp)
  | .integer _ => leaf _ (by simp) (by simp)
  | .unsigned _ => leaf _ (by simp) (by simp)
  | .float _ => leaf _ (by simp) (by simp)
  | .string _ => leaf _ (by simp) (by simp)

/-- Only the field that is read matters. -/
lemma valueWith_congr {α : Type} {read : Json → Option α} {name : String} {default : α}
    {v w : Json} (hobject : v.isObject = w.isObject) (hfield : v.field? name = w.field? name) :
    valueWith read v name default = valueWith read w name default := by
  cases v with
  | object fields =>
      cases w with
      | object fields' =>
          rw [field?_object, field?_object] at hfield
          rw [valueWith_object, valueWith_object, hfield]
      | _ => cases hobject
  | _ =>
      cases w with
      | object fields' => cases hobject
      | _ => rfl

/-! ### A change inside a value -/

/-- One object inside the first value is replaced by a related one. -/
inductive Inside (R : List (String × Json) → List (String × Json) → Prop) : Json → Json → Prop
  | here {fields fields' : List (String × Json)} (h : R fields fields') :
      Inside R (.object fields) (.object fields')
  | item (pre post : List Json) {v w : Json} (h : Inside R v w) :
      Inside R (.array (pre ++ v :: post)) (.array (pre ++ w :: post))
  | field (pre post : List (String × Json)) (name : String) {v w : Json} (h : Inside R v w) :
      Inside R (.object (pre ++ (name, v) :: post)) (.object (pre ++ (name, w) :: post))

open Relation

variable {R S : List (String × Json) → List (String × Json) → Prop}

lemma Inside.mono {v w : Json} (h : Inside R v w) (hRS : ∀ fields fields', R fields fields' →
    S fields fields') : Inside S v w := by
  induction h with
  | here h => exact .here (hRS _ _ h)
  | item pre post _ ih => exact .item pre post ih
  | field pre post name _ ih => exact .field pre post name ih

/-- Values that change are arrays or objects, before and after. -/
lemma Inside.string?_eq_none {v w : Json} (h : Inside R v w) :
    v.string? = none ∧ w.string? = none := by
  cases h <;> exact ⟨rfl, rfl⟩

lemma reflTransGen_field (pre post : List (String × Json)) (name : String) {v w : Json}
    (h : ReflTransGen (Inside R) v w) : ReflTransGen (Inside R)
      (.object (pre ++ (name, v) :: post)) (.object (pre ++ (name, w) :: post)) := by
  induction h with
  | refl => exact .refl
  | tail _ hstep ih => exact ih.tail (.field pre post name hstep)

lemma reflTransGen_item (pre post : List Json) {v w : Json} (h : ReflTransGen (Inside R) v w) :
    ReflTransGen (Inside R) (.array (pre ++ v :: post)) (.array (pre ++ w :: post)) := by
  induction h with
  | refl => exact .refl
  | tail _ hstep ih => exact ih.tail (.item pre post hstep)

/-- The items of an array change one after the other. -/
lemma reflTransGen_map {f : Json → Json} {items : List Json}
    (h : ∀ v ∈ items, ReflTransGen (Inside R) v (f v)) :
    ReflTransGen (Inside R) (.array items) (.array (items.map f)) := by
  suffices ∀ pre, ReflTransGen (Inside R) (.array (pre ++ items)) (.array (pre ++ items.map f)) from
    this []
  induction items with
  | nil => exact fun pre => .refl
  | cons v rest ih =>
      intro pre
      have hfirst := reflTransGen_item pre rest (h v List.mem_cons_self)
      have hrest := ih (fun v hv => h v (List.mem_cons_of_mem _ hv)) (pre ++ [f v])
      simp only [List.append_assoc, List.cons_append, List.nil_append] at hrest
      exact hfirst.trans hrest

end Lib.Json
