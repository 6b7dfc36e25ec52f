import Mathlib.Tactic

/-!
# JSON values

JSON values as a program holds them after parsing. A number remembers whether it is stored as
a signed integer, as an unsigned integer or as a floating-point number, since reading it back
depends on that. An object is the list of its fields; its first field with a name is the field
of this name.

Reading a field with a default value throws in two cases: the value is not an object, or it has
the field and this has another type. `stringValue`, `boolValue` and `jsonValue` are the readers
for the types that programs ask for.
-/

namespace Lib

/-- A JSON value. -/
inductive Json
  | null
  | bool (value : Bool)
  /-- A number that is stored as a signed integer. -/
  | integer (value : ℤ)
  /-- A number that is stored as an unsigned integer. -/
  | unsigned (value : ℕ)
  /-- Any other number, by its text. -/
  | float (text : String)
  | string (value : String)
  | array (items : List Json)
  | object (fields : List (String × Json))
  deriving Repr

namespace Json

instance : Inhabited Json := ⟨null⟩

/-- The fields of an object, and no fields for any other value. -/
def fields : Json → List (String × Json)
  | object fields => fields
  | _ => []

def isObject : Json → Bool
  | object _ => true
  | _ => false

/-- The field `name` of an object. -/
def field? (value : Json) (name : String) : Option Json :=
  value.fields.lookup name

/-- An object has the field `name`. -/
def contains (value : Json) (name : String) : Bool :=
  (value.field? name).isSome

/-- The string that a value is. -/
def string? : Json → Option String
  | string text => some text
  | _ => none

/-- The integer that a value is stored as. -/
def integer? : Json → Option ℤ
  | integer value => some value
  | unsigned value => some value
  | _ => none

@[simp]
lemma fields_object (fields : List (String × Json)) : (object fields).fields = fields := rfl

@[simp]
lemma field?_object (fields : List (String × Json)) (name : String) :
    (object fields).field? name = fields.lookup name := rfl

@[simp]
lemma string?_string (text : String) : (string text).string? = some text := rfl

lemma string?_eq_some {value : Json} {text : String} :
    value.string? = some text ↔ value = string text := by
  constructor
  · intro h
    cases value with
    | string other =>
        cases h
        rfl
    | _ => cases h
  · rintro rfl
    rfl

/-! ### Fields with a default value -/

/-- Why a field cannot be read. -/
inductive TypeError
  | notObject | wrongType
  deriving DecidableEq, Repr

/-- The field `name` of an object as a value of the type that `read` reads. -/
def valueWith {α : Type} (read : Json → Option α) (value : Json) (name : String) (default : α) :
    Except TypeError α :=
  match value with
  | object fields =>
      match fields.lookup name with
      | none => .ok default
      | some field =>
          match read field with
          | some a => .ok a
          | none => .error .wrongType
  | _ => .error .notObject

/-- The boolean that a value is. -/
def bool? : Json → Option Bool
  | bool b => some b
  | _ => none

def stringValue : Json → String → String → Except TypeError String := valueWith string?

def boolValue : Json → String → Bool → Except TypeError Bool := valueWith bool?

def jsonValue : Json → String → Json → Except TypeError Json := valueWith some

lemma valueWith_object {α : Type} {read : Json → Option α} {fields : List (String × Json)}
    {name : String} {default : α} :
    valueWith read (object fields) name default =
      match fields.lookup name with
      | none => .ok default
      | some field =>
          match read field with
          | some a => .ok a
          | none => .error .wrongType := rfl

/-- A field can be read from an object that does not have it or has it with the right type. -/
lemma exists_valueWith_iff {α : Type} {read : Json → Option α} {value : Json} {name : String}
    {default : α} : (∃ a, valueWith read value name default = .ok a) ↔
      value.isObject = true ∧ ∀ field, value.field? name = some field → (read field).isSome := by
  cases value with
  | object fields =>
      rw [valueWith_object, field?_object]
      cases fields.lookup name with
      | none => simp [isObject]
      | some field => cases hread : read field <;> simp [isObject, hread]
  | _ => simp [valueWith, isObject]

/-- Any value can be read as a JSON value. -/
lemma jsonValue_of_isObject {value : Json} (h : value.isObject = true) (name : String)
    (default : Json) : value.jsonValue name default = .ok ((value.field? name).getD default) := by
  cases value with
  | object fields =>
      rw [jsonValue, valueWith_object, field?_object]
      cases fields.lookup name <;> rfl
  | _ => cases h

/-- What is read from an object whose field is a string if it is there. -/
lemma stringValue_eq {value : Json} {name : String} (hobject : value.isObject = true)
    (hfield : ∀ field, value.field? name = some field → field.string?.isSome) (default : String) :
    value.stringValue name default = .ok (((value.field? name).bind string?).getD default) := by
  cases value with
  | object fields =>
      rw [field?_object] at hfield ⊢
      rw [stringValue, valueWith_object]
      cases hlookup : fields.lookup name with
      | none => rfl
      | some field =>
          obtain ⟨text, htext⟩ := Option.isSome_iff_exists.1 (hfield field hlookup)
          simp only [htext, Option.bind_some, Option.getD_some]
  | _ => cases hobject

/-- An object without the field `name`. -/
def erase (name : String) : Json → Json
  | object fields => object (fields.filter fun field => field.1 ≠ name)
  | value => value

lemma isObject_erase (name : String) (value : Json) :
    (value.erase name).isObject = value.isObject := by
  cases value <;> rfl

lemma field?_erase {name other : String} (hne : other ≠ name) {value : Json} :
    (value.erase name).field? other = value.field? other := by
  cases value with
  | object fields =>
      rw [erase, field?_object, field?_object]
      induction fields with
      | nil => rfl
      | cons field rest ih =>
          obtain ⟨key, item⟩ := field
          rw [List.filter_cons, List.lookup_cons, ← ih]
          by_cases hkey : key = name
          · rw [hkey, beq_false_of_ne hne]
            simp
          · simp [hkey, List.lookup_cons]
  | _ => rfl

/-! ### The texts of a value -/

mutual

/-- All strings and all names of fields in a value satisfy `p`. -/
def allTexts (p : String → Bool) : Json → Bool
  | string text => p text
  | array items => allItems p items
  | object fields => allFields p fields
  | _ => true

def allItems (p : String → Bool) : List Json → Bool
  | [] => true
  | item :: rest => item.allTexts p && allItems p rest

def allFields (p : String → Bool) : List (String × Json) → Bool
  | [] => true
  | (name, value) :: rest => p name && value.allTexts p && allFields p rest

end

variable {p : String → Bool}

lemma allFields_eq (fields : List (String × Json)) :
    allFields p fields = fields.all fun field => p field.1 && field.2.allTexts p := by
  induction fields with
  | nil => rw [allFields, List.all_nil]
  | cons field rest ih =>
      obtain ⟨name, value⟩ := field
      rw [allFields, List.all_cons, ih]

lemma allTexts_object {fields : List (String × Json)} :
    (object fields).allTexts p = true ↔
      ∀ field ∈ fields, p field.1 = true ∧ field.2.allTexts p = true := by
  simp only [allTexts, allFields_eq, List.all_eq_true, Bool.and_eq_true]

lemma allTexts_string {text : String} : (string text).allTexts p = p text := by
  rw [allTexts]

/-- The texts of a field are texts of its object. -/
lemma allTexts_field? {value field : Json} {name : String} (h : value.allTexts p = true)
    (hfield : value.field? name = some field) : field.allTexts p = true := by
  cases value with
  | object fields =>
      rw [field?_object] at hfield
      obtain ⟨pre, post, rfl, -⟩ := List.lookup_eq_some_iff.1 hfield
      exact (allTexts_object.1 h (name, field) (by simp)).2
  | _ => cases hfield

mutual

/-- Nothing is asked of the texts. -/
lemma allTexts_true : ∀ value : Json, value.allTexts (fun _ => true) = true
  | .null => by rw [allTexts] <;> nofun
  | .bool _ => by rw [allTexts] <;> nofun
  | .integer _ => by rw [allTexts] <;> nofun
  | .unsigned _ => by rw [allTexts] <;> nofun
  | .float _ => by rw [allTexts] <;> nofun
  | .string _ => by rw [allTexts]
  | .array items => by rw [allTexts, allItems_true items]
  | .object fields => by rw [allTexts, allFields_true fields]

lemma allItems_true : ∀ items : List Json, allItems (fun _ => true) items = true
  | [] => by rw [allItems]
  | item :: rest => by rw [allItems, allTexts_true item, allItems_true rest, Bool.and_self]

lemma allFields_true : ∀ fields : List (String × Json), allFields (fun _ => true) fields = true
  | [] => by rw [allFields]
  | (_, value) :: rest => by
      rw [allFields, allTexts_true value, allFields_true rest]
      rfl

end

end Json

end Lib
