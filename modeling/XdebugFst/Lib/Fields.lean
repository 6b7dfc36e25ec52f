import Mathlib
import XdebugFst.Lib.Text

/-!
# Fields with a size in front

A sequence of texts is written as one text by putting the size of each text, in decimal and with a
colon, in front of it. The size says where a text ends, so that the texts may be any: `field` is
prefix-free, and `fields` is injective, also when more text follows.
-/

namespace Lib

/-- A text behind its size in bytes. -/
def field (value : String) : String := toString value.utf8ByteSize ++ ":" ++ value

/-- Several texts, one after the other. -/
def fields (values : List String) : String := String.join (values.map field)

@[simp] lemma fields_nil : fields [] = "" := by simp [fields]

@[simp] lemma fields_cons (value : String) (values : List String) :
    fields (value :: values) = field value ++ fields values := by
  simp [fields]

@[simp] lemma fields_append (values values' : List String) :
    fields (values ++ values') = fields values ++ fields values' := by
  simp [fields]

lemma toList_field (value : String) :
    (field value).toList = Nat.toDigits 10 value.utf8ByteSize ++ ':' :: value.toList := by
  rw [field, String.toList_append, String.toList_append, List.append_assoc]
  show (Nat.repr _).toList ++ _ = _
  rw [Nat.toList_repr]
  rfl

lemma field_ne_empty (value : String) : field value ≠ "" := by
  intro h
  have hlist := congrArg String.toList h
  rw [toList_field] at hlist
  simp at hlist

/-- Texts of one size that begin one text are the same. -/
lemma append_inj_of_size {a b s t : String} (hsize : a.utf8ByteSize = b.utf8ByteSize)
    (h : a ++ s = b ++ t) : a = b ∧ s = t := by
  have hlist := congrArg String.toList h
  rw [String.toList_append, String.toList_append] at hlist
  -- the longer of the two is the other one and a text without bytes
  have hrest {u v : String} {m : List Char} (hv : v.toList = u.toList ++ m)
      (hsize : u.utf8ByteSize = v.utf8ByteSize) : u = v := by
    have huv : v = u ++ String.ofList m := String.toList_injective (by simp [hv])
    rw [huv, String.utf8ByteSize_append, Nat.left_eq_add, String.utf8ByteSize_eq_zero_iff] at hsize
    rw [huv, hsize, String.append_empty]
  have hab : a = b := by
    rcases List.append_eq_append_iff.1 hlist with ⟨m, hm, -⟩ | ⟨m, hm, -⟩
    · exact hrest hm hsize
    · exact (hrest hm hsize.symm).symm
  subst hab
  exact ⟨rfl, String.toList_injective (List.append_cancel_left hlist)⟩

/-- A field ends where its size says. -/
lemma field_append_inj {a b s t : String} (h : field a ++ s = field b ++ t) : a = b ∧ s = t := by
  have hlist := congrArg String.toList h
  rw [String.toList_append, String.toList_append, toList_field, toList_field, List.append_assoc,
    List.append_assoc, List.cons_append, List.cons_append] at hlist
  have hcolon (n : ℕ) : ':' ∉ Nat.toDigits 10 n := fun hmem =>
    absurd (Nat.isDigit_of_mem_toDigits (by decide) (by decide) hmem) (by decide)
  obtain ⟨hsize, hrest⟩ := append_separator_inj_of_notMem (hcolon _) (hcolon _) hlist
  have hrepr : (Nat.repr a.utf8ByteSize).toList = (Nat.repr b.utf8ByteSize).toList := by
    rw [Nat.toList_repr, Nat.toList_repr, hsize]
  refine append_inj_of_size (Nat.repr_injective (String.toList_injective hrepr))
    (String.toList_injective ?_)
  simpa using hrest

/-- A sequence of texts is read off its fields. -/
theorem fields_injective : Function.Injective fields := by
  intro values values' h
  induction values generalizing values' with
  | nil =>
      cases values' with
      | nil => rfl
      | cons value' values' =>
          rw [fields_nil, fields_cons] at h
          exact absurd (String.append_eq_empty_iff.1 h.symm).1 (field_ne_empty value')
  | cons value values ih =>
      cases values' with
      | nil =>
          rw [fields_nil, fields_cons] at h
          exact absurd (String.append_eq_empty_iff.1 h).1 (field_ne_empty value)
      | cons value' values' =>
          rw [fields_cons, fields_cons] at h
          obtain ⟨rfl, hrest⟩ := field_append_inj h
          rw [ih hrest]

end Lib
