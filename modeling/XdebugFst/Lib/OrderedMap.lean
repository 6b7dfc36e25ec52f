import Mathlib.Tactic
import Mathlib.Data.List.Sort
import Mathlib.Data.List.Perm.Basic
import Mathlib.Data.String.Basic

/-!
# Ordered maps

Finite maps from a linearly ordered key type, kept as the list of their entries with
strictly increasing keys.  Traversing the map is traversing that list, so the order of
a traversal is the order of the keys.  All updates are instances of `alter`, which
replaces the entry of one key.

Besides lookup, the development needs the entries as a multiset: `perm_find?_without`
splits off the entry of a key, and `alter_perm` says that an update only changes that
part.
-/

namespace Lib

/-- A finite map as the list of its entries, with strictly increasing keys. -/
structure OrderedMap (κ α : Type) [LinearOrder κ] where
  /-- The entries, in the order of the keys. -/
  entries : List (κ × α)
  sorted : entries.Pairwise fun a b => a.1 < b.1

namespace OrderedMap

variable {κ α : Type} [LinearOrder κ]

instance [DecidableEq α] : DecidableEq (OrderedMap κ α) := fun a b =>
  decidable_of_iff (a.entries = b.entries) (by cases a; cases b; simp)

/-- The map without entries. -/
def empty : OrderedMap κ α := ⟨[], List.Pairwise.nil⟩

instance : Inhabited (OrderedMap κ α) := ⟨empty⟩

/-- Replace the entry of the key `k` in a sorted list of entries. -/
def alterEntries (k : κ) (f : Option α → Option α) : List (κ × α) → List (κ × α)
  | [] => ((f none).map (k, ·)).toList
  | e :: rest =>
      if k < e.1 then ((f none).map (k, ·)).toList ++ e :: rest
      else if k = e.1 then ((f (some e.2)).map (k, ·)).toList ++ rest
      else e :: alterEntries k f rest

lemma mem_alterEntries {k : κ} {f : Option α → Option α} {l : List (κ × α)} {e : κ × α}
    (h : e ∈ alterEntries k f l) : e.1 = k ∨ e ∈ l := by
  induction l with
  | nil =>
      left
      simp only [alterEntries, Option.mem_toList, Option.map_eq_some_iff] at h
      obtain ⟨v, -, rfl⟩ := h
      rfl
  | cons e' rest ih =>
      rw [alterEntries] at h
      split_ifs at h with h1 h2
      · rcases List.mem_append.1 h with h | h
        · left
          simp only [Option.mem_toList, Option.map_eq_some_iff] at h
          obtain ⟨v, -, rfl⟩ := h
          rfl
        · exact Or.inr h
      · rcases List.mem_append.1 h with h | h
        · left
          simp only [Option.mem_toList, Option.map_eq_some_iff] at h
          obtain ⟨v, -, rfl⟩ := h
          rfl
        · exact Or.inr (List.mem_cons_of_mem _ h)
      · rcases List.mem_cons.1 h with rfl | h
        · exact Or.inr (by simp)
        · exact (ih h).imp_right (List.mem_cons_of_mem _)

lemma pairwise_alterEntries (k : κ) (f : Option α → Option α) {l : List (κ × α)}
    (h : l.Pairwise fun a b => a.1 < b.1) :
    (alterEntries k f l).Pairwise fun a b => a.1 < b.1 := by
  have hhead : ∀ (o : Option α) (l' : List (κ × α)), (∀ e ∈ l', k < e.1) →
      l'.Pairwise (fun a b => a.1 < b.1) →
      ((o.map (k, ·)).toList ++ l').Pairwise fun a b => a.1 < b.1 := by
    intro o l' hlt hl'
    cases o with
    | none => exact hl'
    | some v => exact List.pairwise_cons.2 ⟨fun e he => hlt e he, hl'⟩
  induction l with
  | nil => simpa only [alterEntries, List.append_nil] using
      hhead (f none) [] (by simp) List.Pairwise.nil
  | cons e rest ih =>
      obtain ⟨he, hrest⟩ := List.pairwise_cons.1 h
      rw [alterEntries]
      split_ifs with h1 h2
      · refine hhead _ _ (fun e' he' => ?_) h
        rcases List.mem_cons.1 he' with rfl | he'
        · exact h1
        · exact h1.trans (he e' he')
      · exact hhead _ _ (fun e' he' => h2 ▸ he e' he') hrest
      · refine List.pairwise_cons.2 ⟨fun e' he' => ?_, ih hrest⟩
        rcases mem_alterEntries he' with hk | hmem
        · rw [hk]; exact lt_of_le_of_ne (not_lt.1 h1) (Ne.symm h2)
        · exact he e' hmem

/-- Replace the entry of a key. -/
def alter (m : OrderedMap κ α) (k : κ) (f : Option α → Option α) : OrderedMap κ α :=
  ⟨alterEntries k f m.entries, pairwise_alterEntries k f m.sorted⟩

/-- The value of a key. -/
def find? (m : OrderedMap κ α) (k : κ) : Option α :=
  (m.entries.find? fun e => e.1 = k).map Prod.snd

/-- Set the value of a key. -/
def insert (m : OrderedMap κ α) (k : κ) (v : α) : OrderedMap κ α := m.alter k fun _ => some v

/-- Remove a key. -/
def erase (m : OrderedMap κ α) (k : κ) : OrderedMap κ α := m.alter k fun _ => none

/-- The entries that satisfy a condition. -/
def filter (m : OrderedMap κ α) (p : κ → α → Bool) : OrderedMap κ α :=
  ⟨m.entries.filter fun e => p e.1 e.2, m.sorted.filter _⟩

/-- The keys, in increasing order. -/
def keys (m : OrderedMap κ α) : List κ := m.entries.map Prod.fst

/-- The values, in the order of their keys. -/
def values (m : OrderedMap κ α) : List α := m.entries.map Prod.snd

/-- The entries of the other keys. -/
def without (m : OrderedMap κ α) (k : κ) : List (κ × α) := m.entries.filter fun e => e.1 ≠ k

@[simp] lemma entries_empty : (empty : OrderedMap κ α).entries = [] := rfl

@[simp] lemma find?_empty (k : κ) : (empty : OrderedMap κ α).find? k = none := rfl

@[simp] lemma values_empty : (empty : OrderedMap κ α).values = [] := rfl

/-! ### The entries of one key -/

lemma filter_ne_eq_self {l : List (κ × α)} {k : κ} (h : ∀ e ∈ l, k < e.1) :
    l.filter (fun e => e.1 ≠ k) = l :=
  List.filter_eq_self.2 fun e he => by simpa using (h e he).ne'

lemma find?_entries_eq_none {l : List (κ × α)} {k : κ} (h : ∀ e ∈ l, k < e.1) :
    l.find? (fun e => e.1 = k) = none :=
  List.find?_eq_none.2 fun e he => by simpa using (h e he).ne'

lemma alterEntries_perm (k : κ) (f : Option α → Option α) {l : List (κ × α)}
    (h : l.Pairwise fun a b => a.1 < b.1) :
    (alterEntries k f l).Perm
      (((f ((l.find? fun e => e.1 = k).map Prod.snd)).map (k, ·)).toList ++
        l.filter fun e => e.1 ≠ k) := by
  induction l with
  | nil => simp [alterEntries]
  | cons e rest ih =>
      obtain ⟨he, hrest⟩ := List.pairwise_cons.1 h
      rw [alterEntries]
      split_ifs with h1 h2
      · have hlt : ∀ e' ∈ e :: rest, k < e'.1 := by
          intro e' he'
          rcases List.mem_cons.1 he' with rfl | he'
          · exact h1
          · exact h1.trans (he e' he')
        rw [filter_ne_eq_self hlt, find?_entries_eq_none hlt]
        exact List.Perm.refl _
      · have hlt : ∀ e' ∈ rest, k < e'.1 := fun e' he' => h2 ▸ he e' he'
        rw [List.filter_cons_of_neg (by simp [h2]), filter_ne_eq_self hlt,
          List.find?_cons_of_pos (by simp [h2])]
        exact List.Perm.refl _
      · have hne : e.1 ≠ k := Ne.symm h2
        rw [List.filter_cons_of_pos (by simpa using hne),
          List.find?_cons_of_neg (by simpa using hne)]
        exact ((ih hrest).cons e).trans List.perm_middle.symm

/-- An update only touches the entry of its key. -/
lemma alter_perm (m : OrderedMap κ α) (k : κ) (f : Option α → Option α) :
    (m.alter k f).entries.Perm (((f (m.find? k)).map (k, ·)).toList ++ m.without k) :=
  alterEntries_perm k f m.sorted

/-- The entry of a key and the entries of the others. -/
lemma perm_find?_without (m : OrderedMap κ α) (k : κ) :
    m.entries.Perm (((m.find? k).map (k, ·)).toList ++ m.without k) := by
  have hid : alterEntries k id m.entries = m.entries := by
    have : ∀ l : List (κ × α), l.Pairwise (fun a b => a.1 < b.1) →
        alterEntries k id l = l := by
      intro l hl
      induction l with
      | nil => rfl
      | cons e rest ih =>
          rw [alterEntries]
          split_ifs with h1 h2
          · simp
          · subst h2; simp
          · rw [ih (List.pairwise_cons.1 hl).2]
    exact this _ m.sorted
  have h := m.alter_perm k id
  simpa [alter, hid] using h

lemma mem_entries_iff (m : OrderedMap κ α) (k : κ) (v : α) :
    (k, v) ∈ m.entries ↔ m.find? k = some v := by
  rw [(m.perm_find?_without k).mem_iff]
  simp only [without, List.mem_append, Option.mem_toList, Option.map_eq_some_iff,
    Prod.mk.injEq, true_and, exists_eq_right, List.mem_filter, ne_eq, not_true_eq_false,
    decide_false, Bool.false_eq_true, and_false, or_false]

lemma nodup_entries (m : OrderedMap κ α) : m.entries.Nodup :=
  m.sorted.imp fun h heq => (ne_of_lt h) (congrArg Prod.fst heq)

/-- A map is determined by its lookups. -/
lemma ext_find? {m m' : OrderedMap κ α} (h : ∀ k, m.find? k = m'.find? k) : m = m' := by
  have hperm : m.entries.Perm m'.entries := by
    refine (List.perm_ext_iff_of_nodup m.nodup_entries m'.nodup_entries).2 ?_
    rintro ⟨k, v⟩
    rw [mem_entries_iff, mem_entries_iff, h k]
  have heq : m.entries = m'.entries :=
    hperm.eq_of_pairwise (fun a b _ _ hab hba => absurd hba (lt_asymm hab)) m.sorted m'.sorted
  cases m
  cases m'
  simpa using heq

/-! ### Lookup after an update -/

lemma find?_alter_self (m : OrderedMap κ α) (k : κ) (f : Option α → Option α) :
    (m.alter k f).find? k = f (m.find? k) := by
  ext v
  rw [← mem_entries_iff, (m.alter_perm k f).mem_iff]
  simp [without]

lemma find?_alter_of_ne (m : OrderedMap κ α) {k k' : κ} (h : k' ≠ k)
    (f : Option α → Option α) : (m.alter k f).find? k' = m.find? k' := by
  ext v
  rw [← mem_entries_iff, (m.alter_perm k f).mem_iff, ← mem_entries_iff]
  simp [without, h, Ne.symm h]

@[simp] lemma find?_insert_self (m : OrderedMap κ α) (k : κ) (v : α) :
    (m.insert k v).find? k = some v := find?_alter_self m k _

@[simp] lemma find?_erase_self (m : OrderedMap κ α) (k : κ) : (m.erase k).find? k = none :=
  find?_alter_self m k _

lemma find?_insert_of_ne (m : OrderedMap κ α) {k k' : κ} (h : k' ≠ k) (v : α) :
    (m.insert k v).find? k' = m.find? k' := find?_alter_of_ne m h _

lemma find?_erase_of_ne (m : OrderedMap κ α) {k k' : κ} (h : k' ≠ k) :
    (m.erase k).find? k' = m.find? k' := find?_alter_of_ne m h _

lemma find?_insert_eq_some_iff (m : OrderedMap κ α) {k k' : κ} {v v' : α} :
    (m.insert k v).find? k' = some v' ↔ k' = k ∧ v = v' ∨ k' ≠ k ∧ m.find? k' = some v' := by
  by_cases h : k' = k
  · subst h
    simp
  · simp [find?_insert_of_ne m h, h]

lemma find?_erase_eq_some_iff (m : OrderedMap κ α) {k k' : κ} {v : α} :
    (m.erase k).find? k' = some v ↔ k' ≠ k ∧ m.find? k' = some v := by
  by_cases h : k' = k
  · subst h
    simp
  · simp [find?_erase_of_ne m h, h]

lemma find?_filter_eq_some_iff (m : OrderedMap κ α) {p : κ → α → Bool} {k : κ} {v : α} :
    (m.filter p).find? k = some v ↔ m.find? k = some v ∧ p k v = true := by
  rw [← mem_entries_iff, ← mem_entries_iff, filter, List.mem_filter]

lemma insert_insert (m : OrderedMap κ α) (k : κ) (v v' : α) :
    (m.insert k v).insert k v' = m.insert k v' := by
  refine ext_find? fun k' => ?_
  by_cases h : k' = k
  · subst h
    simp
  · simp [find?_insert_of_ne _ h]

/-! ### Entries after an update -/

lemma insert_perm (m : OrderedMap κ α) (k : κ) (v : α) :
    (m.insert k v).entries.Perm ((k, v) :: m.without k) :=
  m.alter_perm k fun _ => some v

lemma erase_perm (m : OrderedMap κ α) (k : κ) : (m.erase k).entries.Perm (m.without k) :=
  m.alter_perm k fun _ => none

/-- The entries with one of them split off. -/
lemma entries_perm_of_find? {m : OrderedMap κ α} {k : κ} {v : α} (h : m.find? k = some v) :
    m.entries.Perm ((k, v) :: (m.erase k).entries) := by
  have h' := m.perm_find?_without k
  rw [h] at h'
  exact h'.trans ((m.erase_perm k).symm.cons _)

lemma without_eq_entries {m : OrderedMap κ α} {k : κ} (h : m.find? k = none) :
    m.entries.Perm (m.without k) := by
  simpa [h] using m.perm_find?_without k

lemma mem_keys_iff (m : OrderedMap κ α) (k : κ) : k ∈ m.keys ↔ (m.find? k).isSome := by
  rw [keys, List.mem_map, Option.isSome_iff_exists]
  constructor
  · rintro ⟨⟨k', v⟩, hmem, rfl⟩
    exact ⟨v, (m.mem_entries_iff k' v).1 hmem⟩
  · rintro ⟨v, hv⟩
    exact ⟨(k, v), (m.mem_entries_iff k v).2 hv, rfl⟩

/-- Looking up a key among the entries that are left after converting the values. -/
lemma lookup_filterMap [BEq κ] [LawfulBEq κ] {β : Type} (m : OrderedMap κ α) (f : α → Option β)
    (k : κ) : (m.entries.filterMap fun e => (f e.2).map fun b => (e.1, b)).lookup k =
      (m.find? k).bind f := by
  obtain ⟨entries, hsorted⟩ := m
  rw [find?]
  dsimp only
  induction entries with
  | nil => rfl
  | cons e entries ih =>
      obtain ⟨hlt, hrest⟩ := List.pairwise_cons.1 hsorted
      have ih := ih hrest
      by_cases hkey : e.1 = k
      · -- the key does not come again
        have hother : entries.find? (fun e => decide (e.1 = k)) = none := by
          refine List.find?_eq_none.2 fun e' he' => ?_
          have hne := (hlt e' he').ne'
          rw [hkey] at hne
          simpa using hne
        rw [hother] at ih
        rw [List.find?_cons_of_pos (by simpa using hkey), Option.map_some, Option.bind_some]
        cases hvalue : f e.2 with
        | none => rw [List.filterMap_cons_none (by rw [hvalue]; rfl), ih]; rfl
        | some b =>
            rw [List.filterMap_cons_some (by rw [hvalue]; rfl), List.lookup_cons, hkey, beq_self_eq_true]
      · rw [List.find?_cons_of_neg (by simpa using hkey), ← ih]
        cases hvalue : f e.2 with
        | none => rw [List.filterMap_cons_none (by rw [hvalue]; rfl)]
        | some b =>
            rw [List.filterMap_cons_some (by rw [hvalue]; rfl), List.lookup_cons,
              beq_false_of_ne (Ne.symm hkey)]

end OrderedMap

end Lib
