import Mathlib.Data.Set.Insert
import Mathlib.Logic.Function.Basic
import Mathlib.Tactic

/-!
# A disk that may crash

A directory says which file a name refers to. What a program does to files and names is seen by all
programs at once, and it is on the disk for sure only when the file, or the directory, was synced.
After a crash a file that was not synced since it was last written may hold anything, and a name may
refer to any of the files that it referred to since its directory was last synced, whatever the
other names do.

Every change of a name gets a stamp. `Since d n k` says that whatever happens from now on, the name
`n` does not go back to a file that it referred to before `k`; it is a matter of one sync, and no
change takes it back.
-/

namespace Lib

/-- What a name refers to. -/
@[ext]
structure Link (ι : Type) where
  file : Option ι
  /-- When the name came to refer to it. -/
  stamp : ℕ

/-- Files with letters `α`, and names `N` for them. -/
structure Disk (N ι α : Type) where
  content : ι → List α
  /-- The files that were not written since their last sync. -/
  synced : Set ι
  created : Set ι
  links : N → Link ι
  /-- What a name may refer to after a crash. -/
  durable : N → Set (Link ι)
  /-- The last stamp. -/
  clock : ℕ
  links_mem : ∀ n, links n ∈ durable n
  stamp_le : ∀ n, ∀ l ∈ durable n, l.stamp ≤ clock
  file_mem : ∀ n, ∀ l ∈ durable n, ∀ i, l.file = some i → i ∈ created

namespace Disk

variable {N ι α : Type} (d : Disk N ι α)

/-- The letters that one gets under a name. -/
def read (n : N) : Option (List α) := (d.links n).file.map d.content

/-! ### Changes of files -/

section Files

/-- The file is on the disk. -/
def sync (i : ι) : Disk N ι α := { d with synced := insert i d.synced }

variable {d} in
lemma file_mem_insert {i : ι} (n : N) (l : Link ι) (h : l ∈ d.durable n) (j : ι)
    (hj : l.file = some j) : j ∈ insert i d.created :=
  Set.mem_insert_of_mem _ (d.file_mem n l h j hj)

variable [DecidableEq ι]

/-- A new empty file. -/
def allocate (i : ι) : Disk N ι α :=
  { d with
    content := Function.update d.content i []
    synced := d.synced \ {i}
    created := insert i d.created
    file_mem := file_mem_insert }

def append (i : ι) (chunk : List α) : Disk N ι α :=
  { d with
    content := Function.update d.content i (d.content i ++ chunk)
    synced := d.synced \ {i} }

end Files

/-! ### Changes of names -/

section Names

lemma file_mem_links (n : N) (i : ι) (h : (d.links n).file = some i) : i ∈ d.created :=
  d.file_mem n _ (d.links_mem n) i h

lemma mem_created_of_none (i : ι) (h : none = some i) : i ∈ d.created := nomatch h

lemma links_mem_settle (names : Set N) (n : N) :
    d.links n ∈ {l ∈ d.durable n | n ∈ names → l = d.links n} :=
  ⟨d.links_mem n, fun _ => rfl⟩

lemma stamp_le_settle (names : Set N) (n : N) (l : Link ι)
    (hl : l ∈ {l ∈ d.durable n | n ∈ names → l = d.links n}) : l.stamp ≤ d.clock :=
  d.stamp_le n l hl.1

lemma file_mem_settle (names : Set N) (n : N) (l : Link ι)
    (hl : l ∈ {l ∈ d.durable n | n ∈ names → l = d.links n}) (i : ι) (hi : l.file = some i) :
    i ∈ d.created :=
  d.file_mem n l hl.1 i hi

/-- The names are on the disk. -/
def settle (names : Set N) : Disk N ι α :=
  { d with
    durable := fun n => {l ∈ d.durable n | n ∈ names → l = d.links n}
    links_mem := d.links_mem_settle names
    stamp_le := d.stamp_le_settle names
    file_mem := d.file_mem_settle names }

variable [DecidableEq N]

/-- What names may refer to when one more is changed. -/
def extend (n : N) (l : Link ι) : N → Set (Link ι) :=
  Function.update d.durable n (insert l (d.durable n))

lemma mem_extend {n m : N} {l l' : Link ι} :
    l' ∈ d.extend n l m ↔ m = n ∧ l' = l ∨ l' ∈ d.durable m := by
  rw [extend]
  by_cases h : m = n
  · subst h
    simp
  · simp [h]

lemma update_mem_extend {n : N} {l : Link ι} (m : N) :
    Function.update d.links n l m ∈ d.extend n l m := by
  rw [mem_extend]
  by_cases h : m = n
  · subst h
    simp
  · simp [h, d.links_mem m]

lemma stamp_le_extend {n : N} {f : Option ι} (m : N) (l : Link ι)
    (h : l ∈ d.extend n ⟨f, d.clock + 1⟩ m) : l.stamp ≤ d.clock + 1 := by
  rcases d.mem_extend.1 h with ⟨-, rfl⟩ | h
  · exact le_rfl
  · exact (d.stamp_le m l h).trans (Nat.le_succ _)

lemma file_mem_extend {n : N} {f : Option ι} {k : ℕ} (hf : ∀ i, f = some i → i ∈ d.created) (m : N)
    (l : Link ι) (h : l ∈ d.extend n ⟨f, k⟩ m) (i : ι) (hi : l.file = some i) : i ∈ d.created := by
  rcases d.mem_extend.1 h with ⟨-, rfl⟩ | h
  · exact hf i hi
  · exact d.file_mem m l h i hi

/-- The name refers to another file, or to none. -/
def relink (n : N) (f : Option ι) (hf : ∀ i, f = some i → i ∈ d.created) : Disk N ι α :=
  { d with
    links := Function.update d.links n ⟨f, d.clock + 1⟩
    durable := d.extend n ⟨f, d.clock + 1⟩
    clock := d.clock + 1
    links_mem := d.update_mem_extend
    stamp_le := d.stamp_le_extend
    file_mem := d.file_mem_extend hf }

/-- The name refers to nothing. -/
def unlink (n : N) : Disk N ι α := d.relink n none d.mem_created_of_none

/-- The file of a name gets another name. -/
def rename (a b : N) : Disk N ι α := (d.relink b (d.links a).file (d.file_mem_links a)).unlink a

end Names

lemma mem_created_of_eq [DecidableEq ι] {i : ι} (j : ι) (h : some i = some j) :
    j ∈ (d.allocate i).created := by
  cases h
  exact Set.mem_insert _ _

/-- A new empty file with a name. -/
def create [DecidableEq ι] [DecidableEq N] (n : N) (i : ι) : Disk N ι α :=
  (d.allocate i).relink n (some i) d.mem_created_of_eq

/-- What a crash may leave. -/
structure Crash (d d' : Disk N ι α) : Prop where
  content : ∀ i ∈ d.synced, d'.content i = d.content i
  synced : d.synced ⊆ d'.synced
  created : d'.created = d.created
  links_mem : ∀ n, d'.links n ∈ d.durable n
  durable : ∀ n, d'.durable n = {d'.links n}
  clock : d'.clock = d.clock

/-- A crash may come when everything is on the disk. -/
lemma crash_settle_univ : d.Crash (d.settle Set.univ) where
  content _ _ := rfl
  synced := subset_rfl
  created := rfl
  links_mem := d.links_mem
  durable n := by
    ext l
    refine ⟨fun hl => hl.2 (Set.mem_univ n), ?_⟩
    rintro rfl
    exact d.links_mem_settle _ n
  clock := rfl

/-! ### What the changes leave alone -/

section Fields

variable {d}

@[simp] lemma links_sync (i : ι) : (d.sync i).links = d.links := rfl

@[simp] lemma durable_sync (i : ι) : (d.sync i).durable = d.durable := rfl

@[simp] lemma content_sync (i : ι) : (d.sync i).content = d.content := rfl

@[simp] lemma created_sync (i : ι) : (d.sync i).created = d.created := rfl

@[simp] lemma mem_synced_sync {i j : ι} : j ∈ (d.sync i).synced ↔ j = i ∨ j ∈ d.synced :=
  Set.mem_insert_iff

@[simp] lemma links_settle (names : Set N) : (d.settle names).links = d.links := rfl

@[simp] lemma content_settle (names : Set N) : (d.settle names).content = d.content := rfl

@[simp] lemma synced_settle (names : Set N) : (d.settle names).synced = d.synced := rfl

@[simp] lemma created_settle (names : Set N) : (d.settle names).created = d.created := rfl

@[simp] lemma mem_durable_settle {names : Set N} {n : N} {l : Link ι} :
    l ∈ (d.settle names).durable n ↔ l ∈ d.durable n ∧ (n ∈ names → l = d.links n) := Iff.rfl

section

variable [DecidableEq ι]

@[simp] lemma links_append (i : ι) (chunk : List α) : (d.append i chunk).links = d.links := rfl

@[simp] lemma durable_append (i : ι) (chunk : List α) : (d.append i chunk).durable = d.durable := rfl

@[simp] lemma created_append (i : ι) (chunk : List α) : (d.append i chunk).created = d.created := rfl

@[simp] lemma content_append_self (i : ι) (chunk : List α) :
    (d.append i chunk).content i = d.content i ++ chunk := Function.update_self _ _ _

@[simp] lemma content_append_of_ne {i j : ι} (h : j ≠ i) (chunk : List α) :
    (d.append i chunk).content j = d.content j := Function.update_of_ne h _ _

@[simp] lemma mem_synced_append {i j : ι} {chunk : List α} :
    j ∈ (d.append i chunk).synced ↔ j ∈ d.synced ∧ j ≠ i := Iff.rfl

@[simp] lemma links_allocate (i : ι) : (d.allocate i).links = d.links := rfl

@[simp] lemma durable_allocate (i : ι) : (d.allocate i).durable = d.durable := rfl

@[simp] lemma clock_allocate (i : ι) : (d.allocate i).clock = d.clock := rfl

@[simp] lemma mem_created_allocate {i j : ι} :
    j ∈ (d.allocate i).created ↔ j = i ∨ j ∈ d.created := Set.mem_insert_iff

@[simp] lemma content_allocate_self (i : ι) : (d.allocate i).content i = [] :=
  Function.update_self _ _ _

@[simp] lemma content_allocate_of_ne {i j : ι} (h : j ≠ i) :
    (d.allocate i).content j = d.content j := Function.update_of_ne h _ _

@[simp] lemma mem_synced_allocate {i j : ι} :
    j ∈ (d.allocate i).synced ↔ j ∈ d.synced ∧ j ≠ i := Iff.rfl

end

variable [DecidableEq N] {n : N} {f : Option ι} {hf : ∀ i, f = some i → i ∈ d.created}

@[simp] lemma content_relink : (d.relink n f hf).content = d.content := rfl

@[simp] lemma synced_relink : (d.relink n f hf).synced = d.synced := rfl

@[simp] lemma created_relink : (d.relink n f hf).created = d.created := rfl

@[simp] lemma clock_relink : (d.relink n f hf).clock = d.clock + 1 := rfl

@[simp] lemma links_relink_self : (d.relink n f hf).links n = ⟨f, d.clock + 1⟩ :=
  Function.update_self _ _ _

@[simp] lemma links_relink_of_ne {m : N} (h : m ≠ n) : (d.relink n f hf).links m = d.links m :=
  Function.update_of_ne h _ _

@[simp] lemma mem_durable_relink {m : N} {l : Link ι} :
    l ∈ (d.relink n f hf).durable m ↔ m = n ∧ l = ⟨f, d.clock + 1⟩ ∨ l ∈ d.durable m :=
  d.mem_extend

@[simp] lemma links_create_self [DecidableEq ι] {i : ι} :
    (d.create n i).links n = ⟨some i, d.clock + 1⟩ := links_relink_self

@[simp] lemma links_create_of_ne [DecidableEq ι] {i : ι} {m : N} (h : m ≠ n) :
    (d.create n i).links m = d.links m := links_relink_of_ne h

@[simp] lemma mem_durable_create [DecidableEq ι] {i : ι} {m : N} {l : Link ι} :
    l ∈ (d.create n i).durable m ↔ m = n ∧ l = ⟨some i, d.clock + 1⟩ ∨ l ∈ d.durable m :=
  mem_durable_relink

@[simp] lemma content_create [DecidableEq ι] {i : ι} :
    (d.create n i).content = (d.allocate i).content := rfl

@[simp] lemma mem_synced_create [DecidableEq ι] {i j : ι} :
    j ∈ (d.create n i).synced ↔ j ∈ d.synced ∧ j ≠ i := Iff.rfl

@[simp] lemma mem_created_create [DecidableEq ι] {i j : ι} :
    j ∈ (d.create n i).created ↔ j = i ∨ j ∈ d.created := Set.mem_insert_iff

@[simp] lemma content_unlink : (d.unlink n).content = d.content := rfl

@[simp] lemma synced_unlink : (d.unlink n).synced = d.synced := rfl

@[simp] lemma created_unlink : (d.unlink n).created = d.created := rfl

@[simp] lemma links_unlink_of_ne {m : N} (h : m ≠ n) : (d.unlink n).links m = d.links m :=
  links_relink_of_ne h

@[simp] lemma mem_durable_unlink {m : N} {l : Link ι} :
    l ∈ (d.unlink n).durable m ↔ m = n ∧ l = ⟨none, d.clock + 1⟩ ∨ l ∈ d.durable m :=
  d.mem_extend

@[simp] lemma content_rename {a b : N} : (d.rename a b).content = d.content := rfl

@[simp] lemma synced_rename {a b : N} : (d.rename a b).synced = d.synced := rfl

@[simp] lemma created_rename {a b : N} : (d.rename a b).created = d.created := rfl

lemma mem_durable_rename {a b m : N} {l : Link ι} (h : m ≠ a) :
    l ∈ (d.rename a b).durable m ↔
      m = b ∧ l = ⟨(d.links a).file, d.clock + 1⟩ ∨ l ∈ d.durable m := by
  rw [rename, mem_durable_unlink, mem_durable_relink]
  simp [h]

lemma links_rename_of_ne {a b m : N} (ha : m ≠ a) (hb : m ≠ b) :
    (d.rename a b).links m = d.links m := by
  rw [rename, links_unlink_of_ne ha, links_relink_of_ne hb]

lemma links_rename {a b : N} (h : b ≠ a) :
    (d.rename a b).links b = ⟨(d.links a).file, d.clock + 1⟩ := by
  rw [rename, links_unlink_of_ne h, links_relink_self]

end Fields

/-! ### Going back -/

section Since

/-- The name will not refer to what it referred to before `k`. -/
def Since (n : N) (k : ℕ) : Prop := ∀ l ∈ d.durable n, k ≤ l.stamp

variable {d} {n : N} {k : ℕ}

lemma Since.le_links (h : d.Since n k) : k ≤ (d.links n).stamp := h _ (d.links_mem n)

lemma Since.le_clock (h : d.Since n k) : k ≤ d.clock :=
  h.le_links.trans (d.stamp_le n _ (d.links_mem n))

/-- After a sync of the name it does not go back. -/
lemma since_settle {names : Set N} (hn : n ∈ names) (hk : k ≤ (d.links n).stamp) :
    (d.settle names).Since n k := by
  rintro l ⟨-, hl⟩
  rwa [hl hn]

lemma Since.settle (h : d.Since n k) (names : Set N) : (d.settle names).Since n k :=
  fun l hl => h l hl.1

lemma Since.relink [DecidableEq N] (h : d.Since n k) (m : N) (f : Option ι)
    (hf : ∀ i, f = some i → i ∈ d.created) : (d.relink m f hf).Since n k := by
  intro l hl
  rcases mem_durable_relink.1 hl with ⟨-, rfl⟩ | hl
  · exact h.le_clock.trans (Nat.le_succ _)
  · exact h l hl

lemma Since.create [DecidableEq ι] [DecidableEq N] (h : d.Since n k) (m : N) (i : ι) :
    (d.create m i).Since n k :=
  Since.relink (d := d.allocate i) h m (some i) _

lemma Since.unlink [DecidableEq N] (h : d.Since n k) (a : N) : (d.unlink a).Since n k :=
  h.relink a none _

lemma Since.rename [DecidableEq N] (h : d.Since n k) (a b : N) : (d.rename a b).Since n k :=
  (h.relink b _ _).unlink a

lemma Since.crash {d' : Disk N ι α} (h : d.Since n k) (hcrash : Crash d d') : d'.Since n k := by
  intro l hl
  rw [hcrash.durable, Set.mem_singleton_iff] at hl
  subst hl
  exact h _ (hcrash.links_mem n)

/-- The stamp of a name grows while there is no crash. -/
lemma le_links_relink [DecidableEq N] (m : N) (f : Option ι)
    (hf : ∀ i, f = some i → i ∈ d.created) (hk : k ≤ (d.links n).stamp) :
    k ≤ ((d.relink m f hf).links n).stamp := by
  by_cases h : n = m
  · subst h
    rw [links_relink_self]
    exact (hk.trans (d.stamp_le n _ (d.links_mem n))).trans (Nat.le_succ _)
  · rwa [links_relink_of_ne h]

end Since

end Disk

end Lib
