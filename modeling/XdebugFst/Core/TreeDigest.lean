import Mathlib

/-!
# The digest of a directory tree

`sha256_directory_tree` feeds a directory tree to a hash: the members of a directory in the order of
their names, for each one a line with its kind and a line with its path, and after that the content
of a file or the members of a directory. Neither the paths, which may contain newlines, nor the
contents are delimited, so that different trees may feed the same bytes.

`feed_ne_of_not_ambiguous` says when they do not: it is enough that at the first entry at which the
listings differ, neither path goes on behind a newline after the other path, and neither content
goes on with the kind of the entry that follows in the other tree.
-/

namespace XdebugFst.TreeDigest

abbrev Bytes : Type := List UInt8

def newline : UInt8 := 10

def slash : UInt8 := 47

/-- The members of a directory, in the order of their names. -/
inductive Tree
  | nil
  | file (name content : Bytes) (next : Tree)
  | dir (name : Bytes) (sub next : Tree)
  /-- A member that is neither a regular file nor a directory. -/
  | other (name : Bytes) (next : Tree)
  deriving DecidableEq

/-! ### What is fed -/

/-- The path of a member, relative to the root. -/
def childRelative (relative name : Bytes) : Bytes :=
  if relative = [] then name else relative ++ slash :: name

/-- The two lines in front of a member. -/
def marker (kind : UInt8) (path : Bytes) : Bytes := kind :: newline :: (path ++ [newline])

/-- The letter `F`. -/
def fileKind : UInt8 := 70

/-- The letter `D`. -/
def dirKind : UInt8 := 68

/-- `update_directory_tree`: the bytes that are fed to the hash. -/
def updateDirectoryTree (relative : Bytes) : Tree → Except String Bytes
  | .nil => .ok []
  | .file name content next => do
      let rest ← updateDirectoryTree relative next
      return marker fileKind (childRelative relative name) ++ content ++ rest
  | .dir name sub next => do
      let inner ← updateDirectoryTree (childRelative relative name) sub
      let rest ← updateDirectoryTree relative next
      return marker dirKind (childRelative relative name) ++ inner ++ rest
  | .other _ _ => .error "directory tree contains unsupported file type"

/-! ### Directory trees -/

/-- The name of a member of a directory. -/
structure IsName (name : Bytes) : Prop where
  nonempty : name ≠ []
  no_slash : slash ∉ name
  no_null : 0 ∉ name
  not_dot : name ≠ [46]
  not_dots : name ≠ [46, 46]

def Tree.names : Tree → List Bytes
  | nil => []
  | file name _ next => name :: next.names
  | dir name _ next => name :: next.names
  | other name next => name :: next.names

/-- The names are names, each before the next ones, and there are only files and directories. -/
def Tree.WellFormed : Tree → Prop
  | nil => True
  | file name _ next => IsName name ∧ (∀ n ∈ next.names, name < n) ∧ next.WellFormed
  | dir name sub next =>
      IsName name ∧ (∀ n ∈ next.names, name < n) ∧ sub.WellFormed ∧ next.WellFormed
  | other _ _ => False

/-- A directory tree of files. -/
structure DirectoryTree where
  members : Tree
  wellFormed : members.WellFormed

/-! ### The listing of a tree -/

/-- A directory or a file with its path. -/
inductive Entry
  | dir (path : Bytes)
  | file (path content : Bytes)
  deriving DecidableEq

namespace Entry

def kind : Entry → UInt8
  | dir _ => dirKind
  | file _ _ => fileKind

def path : Entry → Bytes
  | dir path => path
  | file path _ => path

def content : Entry → Bytes
  | dir _ => []
  | file _ content => content

/-- What is fed for an entry. -/
def record (e : Entry) : Bytes := marker e.kind e.path ++ e.content

end Entry

/-- The entries of a tree, in the order in which they are fed. -/
def Tree.entries (relative : Bytes) : Tree → List Entry
  | nil => []
  | file name content next => .file (childRelative relative name) content :: next.entries relative
  | dir name sub next =>
      .dir (childRelative relative name) ::
        (sub.entries (childRelative relative name) ++ next.entries relative)
  | other _ next => next.entries relative

/-- The second text goes on behind a newline after the first one. -/
def Continues (path path' : Bytes) : Prop := ∃ more, path' = path ++ newline :: more

/-- The second content goes on after the first one with the kind of the entry that follows the
first one. -/
def Absorbs (content : Bytes) (rest : List Entry) (content' : Bytes) : Prop :=
  ∃ next ∈ rest.head?, ∃ more, content' = content ++ next.kind :: newline :: more

/-- Two different entries, with the entries that follow them, may feed the same bytes. -/
def Confusable (e₁ : Entry) (rest₁ : List Entry) (e₂ : Entry) (rest₂ : List Entry) : Prop :=
  e₁.kind = e₂.kind ∧ (Continues e₁.path e₂.path ∨ Continues e₂.path e₁.path ∨
    e₁.path = e₂.path ∧ (Absorbs e₁.content rest₁ e₂.content ∨ Absorbs e₂.content rest₂ e₁.content))

/-- The entries at the first difference of two listings are confusable. -/
def Ambiguous : List Entry → List Entry → Prop
  | e₁ :: rest₁, e₂ :: rest₂ =>
      if e₁ = e₂ then Ambiguous rest₁ rest₂ else Confusable e₁ rest₁ e₂ rest₂
  | _, _ => False

/-- A tree feeds the records of its entries. -/
lemma updateDirectoryTree_eq {t : Tree} (h : t.WellFormed) (relative : Bytes) :
    updateDirectoryTree relative t = .ok ((t.entries relative).flatMap Entry.record) := by
  induction t generalizing relative with
  | nil => rfl
  | file name content next ih =>
      rw [updateDirectoryTree, ih h.2.2, Tree.entries, List.flatMap_cons]
      rfl
  | dir name sub next ihsub ihnext =>
      rw [updateDirectoryTree, ihsub h.2.2.1, ihnext h.2.2.2, Tree.entries, List.flatMap_cons,
        List.flatMap_append, Entry.record, ← List.append_assoc]
      show Except.ok _ = _
      rw [Entry.content, List.append_nil]
      rfl
  | other name next => exact h.elim

/-! ### Records -/

lemma dirKind_ne_fileKind : dirKind ≠ fileKind := by decide

lemma kind_ne_newline (e : Entry) : e.kind ≠ newline := by
  cases e with
  | dir path => exact show dirKind ≠ newline by decide
  | file path content => exact show fileKind ≠ newline by decide

lemma Entry.record_eq (e : Entry) :
    e.record = e.kind :: newline :: (e.path ++ newline :: e.content) := by
  rw [record, marker, List.cons_append, List.cons_append, List.append_assoc]
  rfl

/-- What is fed for a listing starts with the kind of its first entry. -/
lemma flatMap_record_cases (rest : List Entry) : rest.flatMap Entry.record = [] ∨
    ∃ next ∈ rest.head?, ∃ more, rest.flatMap Entry.record = next.kind :: newline :: more := by
  cases rest with
  | nil => exact Or.inl rfl
  | cons next rest =>
      refine Or.inr ⟨next, rfl, next.path ++ newline :: next.content ++ rest.flatMap Entry.record, ?_⟩
      rw [List.flatMap_cons, next.record_eq]
      rfl

/-- Of two texts in front of a newline, one is the other or goes on behind a newline. -/
lemma append_newline_cases {a b x y : Bytes} (h : a ++ newline :: x = b ++ newline :: y) :
    Continues a b ∨ Continues b a ∨ a = b ∧ x = y := by
  rcases List.append_eq_append_iff.1 h with ⟨more, rfl, hrest⟩ | ⟨more, rfl, hrest⟩
  · cases more with
    | nil => exact Or.inr (Or.inr ⟨by rw [List.append_nil], (List.cons.inj hrest).2⟩)
    | cons c more =>
        obtain ⟨rfl, -⟩ := List.cons.inj hrest
        exact Or.inl ⟨more, rfl⟩
  · cases more with
    | nil => exact Or.inr (Or.inr ⟨by rw [List.append_nil], (List.cons.inj hrest).2.symm⟩)
    | cons c more =>
        obtain ⟨rfl, -⟩ := List.cons.inj hrest
        exact Or.inr (Or.inl ⟨more, rfl⟩)

/-- A content that goes on goes on with the entry that follows the other one. -/
lemma absorbs_of_eq {content more : Bytes} {rest₁ rest₂ : List Entry} (hmore : more ≠ [])
    (h : rest₁.flatMap Entry.record = more ++ rest₂.flatMap Entry.record) :
    Absorbs content rest₁ (content ++ more) := by
  rcases flatMap_record_cases rest₁ with hnil | ⟨next, hnext, tail, hcons⟩
  · rw [hnil] at h
    exact absurd (List.append_eq_nil_iff.1 h.symm).1 hmore
  · obtain ⟨c, more', rfl⟩ := List.exists_cons_of_ne_nil hmore
    rw [hcons, List.cons_append] at h
    obtain ⟨rfl, htail⟩ := List.cons.inj h
    cases more' with
    | cons d more' =>
        obtain ⟨rfl, -⟩ := List.cons.inj htail
        exact ⟨next, hnext, more', rfl⟩
    | nil =>
        -- no listing starts with a newline
        rcases flatMap_record_cases rest₂ with hnil₂ | ⟨next₂, -, tail₂, hcons₂⟩
        · rw [hnil₂] at htail
          cases htail
        · rw [hcons₂] at htail
          exact absurd (List.cons.inj htail).1.symm (kind_ne_newline next₂)

lemma Entry.ext {e₁ e₂ : Entry} (hkind : e₁.kind = e₂.kind) (hpath : e₁.path = e₂.path)
    (hcontent : e₁.content = e₂.content) : e₁ = e₂ := by
  cases e₁ with
  | dir path₁ =>
      cases e₂ with
      | dir path₂ => exact congrArg Entry.dir hpath
      | file path₂ content₂ => exact absurd hkind dirKind_ne_fileKind
  | file path₁ content₁ =>
      cases e₂ with
      | dir path₂ => exact absurd hkind dirKind_ne_fileKind.symm
      | file path₂ content₂ => exact congrArg₂ Entry.file hpath hcontent

/-- Different entries that start the same bytes are confusable. -/
lemma confusable_of_eq {e₁ e₂ : Entry} {rest₁ rest₂ : List Entry} (hne : e₁ ≠ e₂)
    (h : e₁.record ++ rest₁.flatMap Entry.record = e₂.record ++ rest₂.flatMap Entry.record) :
    Confusable e₁ rest₁ e₂ rest₂ := by
  rw [e₁.record_eq, e₂.record_eq, List.cons_append, List.cons_append, List.cons_append,
    List.cons_append, List.append_assoc, List.append_assoc, List.cons_append, List.cons_append] at h
  obtain ⟨hkind, h⟩ := List.cons.inj h
  refine ⟨hkind, ?_⟩
  rcases append_newline_cases (List.cons.inj h).2 with hcont | hcont | ⟨hpath, h⟩
  · exact Or.inl hcont
  · exact Or.inr (Or.inl hcont)
  · refine Or.inr (Or.inr ⟨hpath, ?_⟩)
    rcases List.append_eq_append_iff.1 h with ⟨more, hcontent, hrest⟩ | ⟨more, hcontent, hrest⟩
    · have hmore : more ≠ [] := by
        rintro rfl
        rw [List.append_nil] at hcontent
        exact hne (Entry.ext hkind hpath hcontent.symm)
      rw [hcontent]
      exact Or.inl (absorbs_of_eq hmore hrest)
    · have hmore : more ≠ [] := by
        rintro rfl
        rw [List.append_nil] at hcontent
        exact hne (Entry.ext hkind hpath hcontent)
      rw [hcontent]
      exact Or.inr (absorbs_of_eq hmore hrest)

/-- Listings that differ without ambiguity feed different bytes. -/
lemma flatMap_record_ne {l₁ l₂ : List Entry} (hne : l₁ ≠ l₂) (h : ¬ Ambiguous l₁ l₂) :
    l₁.flatMap Entry.record ≠ l₂.flatMap Entry.record := by
  induction l₁ generalizing l₂ with
  | nil =>
      cases l₂ with
      | nil => exact absurd rfl hne
      | cons e₂ rest₂ =>
          rw [List.flatMap_nil, List.flatMap_cons, e₂.record_eq]
          exact (List.cons_ne_nil _ _).symm
  | cons e₁ rest₁ ih =>
      cases l₂ with
      | nil =>
          rw [List.flatMap_nil, List.flatMap_cons, e₁.record_eq]
          exact List.cons_ne_nil _ _
      | cons e₂ rest₂ =>
          rw [Ambiguous] at h
          rw [List.flatMap_cons, List.flatMap_cons]
          intro heq
          by_cases he : e₁ = e₂
          · subst he
            rw [if_pos rfl] at h
            exact ih (fun hrest => hne (congrArg _ hrest)) h (List.append_cancel_left heq)
          · rw [if_neg he] at h
            exact h (confusable_of_eq he heq)

/-! ### Listings -/

/-- The part of a path in front of the name of a member. -/
def pathPrefix (relative : Bytes) : Bytes := if relative = [] then [] else relative ++ [slash]

lemma childRelative_eq (relative name : Bytes) :
    childRelative relative name = pathPrefix relative ++ name := by
  rw [childRelative, pathPrefix]
  split_ifs
  · rfl
  · rw [List.append_assoc]
    rfl

lemma pathPrefix_childRelative {relative name : Bytes} (h : IsName name) :
    pathPrefix (childRelative relative name) = childRelative relative name ++ [slash] := by
  refine if_neg fun hnil => ?_
  rw [childRelative_eq] at hnil
  exact h.nonempty (List.append_eq_nil_iff.1 hnil).2

/-- The entry is inside the member `name`. -/
def Inside (relative name : Bytes) (e : Entry) : Prop :=
  ∃ more, e.path = pathPrefix relative ++ name ++ slash :: more

/-- What is in a member of the directory `name` is inside it. -/
lemma inside_of_childPath {relative name n : Bytes} (hname : IsName name) {e : Entry}
    (hpath : e.path = pathPrefix (childRelative relative name) ++ n ∨
      ∃ more, e.path = pathPrefix (childRelative relative name) ++ n ++ slash :: more) :
    Inside relative name e := by
  rw [pathPrefix_childRelative hname, childRelative_eq] at hpath
  rcases hpath with hpath | ⟨more, hpath⟩
  · exact ⟨n, by rw [hpath, List.append_assoc]; rfl⟩
  · exact ⟨n ++ slash :: more, by rw [hpath]; simp⟩

/-- The path of an entry is that of a member or goes on behind a slash after it. -/
lemma path_of_mem_entries {t : Tree} (ht : t.WellFormed) {relative : Bytes} {e : Entry}
    (he : e ∈ t.entries relative) :
    ∃ name ∈ t.names, IsName name ∧ (e.path = pathPrefix relative ++ name ∨
      ∃ more, e.path = pathPrefix relative ++ name ++ slash :: more) := by
  induction t generalizing relative with
  | nil => exact absurd he List.not_mem_nil
  | file name content next ih =>
      rcases List.mem_cons.1 he with rfl | he
      · exact ⟨name, List.mem_cons_self, ht.1, Or.inl (childRelative_eq relative name)⟩
      · obtain ⟨n, hn, hpath⟩ := ih ht.2.2 he
        exact ⟨n, List.mem_cons_of_mem _ hn, hpath⟩
  | dir name sub next ihsub ihnext =>
      rcases List.mem_cons.1 he with rfl | he
      · exact ⟨name, List.mem_cons_self, ht.1, Or.inl (childRelative_eq relative name)⟩
      · rcases List.mem_append.1 he with he | he
        · obtain ⟨n, -, -, hpath⟩ := ihsub ht.2.2.1 he
          exact ⟨name, List.mem_cons_self, ht.1, Or.inr (inside_of_childPath ht.1 hpath)⟩
        · obtain ⟨n, hn, hpath⟩ := ihnext ht.2.2.2 he
          exact ⟨n, List.mem_cons_of_mem _ hn, hpath⟩
  | other name next => exact ht.elim

lemma inside_of_mem_sub {sub : Tree} (hsub : sub.WellFormed) {relative name : Bytes}
    (hname : IsName name) {e : Entry} (he : e ∈ sub.entries (childRelative relative name)) :
    Inside relative name e := by
  obtain ⟨n, -, -, hpath⟩ := path_of_mem_entries hsub he
  exact inside_of_childPath hname hpath

/-- A text without a slash in front of one is determined. -/
lemma append_slash_inj {a b x y : Bytes} (ha : slash ∉ a) (hb : slash ∉ b)
    (h : a ++ slash :: x = b ++ slash :: y) : a = b := by
  rcases List.append_eq_append_iff.1 h with ⟨more, rfl, hrest⟩ | ⟨more, rfl, hrest⟩
  · cases more with
    | nil => rw [List.append_nil]
    | cons c more =>
        obtain ⟨rfl, -⟩ := List.cons.inj hrest
        exact absurd (List.mem_append_right a List.mem_cons_self) hb
  · cases more with
    | nil => rw [List.append_nil]
    | cons c more =>
        obtain ⟨rfl, -⟩ := List.cons.inj hrest
        exact absurd (List.mem_append_right b List.mem_cons_self) ha

lemma not_inside_of_mem_next {next : Tree} (hnext : next.WellFormed) {relative name : Bytes}
    (hname : IsName name) (hlt : ∀ n ∈ next.names, name < n) {e : Entry}
    (he : e ∈ next.entries relative) : ¬ Inside relative name e := by
  rintro ⟨more, hpath⟩
  obtain ⟨n, hn, hisName, hpath' | ⟨more', hpath'⟩⟩ := path_of_mem_entries hnext he
  · rw [hpath', List.append_assoc] at hpath
    rw [List.append_cancel_left hpath] at hisName
    exact hisName.no_slash (List.mem_append_right name List.mem_cons_self)
  · rw [hpath', List.append_assoc, List.append_assoc] at hpath
    have heq := append_slash_inj hisName.no_slash hname.no_slash (List.append_cancel_left hpath)
    exact absurd (hlt n hn) (heq ▸ List.lt_irrefl n)

/-- Two concatenations are equal in parts if a property tells the parts apart. -/
lemma append_inj_of_forall {α : Type} {p : α → Prop} {a b a' b' : List α} (ha : ∀ x ∈ a, p x)
    (hb : ∀ x ∈ b, ¬ p x) (ha' : ∀ x ∈ a', p x) (hb' : ∀ x ∈ b', ¬ p x) (h : a ++ b = a' ++ b') :
    a = a' ∧ b = b' := by
  classical
  have hfilter : ∀ {l m : List α}, (∀ x ∈ l, p x) → (∀ x ∈ m, ¬ p x) →
      (l ++ m).filter (fun x => decide (p x)) = l := by
    intro l m hl hm
    rw [List.filter_append, List.filter_eq_self.2 fun x hx => decide_eq_true (hl x hx),
      List.filter_eq_nil_iff.2 fun x hx => by simpa using hm x hx, List.append_nil]
  have heq : a = a' := by
    rw [← hfilter ha hb, h, hfilter ha' hb']
  subst heq
  exact ⟨rfl, List.append_cancel_left h⟩

lemma childRelative_injective {relative a b : Bytes}
    (h : childRelative relative a = childRelative relative b) : a = b := by
  rw [childRelative_eq, childRelative_eq] at h
  exact List.append_cancel_left h

/-- A tree is determined by its listing. -/
lemma entries_injective {t₁ t₂ : Tree} (h₁ : t₁.WellFormed) (h₂ : t₂.WellFormed) {relative : Bytes}
    (h : t₁.entries relative = t₂.entries relative) : t₁ = t₂ := by
  induction t₁ generalizing t₂ relative with
  | nil =>
      cases t₂ with
      | nil => rfl
      | other => exact h₂.elim
      | _ => cases h
  | file name₁ content₁ next₁ ih =>
      cases t₂ with
      | file name₂ content₂ next₂ =>
          obtain ⟨hentry, hrest⟩ := List.cons.inj h
          obtain ⟨hname, rfl⟩ := Entry.file.inj hentry
          rw [childRelative_injective hname, ih h₁.2.2 h₂.2.2 hrest]
      | other => exact h₂.elim
      | _ => cases h
  | dir name₁ sub₁ next₁ ihsub ihnext =>
      cases t₂ with
      | dir name₂ sub₂ next₂ =>
          obtain ⟨hentry, hrest⟩ := List.cons.inj h
          obtain rfl := childRelative_injective (Entry.dir.inj hentry)
          obtain ⟨hsub, hnext⟩ := append_inj_of_forall
            (fun e he => inside_of_mem_sub h₁.2.2.1 h₁.1 he)
            (fun e he => not_inside_of_mem_next h₁.2.2.2 h₁.1 h₁.2.1 he)
            (fun e he => inside_of_mem_sub h₂.2.2.1 h₂.1 he)
            (fun e he => not_inside_of_mem_next h₂.2.2.2 h₂.1 h₂.2.1 he) hrest
          rw [ihsub h₁.2.2.1 h₂.2.2.1 hsub, ihnext h₁.2.2.2 h₂.2.2.2 hnext]
      | other => exact h₂.elim
      | _ => cases h
  | other => exact h₁.elim

/-- Different trees feed different bytes unless their listings are ambiguous. -/
theorem feed_ne_of_not_ambiguous (t₁ t₂ : DirectoryTree) (hne : t₁ ≠ t₂)
    (h : ¬ Ambiguous (t₁.members.entries []) (t₂.members.entries [])) :
    ∃ bytes₁ bytes₂, updateDirectoryTree [] t₁.members = .ok bytes₁ ∧
      updateDirectoryTree [] t₂.members = .ok bytes₂ ∧ bytes₁ ≠ bytes₂ := by
  refine ⟨_, _, updateDirectoryTree_eq t₁.wellFormed [], updateDirectoryTree_eq t₂.wellFormed [],
    flatMap_record_ne (fun heq => hne ?_) h⟩
  obtain ⟨members₁, wellFormed₁⟩ := t₁
  obtain ⟨members₂, wellFormed₂⟩ := t₂
  obtain rfl := entries_injective wellFormed₁ wellFormed₂ heq
  rfl

lemma isName_a : IsName [97] := by
  constructor
  all_goals decide

lemma isName_b : IsName [98] := by
  constructor
  all_goals decide

lemma wellFormed_a (content : Bytes) : (Tree.file [97] content .nil).WellFormed :=
  ⟨isName_a, fun _ h => absurd h List.not_mem_nil, trivial⟩

lemma wellFormed_a_b (content content' : Bytes) :
    (Tree.file [97] content (.file [98] content' .nil)).WellFormed := by
  refine ⟨isName_a, fun n hn => ?_, isName_b, fun _ h => absurd h List.not_mem_nil, trivial⟩
  rw [List.mem_singleton.1 hn]
  decide

/-- A file `a` with the text `x`, and a file `b` with the text `y`. -/
def twoFiles : DirectoryTree := ⟨_, wellFormed_a_b [120] [121]⟩

/-- A file `a` whose content is what `twoFiles` feeds behind its lines. -/
def oneFile : DirectoryTree := ⟨_, wellFormed_a ([120] ++ marker fileKind [98] ++ [121])⟩

/-- The file `a` with another text. -/
def otherFile : DirectoryTree := ⟨_, wellFormed_a [122]⟩

theorem twoFiles_otherFile : twoFiles ≠ otherFile ∧
    ∃ bytes₁ bytes₂, updateDirectoryTree [] twoFiles.members = .ok bytes₁ ∧
      updateDirectoryTree [] otherFile.members = .ok bytes₂ ∧ bytes₁ ≠ bytes₂ := by
  have hne : twoFiles ≠ otherFile := fun h => by
    have hmembers := congrArg DirectoryTree.members h
    exact absurd hmembers (by decide)
  refine ⟨hne, feed_ne_of_not_ambiguous _ _ hne ?_⟩
  show ¬ Ambiguous [.file [97] [120], .file [98] [121]] [.file [97] [122]]
  rw [Ambiguous, if_neg (by decide)]
  rintro ⟨-, ⟨more, h⟩ | ⟨more, h⟩ | ⟨-, ⟨next, -, more, h⟩ | ⟨next, hnext, -⟩⟩⟩
  · cases h
  · cases h
  · cases h
  · cases hnext

/-- The content of a file can go on with what another tree feeds for its next file. -/
theorem twoFiles_oneFile : ¬ ∀ t₁ t₂ : DirectoryTree, t₁ ≠ t₂ →
    ∃ bytes₁ bytes₂, updateDirectoryTree [] t₁.members = .ok bytes₁ ∧
      updateDirectoryTree [] t₂.members = .ok bytes₂ ∧ bytes₁ ≠ bytes₂ := by
  intro h
  have hne : twoFiles ≠ oneFile := fun h => by
    have hmembers := congrArg DirectoryTree.members h
    exact absurd hmembers (by decide)
  obtain ⟨bytes₁, bytes₂, h₁, h₂, hbytes⟩ := h _ _ hne
  have heq : updateDirectoryTree [] twoFiles.members = updateDirectoryTree [] oneFile.members := rfl
  rw [h₁, h₂] at heq
  exact hbytes (Except.ok.inj heq)

end XdebugFst.TreeDigest
