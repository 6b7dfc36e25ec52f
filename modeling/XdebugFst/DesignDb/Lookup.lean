import Mathlib
import XdebugFst.Lib.Throws
import XdebugFst.DesignDb.Safe
import XdebugFst.DesignDb.RoundTrip

/-!
Name lookup in an accepted design database, and in the shared library it replaces.

The file holds every name twice, in the signal records and in the name index. `validate` checks
that the index is strictly sorted and that each signal has one entry, so the binary search of
`resolve` is a lookup in a finite table, whatever the file. It does not compare the two copies.

`XddDesignBackend` asks a shared library for the same names. Both backends try a list of
spellings and answer with the first one that their table knows; only the lists differ.
-/

namespace XdebugFst.DesignDb

open Lib

/-! ### The first spelling that a table knows -/

/-- The answer of the first spelling that has one, `-1` when none has. -/
def firstHit (lookup : List UInt8 → ℤ) : List (List UInt8) → ℤ
  | [] => -1
  | s :: rest => if lookup s ≥ 0 then lookup s else firstHit lookup rest

section FirstHit

variable {lookup : List UInt8 → ℤ} {pre post : List (List UInt8)} {s : List UInt8}

lemma firstHit_cons (hs : 0 ≤ lookup s) : firstHit lookup (s :: post) = lookup s := if_pos hs

lemma firstHit_cons_miss (hs : lookup s < 0) :
    firstHit lookup (s :: post) = firstHit lookup post := if_neg (not_le.mpr hs)

lemma firstHit_append (hpre : ∀ t ∈ pre, lookup t < 0) :
    firstHit lookup (pre ++ post) = firstHit lookup post := by
  induction pre with
  | nil => rfl
  | cons t pre ih =>
      rw [List.forall_mem_cons] at hpre
      rw [List.cons_append, firstHit_cons_miss hpre.1, ih hpre.2]

/-- An answer is that of some spelling, and the spellings before it have none. -/
lemma exists_of_firstHit {spellings : List (List UInt8)} (h : 0 ≤ firstHit lookup spellings) :
    ∃ pre s post, spellings = pre ++ s :: post ∧ (∀ t ∈ pre, lookup t < 0) ∧
      lookup s = firstHit lookup spellings := by
  induction spellings with
  | nil => simp [firstHit] at h
  | cons t rest ih =>
      rw [firstHit] at h ⊢
      by_cases ht : lookup t ≥ 0
      · rw [if_pos ht]
        exact ⟨[], t, rest, rfl, by simp, rfl⟩
      · rw [if_neg ht] at h ⊢
        obtain ⟨pre, s, post, rfl, hpre, hs⟩ := ih h
        refine ⟨t :: pre, s, post, rfl, ?_, hs⟩
        exact List.forall_mem_cons.mpr ⟨not_le.mp ht, hpre⟩

end FirstHit

/-! ### The name index as a table -/

namespace BinaryDesignBackend

variable (db : BinaryDesignBackend)

/-- The entry `k` of the name index: its name and its signal. -/
def indexEntry (k : ℕ) : Option (List UInt8 × ℤ) := do
  let record ← readNameIndexRecord db.bytes (db.recordPos .nameIndex k)
  let name ← db.derefString record.name
  return (name, record.signal)

/-- The name in the record of a signal. -/
def recordName (i : ℤ) : Option (List UInt8) := do
  let record ← db.signalRecord i
  db.derefString record.name

/-- The name index is the given table, strictly sorted by name. -/
structure Indexes (entries : List (List UInt8 × ℕ)) : Prop where
  count_eq : db.count .nameIndex = entries.length
  entry_eq : ∀ k e, entries[k]? = some e → db.indexEntry k = some (e.1, (e.2 : ℤ))
  sorted : entries.Pairwise fun a b => strcmp a.1 b.1 = .lt

/-- The signal of a name in a table, `-1` when the table does not have it. -/
def lookupIn (entries : List (List UInt8 × ℕ)) (query : List UInt8) : ℤ :=
  match entries.find? fun e => e.1 = query with
  | some e => e.2
  | none => -1

variable {db} {entries : List (List UInt8 × ℕ)}

lemma eq_of_strcmp {a b : List UInt8} (h : strcmp a b = .eq) : a = b := by
  unfold strcmp at h
  exact Std.LawfulEqCmp.eq_of_compare h

lemma strcmp_self (a : List UInt8) : strcmp a a = .eq := Std.ReflOrd.compare_self

lemma strcmp_gt_iff {a b : List UInt8} : strcmp a b = .gt ↔ strcmp b a = .lt := by
  unfold strcmp
  exact Std.OrientedCmp.gt_iff_lt

/-- In a sorted table the positions are ordered as the names are. -/
lemma lt_of_strcmp (hsorted : entries.Pairwise fun a b => strcmp a.1 b.1 = .lt) {k m : ℕ}
    {a b : List UInt8 × ℕ} (hk : entries[k]? = some a) (hm : entries[m]? = some b)
    (hlt : strcmp a.1 b.1 = .lt) : k < m := by
  obtain ⟨hklt, rfl⟩ := List.getElem?_eq_some_iff.mp hk
  obtain ⟨hmlt, rfl⟩ := List.getElem?_eq_some_iff.mp hm
  by_contra hge
  rcases Nat.lt_or_eq_of_le (not_lt.mp hge) with hgt | rfl
  · have hless := List.pairwise_iff_getElem.mp hsorted m k hmlt hklt hgt
    rw [← strcmp_gt_iff, hlt] at hless
    cases hless
  · rw [strcmp_self] at hlt
    cases hlt

/-- In a sorted table a name occurs once. -/
lemma eq_of_fst_eq (hsorted : entries.Pairwise fun a b => strcmp a.1 b.1 = .lt)
    {a b : List UInt8 × ℕ} (ha : a ∈ entries) (hb : b ∈ entries) (heq : a.1 = b.1) : a = b := by
  obtain ⟨k, hklt, rfl⟩ := List.mem_iff_getElem.mp ha
  obtain ⟨m, hmlt, rfl⟩ := List.mem_iff_getElem.mp hb
  have hpair := List.pairwise_iff_getElem.mp hsorted
  rcases lt_trichotomy k m with hlt | rfl | hgt
  · have hless := hpair k m hklt hmlt hlt
    rw [heq, strcmp_self] at hless
    cases hless
  · rfl
  · have hless := hpair m k hmlt hklt hgt
    rw [heq, strcmp_self] at hless
    cases hless

lemma lookupIn_of_mem (hsorted : entries.Pairwise fun a b => strcmp a.1 b.1 = .lt)
    {name : List UInt8} {i : ℕ} (h : (name, i) ∈ entries) : lookupIn entries name = i := by
  unfold lookupIn
  cases hfind : entries.find? fun e => e.1 = name with
  | none =>
      have hnone := List.find?_eq_none.mp hfind (name, i) h
      simp at hnone
  | some e =>
      have hname : e.1 = name := by simpa using List.find?_some hfind
      have heq := eq_of_fst_eq hsorted (List.mem_of_find?_eq_some hfind) h hname
      rw [heq]

lemma lookupIn_of_notMem {name : List UInt8} (h : ∀ e ∈ entries, e.1 ≠ name) :
    lookupIn entries name = -1 := by
  unfold lookupIn
  rw [List.find?_eq_none.mpr (by simpa using h)]

/-- An answer of a table comes from one of its entries. -/
lemma mem_of_lookupIn {name : List UInt8} {i : ℕ} (h : lookupIn entries name = i) :
    (name, i) ∈ entries := by
  unfold lookupIn at h
  split at h
  next e hfind =>
    have hname : e.1 = name := by simpa using List.find?_some hfind
    have hi : e.2 = i := by exact_mod_cast h
    have hmem := List.mem_of_find?_eq_some hfind
    rw [← hname, ← hi]
    exact hmem
  · omega

lemma lookupIn_neg_iff {name : List UInt8} :
    lookupIn entries name < 0 ↔ ∀ e ∈ entries, e.1 ≠ name := by
  constructor
  · intro hneg e he hname
    unfold lookupIn at hneg
    split at hneg
    · omega
    next hnone =>
      have := List.find?_eq_none.mp hnone e he
      simp [hname] at this
  · intro hno
    rw [lookupIn_of_notMem hno]
    omega

lemma indexEntry_eq_some {k : ℕ} {e : List UInt8 × ℤ} (h : db.indexEntry k = some e) :
    ∃ record, readNameIndexRecord db.bytes (db.recordPos .nameIndex k) = some record ∧
      db.derefString record.name = some e.1 ∧ record.signal = e.2 := by
  unfold indexEntry at h
  simp only [Option.bind_eq_bind, Option.bind_eq_some_iff] at h
  obtain ⟨record, hrecord, name, hname, he⟩ := h
  obtain rfl := Option.some.inj he
  exact ⟨record, hrecord, hname, rfl⟩

/-- Between two bounds that leave no room there is no name to find. -/
lemma lookupIn_of_le {query : List UInt8} {low high : ℕ} (hle : ¬ low < high)
    (hin : ∀ k e, entries[k]? = some e → e.1 = query → low ≤ k ∧ k < high) :
    lookupIn entries query = -1 := by
  refine lookupIn_of_notMem fun e he hname => ?_
  obtain ⟨k, hk⟩ := List.mem_iff_getElem?.mp he
  have hbounds := hin k e hk hname
  omega

/-- The binary search between two bounds, outside of which the query is not, is the lookup in the
table. -/
lemma Indexes.exactBetween_eq (h : db.Indexes entries) (query : List UInt8) {fuel low high : ℕ}
    (hfuel : high ≤ low + fuel) (hhigh : high ≤ entries.length)
    (hin : ∀ k e, entries[k]? = some e → e.1 = query → low ≤ k ∧ k < high) :
    db.exactBetween query fuel low high = some (lookupIn entries query) := by
  induction fuel generalizing low high with
  | zero =>
      have hle : ¬ low < high := by omega
      rw [exactBetween, if_neg hle, lookupIn_of_le hle hin]
  | succ fuel ih =>
      rw [exactBetween]
      split
      next hlt =>
        dsimp only
        set mid := low + (high - low) / 2 with hmid
        have hmidlt : mid < entries.length := by omega
        have hget : entries[mid]? = some entries[mid] := List.getElem?_eq_getElem hmidlt
        obtain ⟨record, hrecord, hname, hsignal⟩ := indexEntry_eq_some (h.entry_eq mid _ hget)
        rw [hrecord]
        dsimp only [Option.bind_eq_bind, Option.bind_some]
        rw [hname]
        dsimp only [Option.bind_some]
        cases hcmp : strcmp query entries[mid].1 with
        | eq =>
            have hmem : (query, entries[mid].2) ∈ entries := by
              rw [eq_of_strcmp hcmp]
              exact List.getElem_mem hmidlt
            rw [lookupIn_of_mem h.sorted hmem]
            exact congrArg some hsignal
        | lt =>
            refine ih (by omega) (by omega) ?_
            rintro k e hk rfl
            exact ⟨(hin k e hk rfl).1, lt_of_strcmp h.sorted hk hget hcmp⟩
        | gt =>
            refine ih (by omega) hhigh ?_
            rintro k e hk rfl
            exact ⟨lt_of_strcmp h.sorted hget hk (strcmp_gt_iff.mp hcmp), (hin k e hk rfl).2⟩
      next hle => rw [lookupIn_of_le hle hin]

lemma Indexes.exact_eq (h : db.Indexes entries) (query : List UInt8) :
    db.exact query = some (lookupIn entries query) := by
  unfold exact
  refine h.exactBetween_eq query (by omega) h.count_eq.le ?_
  intro k e hk _
  obtain ⟨hlt, -⟩ := List.getElem?_eq_some_iff.mp hk
  exact ⟨Nat.zero_le k, h.count_eq ▸ hlt⟩

/-! ### The spellings of a query -/

/-- The spellings that `BinaryDesignBackend::resolve` tries for a query, in their order. -/
def spellings (query : List UInt8) : List (List UInt8) :=
  if upperTop.isPrefixOf query then
    [query, lowerTop ++ query.drop 4, query.drop 4, lowerTop ++ (lowerTop ++ query.drop 4)]
  else if lowerTop.isPrefixOf query then [query, query.drop 4, lowerTop ++ query]
  else [query, lowerTop ++ query]

lemma lookupIn_cases (entries : List (List UInt8 × ℕ)) (query : List UInt8) :
    0 ≤ lookupIn entries query ∨ lookupIn entries query = -1 := by
  unfold lookupIn
  split
  · exact .inl (Int.natCast_nonneg _)
  · exact .inr rfl

/-- The answer for one spelling is the first hit of a list of one. -/
lemma firstHit_singleton (query : List UInt8) :
    firstHit (lookupIn entries) [query] = lookupIn entries query := by
  rw [firstHit, firstHit]
  rcases lookupIn_cases entries query with h | h
  · rw [if_pos h]
  · rw [h]
    rfl

/-- One attempt of `resolve` and what it does after a miss. -/
lemma Indexes.attempt_eq (h : db.Indexes entries) (s : List UInt8) {rest : List (List UInt8)}
    {next : Option ℤ} (hnext : next = some (firstHit (lookupIn entries) rest)) :
    (do
      let resolved ← db.exact s
      if resolved ≥ 0 then return resolved
      next) = some (firstHit (lookupIn entries) (s :: rest)) := by
  subst hnext
  rw [h.exact_eq, firstHit]
  dsimp only [Option.bind_eq_bind, Option.bind_some]
  split <;> rfl

lemma Indexes.resolveAlias_eq (h : db.Indexes entries) {query : List UInt8}
    (hlower : lowerTop.isPrefixOf query = true) :
    db.resolveAlias query =
      some (firstHit (lookupIn entries) [query.drop 4, lowerTop ++ query]) := by
  unfold resolveAlias
  rw [if_neg (by simp [hlower])]
  exact h.attempt_eq _ (h.attempt_eq _ rfl)

/-- `resolve` answers with the first of the spellings that the index has. -/
lemma Indexes.resolve_eq (h : db.Indexes entries) {name query : List UInt8}
    (hquery : name.takeWhile (· ≠ 0) = query) (hne : query ≠ []) :
    db.resolve (some name) = some (firstHit (lookupIn entries) (spellings query)) := by
  obtain ⟨c, rest, rfl⟩ := List.exists_cons_of_ne_nil hne
  unfold resolve spellings
  rw [Option.map_some, hquery]
  dsimp only
  split
  next hupper =>
    refine h.attempt_eq _ (h.attempt_eq _ ?_)
    rw [h.resolveAlias_eq (by simp [lowerTop, List.isPrefixOf])]
    rfl
  next hupper =>
    split
    next hlower => exact h.attempt_eq _ (h.resolveAlias_eq hlower)
    next hlower =>
      refine h.attempt_eq _ ?_
      unfold resolveAlias
      rw [if_pos (Bool.eq_false_iff.mpr hlower), h.exact_eq, firstHit_singleton]

/-! ### The index of an accepted file -/

/-- What the loop over the name index has established before the entry `i`: a sorted table of the
entries so far, with the last name at hand. -/
structure TableInv (db : BinaryDesignBackend) (i : ℕ) (st : NameState)
    (entries : List (List UInt8 × ℕ)) : Prop where
  length_eq : entries.length = i
  entry_eq : ∀ k e, entries[k]? = some e → db.indexEntry k = some (e.1, (e.2 : ℤ))
  sorted : entries.Pairwise fun a b => strcmp a.1 b.1 = .lt
  marks : st.indexedSignals.length = db.count .signals
  isString : ∀ value, st.prior = some value → db.IsString value
  prior : st.prior.map db.stringValue = entries.getLast?.map fun e => some e.1

lemma strcmp_trans {a b c : List UInt8} (hab : strcmp a b = .lt) (hbc : strcmp b c = .lt) :
    strcmp a c = .lt := by
  unfold strcmp at *
  exact Std.TransCmp.lt_trans hab hbc

/-- A name after the last one of a sorted table is after all of them. -/
lemma strcmp_of_getLast (hsorted : entries.Pairwise fun a b => strcmp a.1 b.1 = .lt)
    {name : List UInt8} (hlast : ∀ e, entries.getLast? = some e → strcmp e.1 name = .lt)
    {e : List UInt8 × ℕ} (he : e ∈ entries) : strcmp e.1 name = .lt := by
  induction entries using List.reverseRecOn with
  | nil => cases he
  | append_singleton entries last _ =>
      have hname := hlast last (by simp)
      rw [List.pairwise_append] at hsorted
      rw [List.mem_append, List.mem_singleton] at he
      rcases he with he | rfl
      · exact strcmp_trans (hsorted.2.2 e he last (by simp)) hname
      · exact hname

/-- The comparison with the previous name passes only behind the last name of the table. -/
lemma TableInv.requireAfter_checks {i : ℕ} {st : NameState} (hinv : TableInv db i st entries)
    {value : ℕ} {name : List UInt8} (hname : db.stringValue value = some name) :
    Checks (db.requireAfter st.prior value) fun _ =>
      ∀ e, entries.getLast? = some e → strcmp e.1 name = .lt := by
  have hlast := hinv.prior
  cases hprior : st.prior with
  | none =>
      rw [hprior] at hlast
      refine .pure fun e he => ?_
      rw [he] at hlast
      cases hlast
  | some prior =>
      rw [hprior] at hlast
      obtain ⟨before, hbefore, -⟩ := (hinv.isString prior hprior).stringValue_yields
      unfold requireAfter
      refine Checks.load_bind hbefore (Checks.load_bind hname ?_)
      refine Checks.require.mono fun _ hless e he => ?_
      rw [he, Option.map_some, Option.map_some, hbefore] at hlast
      cases hlast
      exact hless

/-- The loop over the name index appends one entry to the table. -/
lemma Inside.validateName_table (h : db.Inside) (hcount : db.count .nameIndex = db.count .signals)
    {i : ℕ} (hi : i < db.count .signals) {st : NameState} (hinv : TableInv db i st entries) :
    Checks (db.validateName i st) fun st' =>
      ∃ e, TableInv db (i + 1) st' (entries ++ [e]) := by
  obtain ⟨r, hr, -⟩ := readNameIndexRecord_yields (h.recordPos_le (i := .nameIndex) (hcount ▸ hi))
  refine Checks.load_bind hr ?_
  refine (h.requireString_value _).bind fun value ⟨hvalue, hstring⟩ => ?_
  obtain ⟨name, hname, -⟩ := hstring.stringValue_yields
  refine Checks.require.bind fun _ hrange => ?_
  have hmark : r.signal.toNat < st.indexedSignals.length := hinv.marks ▸ hrange.2
  refine Checks.load_bind (List.getElem?_eq_getElem hmark) ?_
  refine Checks.require.bind fun _ _ => ?_
  refine (hinv.requireAfter_checks hname).bind fun _ hafter => .pure ?_
  have hderef : db.derefString r.name = some name := by
    unfold derefString
    rw [hvalue]
    exact hname
  have hentry : db.indexEntry i = some (name, (r.signal.toNat : ℤ)) := by
    unfold indexEntry
    rw [hr, Int.toNat_of_nonneg hrange.1]
    dsimp only [Option.bind_eq_bind, Option.bind_some]
    rw [hderef]
    rfl
  refine ⟨(name, r.signal.toNat), ?_⟩
  constructor
  case length_eq => simp [hinv.length_eq]
  case entry_eq =>
    intro k e hk
    -- an entry of the table so far, or the one that is appended
    rcases Nat.lt_or_ge k entries.length with hlt | hge
    · rw [List.getElem?_append_left hlt] at hk
      exact hinv.entry_eq k e hk
    · rw [List.getElem?_append_right hge, List.getElem?_singleton] at hk
      split at hk
      next hzero =>
        obtain rfl := Option.some.inj hk
        obtain rfl : k = i := by
          have := hinv.length_eq
          omega
        exact hentry
      · cases hk
  case sorted =>
    refine List.pairwise_append.mpr ⟨hinv.sorted, List.pairwise_singleton _ _, ?_⟩
    intro a ha b hb
    obtain rfl := List.mem_singleton.mp hb
    exact strcmp_of_getLast hinv.sorted hafter ha
  case marks => simp [hinv.marks]
  case isString =>
    rintro value' hvalue'
    obtain rfl := Option.some.inj hvalue'
    exact hstring
  case prior => simp [hname]

/-- The whole loop over the name index. -/
lemma Inside.names_table (h : db.Inside) (hcount : db.count .nameIndex = db.count .signals) :
    Checks (forFrom db.validateName (db.count .signals) 0
      { prior := none, indexedSignals := List.replicate (db.count .signals) false }) fun st =>
      ∃ entries, TableInv db (db.count .signals) st entries := by
  refine (Checks.forFrom (I := fun i st => ∃ entries, TableInv db i st entries) ?_ ?_).mono
    fun st hst => ?_
  · exact ⟨[], by constructor <;> simp⟩
  · rintro i st - hi ⟨entries, hinv⟩
    refine (h.validateName_table hcount (by omega) hinv).mono ?_
    rintro st' ⟨e, hinv'⟩
    exact ⟨_, hinv'⟩
  · rwa [Nat.zero_add] at hst

/-- The name index of an accepted file is a table. -/
lemma exists_indexes (hvalidate : db.validate = .ok ()) (h : db.Valid) :
    ∃ entries, db.Indexes entries := by
  -- the loop is the sixth step of the validation
  obtain ⟨_, -, h₁⟩ := exists_of_bind_eq_ok hvalidate
  obtain ⟨_, -, h₂⟩ := exists_of_bind_eq_ok h₁
  obtain ⟨_, -, h₃⟩ := exists_of_bind_eq_ok h₂
  obtain ⟨_, -, h₄⟩ := exists_of_bind_eq_ok h₃
  obtain ⟨_, -, h₅⟩ := exists_of_bind_eq_ok h₄
  obtain ⟨st, hst, -⟩ := exists_of_bind_eq_ok h₅
  obtain ⟨entries, hinv⟩ := (h.inside.names_table h.names_count).2 st hst
  refine ⟨entries, ?_, hinv.entry_eq, hinv.sorted⟩
  rw [h.names_count, hinv.length_eq]

/-! ### Names and their signals -/

variable (db) in
/-- The index has an entry with this name and this signal. -/
def Indexed (name : List UInt8) (i : ℤ) : Prop :=
  ∃ k < db.count .nameIndex, db.indexEntry k = some (name, i)

variable (db) in
/-- The two copies of the name of a signal fit together: the record has a name, and the first of
its spellings that the index has at all is the name that the index has for this signal. -/
def NamesAgree (i : ℤ) : Prop :=
  ∃ name own pre post, db.recordName i = some name ∧ name ≠ [] ∧ db.Indexed own i ∧
    spellings name = pre ++ own :: post ∧ ∀ s ∈ pre, ∀ j, ¬ db.Indexed s j

lemma Indexes.indexed_iff (h : db.Indexes entries) {name : List UInt8} {i : ℤ} :
    db.Indexed name i ↔ ∃ e ∈ entries, e.1 = name ∧ (e.2 : ℤ) = i := by
  constructor
  · rintro ⟨k, hk, hentry⟩
    have hlt : k < entries.length := h.count_eq ▸ hk
    have hread := h.entry_eq k _ (List.getElem?_eq_getElem hlt)
    rw [hentry, Option.some.injEq, Prod.mk.injEq] at hread
    exact ⟨entries[k], List.getElem_mem hlt, hread.1.symm, hread.2.symm⟩
  · rintro ⟨e, he, rfl, rfl⟩
    obtain ⟨k, hlt, rfl⟩ := List.mem_iff_getElem.mp he
    exact ⟨k, h.count_eq ▸ hlt, h.entry_eq k _ (List.getElem?_eq_getElem hlt)⟩

/-- What `signal_name` points to is the name in the record. -/
lemma pointee_signalName {i : ℤ} (hvalid : db.validSignal i = true) :
    db.pointee (db.signalName i) = db.recordName i := by
  unfold signalName signalString recordName derefString
  rw [if_pos hvalid]
  cases db.signalRecord i with
  | none => rfl
  | some record =>
      dsimp only [Option.bind_eq_bind, Option.bind_some]
      cases db.stringAt record.name with
      | none => rfl
      | some p => cases p <;> rfl

/-- The characters of a string end at its first zero. -/
lemma zero_notMem_cString {bytes s : List UInt8} (h : cString bytes = some s) : 0 ∉ s := by
  induction bytes generalizing s with
  | nil => cases h
  | cons b bytes ih =>
      rw [cString] at h
      split at h
      · obtain rfl := Option.some.inj h
        simp
      next hb =>
        obtain ⟨s', hs', rfl⟩ := Option.map_eq_some_iff.mp h
        rw [List.mem_cons, not_or]
        exact ⟨fun hzero => hb hzero.symm, ih hs'⟩

lemma recordName_takeWhile {i : ℤ} {name : List UInt8} (h : db.recordName i = some name) :
    name.takeWhile (· ≠ 0) = name := by
  unfold recordName derefString at h
  simp only [Option.bind_eq_bind, Option.bind_eq_some_iff] at h
  obtain ⟨record, -, p, -, hvalue⟩ := h
  cases p with
  | none => cases hvalue
  | some value =>
      have hzero := zero_notMem_cString hvalue
      rw [List.takeWhile_eq_self_iff]
      intro c hc
      rw [decide_eq_true_eq]
      rintro rfl
      exact hzero hc

lemma Valid.recordName_yields (h : db.Valid) {i : ℤ} (hvalid : db.validSignal i = true) :
    Yields (db.recordName i) fun _ => True := by
  refine (h.signal i.toNat (validSignal_iff.mp hvalid).2).bind fun r hr => ?_
  exact hr.1.derefString_yields

/-- A nonempty name leads to its signal exactly when the first of its spellings that the index has
belongs to the signal. -/
lemma Indexes.resolve_eq_iff (h : db.Indexes entries) {name : List UInt8} {i : ℕ}
    (hzero : name.takeWhile (· ≠ 0) = name) (hne : name ≠ []) :
    db.resolve (some name) = some (i : ℤ) ↔ ∃ own pre post, db.Indexed own i ∧
      spellings name = pre ++ own :: post ∧ ∀ s ∈ pre, ∀ j, ¬ db.Indexed s j := by
  have habsent : ∀ s, (lookupIn entries s < 0) ↔ ∀ j, ¬ db.Indexed s j := by
    intro s
    simp only [lookupIn_neg_iff, h.indexed_iff]
    constructor
    · rintro hno j ⟨e, he, hname, -⟩
      exact hno e he hname
    · intro hno e he hname
      exact hno e.2 ⟨e, he, hname, rfl⟩
  rw [h.resolve_eq hzero hne, Option.some.injEq]
  constructor
  · intro hhit
    obtain ⟨pre, own, post, heq, hpre, hown⟩ :=
      exists_of_firstHit (hhit ▸ Int.natCast_nonneg i : 0 ≤ firstHit _ _)
    rw [hhit] at hown
    refine ⟨own, pre, post, ?_, heq, fun s hs => (habsent s).mp (hpre s hs)⟩
    exact h.indexed_iff.mpr ⟨(own, i), mem_of_lookupIn hown, rfl, rfl⟩
  · rintro ⟨own, pre, post, hindexed, heq, hpre⟩
    obtain ⟨e, he, rfl, hi⟩ := h.indexed_iff.mp hindexed
    have hown : lookupIn entries e.1 = i := by
      rw [lookupIn_of_mem h.sorted he, hi]
    rw [heq, firstHit_append fun s hs => (habsent s).mpr (hpre s hs),
      firstHit_cons (hown ▸ Int.natCast_nonneg i), hown]

end BinaryDesignBackend

open BinaryDesignBackend

/-- An accepted file is valid, and its name index is a table. -/
lemma indexes_of_openFile {bytes : List UInt8} {db : BinaryDesignBackend}
    (hopen : openFile bytes = .ok db) : db.Valid ∧ ∃ entries, db.Indexes entries := by
  unfold openFile at hopen
  split at hopen
  · cases hopen
  next hlen =>
    split at hopen
    · cases hopen
    next header hheader =>
      obtain ⟨⟨⟩, hvalidate, hdb⟩ := exists_of_bind_eq_ok hopen
      obtain rfl := Except.ok.inj hdb
      have hvalid := (validate_checks (not_lt.mp hlen)).2 () hvalidate
      exact ⟨hvalid, exists_indexes hvalidate hvalid⟩

/-- In an accepted file, `resolve` leads from the name of every signal back to the signal exactly
when the two copies of the names fit together. -/
theorem resolve_signalName_iff {bytes : List UInt8} {db : BinaryDesignBackend}
    (hopen : openFile bytes = .ok db) :
    (∀ i : ℤ, 0 ≤ i → i < db.signalCount →
      db.resolve (db.pointee (db.signalName i)) = some i) ↔
    ∀ i : ℤ, 0 ≤ i → i < db.signalCount → db.NamesAgree i := by
  obtain ⟨hvalid, entries, hindexes⟩ := indexes_of_openFile hopen
  have hcount : db.signalCount = db.count .signals := toInt32_of_lt hvalid.signals_count
  refine forall_congr' fun i => forall_congr' fun hnonneg => forall_congr' fun hlt => ?_
  have hsignal : db.validSignal i = true := validSignal_iff.mpr ⟨hnonneg, by omega⟩
  obtain ⟨name, hname, -⟩ := hvalid.recordName_yields hsignal
  lift i to ℕ using hnonneg
  rw [pointee_signalName hsignal, hname]
  constructor
  · intro hresolve
    have hne : name ≠ [] := by
      rintro rfl
      cases hresolve
    obtain ⟨own, pre, post, hown, heq, hpre⟩ :=
      (hindexes.resolve_eq_iff (recordName_takeWhile hname) hne).mp hresolve
    exact ⟨name, own, pre, post, hname, hne, hown, heq, hpre⟩
  · rintro ⟨name', own, pre, post, hname', hne, hown, heq, hpre⟩
    obtain rfl : name = name' := Option.some.inj (hname.symm.trans hname')
    exact (hindexes.resolve_eq_iff (recordName_takeWhile hname) hne).mpr
      ⟨own, pre, post, hown, heq, hpre⟩

/-- It is enough that the two copies are equal and not empty. -/
lemma namesAgree_of_indexed {db : BinaryDesignBackend} {i : ℤ} {name : List UInt8}
    (hname : db.recordName i = some name) (hne : name ≠ []) (hindexed : db.Indexed name i) :
    db.NamesAgree i := by
  have hfirst : ∃ post, spellings name = name :: post := by
    unfold spellings
    split
    · exact ⟨_, rfl⟩
    · split <;> exact ⟨_, rfl⟩
  obtain ⟨post, hpost⟩ := hfirst
  exact ⟨name, name, [], post, hname, hne, hindexed, hpost, by simp⟩

/-- What the file of one signal holds. -/
lemma exists_oneSignalFile : ∃ db, openFile oneSignalFile = .ok db ∧ db.signalCount = 1 ∧
    db.count .nameIndex = 1 ∧ db.recordName 0 = some [0x61] ∧
    db.indexEntry 0 = some ([0x61], 0) := by
  have hfile : (openFile oneSignalFile).toOption.map (fun db =>
      ((db.signalCount, db.count .nameIndex), db.recordName 0, db.indexEntry 0)) =
      some ((1, 1), some [0x61], some ([0x61], 0)) := by decide +kernel
  cases hopen : openFile oneSignalFile with
  | error e =>
      rw [hopen] at hfile
      cases hfile
  | ok db =>
      rw [hopen] at hfile
      simp only [Except.toOption, Option.map_some, Option.some.injEq, Prod.mk.injEq] at hfile
      obtain ⟨⟨hcount, hindex⟩, hrecord, hentry⟩ := hfile
      exact ⟨db, rfl, hcount, hindex, hrecord, hentry⟩

/-- In the file of one signal the name leads back to the signal. -/
theorem oneSignalFile_resolve : ∃ db, openFile oneSignalFile = .ok db ∧
    ∀ i : ℤ, 0 ≤ i → i < db.signalCount → db.resolve (db.pointee (db.signalName i)) = some i := by
  obtain ⟨db, hopen, hcount, hindex, hrecord, hentry⟩ := exists_oneSignalFile
  refine ⟨db, hopen, (resolve_signalName_iff hopen).mpr fun i hnonneg hlt => ?_⟩
  obtain rfl : i = 0 := by omega
  exact namesAgree_of_indexed hrecord (by simp) ⟨0, by omega, hentry⟩

/-- A database of one signal, called `a` in its record and `b` in the name index. -/
def misnamedFile : List UInt8 :=
  let u32 := encodeLE 4
  let u64 := encodeLE 8
  kMagic ++ u32 1 ++ u32 0 ++ u32 0x01020304 ++ u32 176 ++ u64 260 ++
    u64 176 ++ u64 1 ++ u64 200 ++ u64 1 ++ u64 208 ++ u64 0 ++ u64 208 ++ u64 2 ++
    u64 224 ++ u64 0 ++ u64 224 ++ u64 2 ++ u64 240 ++ u64 0 ++ u64 240 ++ u64 2 ++
    u64 256 ++ u64 4 ++
    (u32 0 ++ u32 1 ++ u32 1 ++ u32 8 ++ u32 1 ++ u32 1) ++ (u32 2 ++ u32 0) ++
    (u64 0 ++ u64 0) ++ (u64 0 ++ u64 0) ++ (u64 0 ++ u64 0) ++ [0x61, 0, 0x62, 0]

/-- The file is accepted, and the name of its signal leads nowhere. -/
theorem misnamedFile_not_resolve : ¬ ∀ bytes db, openFile bytes = .ok db →
    ∀ i : ℤ, 0 ≤ i → i < db.signalCount →
      db.resolve (db.pointee (db.signalName i)) = some i := by
  intro hall
  have hfile : (openFile misnamedFile).toOption.map (fun db => (db.signalCount,
      db.resolve (db.pointee (db.signalName 0)))) = some (1, some (-1)) := by
    decide +kernel
  cases hopen : openFile misnamedFile with
  | error e =>
      rw [hopen] at hfile
      cases hfile
  | ok db =>
      rw [hopen] at hfile
      obtain ⟨hcount, hresolve⟩ : db.signalCount = 1 ∧
          db.resolve (db.pointee (db.signalName 0)) = some (-1) := by
        simpa [Except.toOption] using hfile
      have hzero := hall misnamedFile db hopen 0 le_rfl (by omega)
      rw [hresolve] at hzero
      cases hzero

end XdebugFst.DesignDb
