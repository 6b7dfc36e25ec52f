import Mathlib
import XdebugFst.DesignDb.Lookup

/-!
The two design backends on one table of names.

`XddDesignBackend` takes its names from a shared library that the build generates, and the file
of `BinaryDesignBackend` is made from the same table. Both resolve a query by trying several
spellings. For a query that starts with `TOP.` the list of the shared library backend is shorter:
it never tries the rest of the query alone.
-/

namespace XdebugFst.DesignDb

open Lib BinaryDesignBackend

/-- An opened shared library, as far as `resolve` uses it. -/
structure XddDesignBackend where
  fnResolve : List UInt8 → ℤ

/-- `XddDesignBackend::resolve`. -/
def XddDesignBackend.resolve (xdd : XddDesignBackend) (name : Option (List UInt8)) : ℤ :=
  match name.map (·.takeWhile (· ≠ 0)) with
  | none => -1
  | some [] => -1
  | some query =>
      let exact := xdd.fnResolve query
      if exact ≥ 0 then exact
      else if upperTop.isPrefixOf query then
        let canonical := lowerTop ++ query.drop 4
        let normalized := xdd.fnResolve canonical
        if normalized ≥ 0 then normalized
        else xdd.fnResolve (lowerTop ++ canonical)
      else if lowerTop.isPrefixOf query = false then
        let prefixed := xdd.fnResolve (lowerTop ++ query)
        if prefixed ≥ 0 then prefixed else -1
      else
        let unprefixed := xdd.fnResolve (query.drop 4)
        if unprefixed ≥ 0 then unprefixed
        else
          let nestedTop := xdd.fnResolve (lowerTop ++ query)
          if nestedTop ≥ 0 then nestedTop else -1

/-- What `xdd_resolve` of a generated library does: an exact lookup in the table of names. -/
def tableResolve (names : List (List UInt8)) (query : List UInt8) : ℤ :=
  match names.idxOf? query with
  | some i => i
  | none => -1

/-- The library of a table of names. -/
def XddDesignBackend.ofTable (names : List (List UInt8)) : XddDesignBackend where
  fnResolve := tableResolve names

/-- The name index of the file holds the table: an entry for each name, with its position. -/
def HasTable (db : BinaryDesignBackend) (names : List (List UInt8)) : Prop :=
  ∀ name i, db.Indexed name i ↔ ∃ k : ℕ, names[k]? = some name ∧ (k : ℤ) = i

/-- The table has the one spelling of the query that the library backend does not try, and none
of those that both try before it. -/
def OnlyBinaryTries (names : List (List UInt8)) (query : Option (List UInt8)) : Prop :=
  ∃ rest, query.map (·.takeWhile (· ≠ 0)) = some (upperTop ++ rest) ∧
    upperTop ++ rest ∉ names ∧ lowerTop ++ rest ∉ names ∧ rest ∈ names

/-! ### Lookups in the table -/

section Table

variable {names : List (List UInt8)}

lemma tableResolve_cases (names : List (List UInt8)) (query : List UInt8) :
    (query ∉ names ∧ tableResolve names query = -1) ∨
      ∃ i : ℕ, names[i]? = some query ∧ tableResolve names query = i := by
  unfold tableResolve
  cases hidx : names.idxOf? query with
  | none => exact .inl ⟨List.idxOf?_eq_none_iff.mp hidx, rfl⟩
  | some i =>
      refine .inr ⟨i, ?_, rfl⟩
      obtain ⟨hlt, heq, -⟩ := List.findIdx?_eq_some_iff_getElem.mp hidx
      rw [List.getElem?_eq_getElem hlt, eq_of_beq heq]

lemma tableResolve_neg {query : List UInt8} (h : query ∉ names) : tableResolve names query < 0 := by
  rcases tableResolve_cases names query with ⟨-, heq⟩ | ⟨i, hi, -⟩
  · omega
  · exact absurd (List.mem_of_getElem? hi) h

lemma tableResolve_nonneg_iff {query : List UInt8} :
    0 ≤ tableResolve names query ↔ query ∈ names := by
  rcases tableResolve_cases names query with ⟨hno, heq⟩ | ⟨i, hi, heq⟩
  · rw [heq]
    exact ⟨fun h => absurd h (by omega), fun h => absurd h hno⟩
  · rw [heq]
    exact ⟨fun _ => List.mem_of_getElem? hi, fun _ => Int.natCast_nonneg i⟩

/-- Different names have different positions. -/
lemma tableResolve_inj {a b : List UInt8} (ha : a ∈ names)
    (h : tableResolve names a = tableResolve names b) : a = b := by
  rcases tableResolve_cases names a with ⟨hno, -⟩ | ⟨i, hi, heq⟩
  · exact absurd ha hno
  · rcases tableResolve_cases names b with ⟨-, heq'⟩ | ⟨j, hj, heq'⟩
    · rw [heq, heq'] at h
      omega
    · rw [heq, heq', Nat.cast_inj] at h
      rw [h, hj] at hi
      exact (Option.some.inj hi).symm

/-- A file that holds the table answers the lookups of the table. -/
lemma HasTable.lookupIn_eq {db : BinaryDesignBackend} {entries : List (List UInt8 × ℕ)}
    (htable : HasTable db names) (h : db.Indexes entries) (query : List UInt8) :
    lookupIn entries query = tableResolve names query := by
  rcases tableResolve_cases names query with ⟨hno, heq⟩ | ⟨i, hi, heq⟩
  · rw [heq]
    refine lookupIn_of_notMem fun e he hname => hno ?_
    obtain ⟨k, hk, -⟩ := (htable query e.2).mp (h.indexed_iff.mpr ⟨e, he, hname, rfl⟩)
    exact List.mem_of_getElem? hk
  · obtain ⟨e, he, rfl, hsignal⟩ := h.indexed_iff.mp ((htable query i).mpr ⟨i, hi, rfl⟩)
    rw [heq, lookupIn_of_mem h.sorted he, hsignal]

end Table

/-! ### The two lists of spellings -/

/-- The spellings that `XddDesignBackend::resolve` tries for a query, in their order. -/
def xddSpellings (query : List UInt8) : List (List UInt8) :=
  if upperTop.isPrefixOf query then
    [query, lowerTop ++ query.drop 4, lowerTop ++ (lowerTop ++ query.drop 4)]
  else if lowerTop.isPrefixOf query then [query, query.drop 4, lowerTop ++ query]
  else [query, lowerTop ++ query]

lemma firstHit_tableResolve (names : List (List UInt8)) (query : List UInt8) :
    firstHit (tableResolve names) [query] = tableResolve names query := by
  rw [firstHit, firstHit]
  rcases tableResolve_cases names query with ⟨-, heq⟩ | ⟨i, -, heq⟩
  · rw [heq]
    rfl
  · rw [heq, if_pos (Int.natCast_nonneg i)]

/-- The library backend answers with the first of its spellings that the table has. -/
lemma XddDesignBackend.resolve_ofTable (names : List (List UInt8)) {name query : List UInt8}
    (hquery : name.takeWhile (· ≠ 0) = query) (hne : query ≠ []) :
    (ofTable names).resolve (some name) = firstHit (tableResolve names) (xddSpellings query) := by
  obtain ⟨c, rest, rfl⟩ := List.exists_cons_of_ne_nil hne
  unfold resolve xddSpellings
  rw [Option.map_some, hquery]
  dsimp only [ofTable]
  by_cases hupper : upperTop.isPrefixOf (c :: rest) = true
  · rw [if_pos hupper, if_pos hupper, ← firstHit_tableResolve names (lowerTop ++ (lowerTop ++ _))]
    rfl
  · rw [if_neg hupper, if_neg hupper]
    by_cases hlower : lowerTop.isPrefixOf (c :: rest) = true
    · simp only [hlower, Bool.true_eq_false, if_true, if_false]
      rfl
    · simp only [hlower, Bool.false_eq_true, if_true, if_false]
      rfl

lemma upperTop_isPrefixOf_iff {query : List UInt8} :
    upperTop.isPrefixOf query = true ↔ query = upperTop ++ query.drop 4 := by
  rw [List.isPrefixOf_iff_prefix]
  constructor
  · rintro ⟨rest, rfl⟩
    rfl
  · intro heq
    rw [heq]
    exact List.prefix_append _ _

/-- The one spelling that only the file backend tries makes the difference. -/
lemma firstHit_spellings_eq_iff (names : List (List UInt8)) {query : List UInt8}
    (hupper : upperTop.isPrefixOf query = true) :
    firstHit (tableResolve names) (spellings query) =
      firstHit (tableResolve names) (xddSpellings query) ↔
    ¬ (query ∉ names ∧ lowerTop ++ query.drop 4 ∉ names ∧ query.drop 4 ∈ names) := by
  unfold spellings xddSpellings
  rw [if_pos hupper, if_pos hupper]
  set rest := query.drop 4 with hrest
  by_cases hquery : query ∈ names
  · have hhit := tableResolve_nonneg_iff.mpr hquery
    rw [firstHit_cons hhit, firstHit_cons hhit]
    exact iff_of_true rfl fun h => h.1 hquery
  rw [firstHit_cons_miss (tableResolve_neg hquery), firstHit_cons_miss (tableResolve_neg hquery)]
  by_cases hcanonical : lowerTop ++ rest ∈ names
  · have hhit := tableResolve_nonneg_iff.mpr hcanonical
    rw [firstHit_cons hhit, firstHit_cons hhit]
    exact iff_of_true rfl fun h => h.2.1 hcanonical
  rw [firstHit_cons_miss (tableResolve_neg hcanonical),
    firstHit_cons_miss (tableResolve_neg hcanonical)]
  by_cases hown : rest ∈ names
  · -- the rest is a name, and it is not the name that the library backend ends with
    rw [firstHit_cons (tableResolve_nonneg_iff.mpr hown), firstHit_tableResolve]
    refine iff_of_false (fun heq => ?_) fun h => h ⟨hquery, hcanonical, hown⟩
    have hlen := congrArg List.length (tableResolve_inj hown heq)
    simp only [lowerTop, List.length_append, List.length_cons] at hlen
    omega
  · rw [firstHit_cons_miss (tableResolve_neg hown)]
    exact iff_of_true rfl fun h => hown h.2.2

/-- On one table the two backends answer a query alike, unless the table has the spelling that
only the file backend tries. -/
theorem resolve_eq_xdd_iff {bytes : List UInt8} {db : BinaryDesignBackend}
    {names : List (List UInt8)} (hopen : openFile bytes = .ok db) (htable : HasTable db names)
    (query : Option (List UInt8)) :
    db.resolve query = some ((XddDesignBackend.ofTable names).resolve query) ↔
      ¬ OnlyBinaryTries names query := by
  obtain ⟨-, entries, hindexes⟩ := indexes_of_openFile hopen
  cases query with
  | none => exact iff_of_true rfl (by rintro ⟨rest, hrest, -⟩; cases hrest)
  | some name =>
      obtain ⟨chars, hchars⟩ : ∃ chars, name.takeWhile (· ≠ 0) = chars := ⟨_, rfl⟩
      unfold OnlyBinaryTries
      rw [Option.map_some, hchars]
      by_cases hne : chars = []
      · -- the empty query is refused by both
        subst hne
        unfold BinaryDesignBackend.resolve XddDesignBackend.resolve
        rw [Option.map_some, hchars]
        refine iff_of_true rfl ?_
        rintro ⟨rest, hrest, -⟩
        simp [upperTop] at hrest
      · have hlookup : lookupIn entries = tableResolve names :=
          funext fun q => htable.lookupIn_eq hindexes q
        rw [hindexes.resolve_eq hchars hne, XddDesignBackend.resolve_ofTable names hchars hne,
          hlookup, Option.some.injEq]
        by_cases hupper : upperTop.isPrefixOf chars = true
        · rw [firstHit_spellings_eq_iff names hupper, not_iff_not]
          have hsplit := upperTop_isPrefixOf_iff.mp hupper
          constructor
          · rintro ⟨hquery, hcanonical, hown⟩
            exact ⟨chars.drop 4, congrArg some hsplit, hsplit ▸ hquery, hcanonical, hown⟩
          · rintro ⟨rest, hrest, hquery, hcanonical, hown⟩
            obtain rfl := Option.some.inj hrest
            exact ⟨hquery, hcanonical, hown⟩
        · unfold spellings xddSpellings
          rw [if_neg hupper, if_neg hupper]
          refine iff_of_true rfl ?_
          rintro ⟨rest, hrest, -⟩
          obtain rfl := Option.some.inj hrest
          exact hupper rfl

/-! ### A table of one name -/

/-- The file of one signal holds the table of the name `a`. -/
lemma exists_oneSignal : ∃ db, openFile oneSignalFile = .ok db ∧ HasTable db [[0x61]] := by
  obtain ⟨db, hopen, -, hcount, -, hentry⟩ := exists_oneSignalFile
  refine ⟨db, hopen, fun name i => ?_⟩
  constructor
  · rintro ⟨k, hk, hread⟩
    obtain rfl : k = 0 := by omega
    rw [hentry, Option.some.injEq, Prod.mk.injEq] at hread
    exact ⟨0, congrArg some hread.1, hread.2⟩
  · rintro ⟨k, hk, rfl⟩
    cases k with
    | zero =>
        obtain rfl := Option.some.inj hk
        exact ⟨0, by omega, hentry⟩
    | succ k => simp at hk

/-- Both backends find `top.a` in the table of the name `a`. -/
theorem resolve_eq_xdd_top : ∃ db, openFile oneSignalFile = .ok db ∧ HasTable db [[0x61]] ∧
    db.resolve (some (lowerTop ++ [0x61])) =
      some ((XddDesignBackend.ofTable [[0x61]]).resolve (some (lowerTop ++ [0x61]))) := by
  obtain ⟨db, hopen, htable⟩ := exists_oneSignal
  refine ⟨db, hopen, htable, (resolve_eq_xdd_iff hopen htable _).mpr ?_⟩
  rintro ⟨rest, hrest, -⟩
  have hhead : some (some (0x74 : UInt8)) = some (some 0x54) := congrArg (Option.map List.head?) hrest
  revert hhead
  decide

/-- `TOP.a` is in the table for the one and not for the other. -/
theorem not_resolve_eq_xdd : ¬ ∀ names bytes db, openFile bytes = .ok db → HasTable db names →
    ∀ query, db.resolve query = some ((XddDesignBackend.ofTable names).resolve query) := by
  intro hall
  obtain ⟨db, hopen, htable⟩ := exists_oneSignal
  have hsame := hall _ _ db hopen htable (some (upperTop ++ [0x61]))
  have hxdd : (XddDesignBackend.ofTable [[0x61]]).resolve (some (upperTop ++ [0x61])) = -1 := by
    decide
  have hbinary : db.resolve (some (upperTop ++ [0x61])) = some 0 := by
    obtain ⟨-, entries, hindexes⟩ := indexes_of_openFile hopen
    have hlookup : lookupIn entries = tableResolve [[0x61]] :=
      funext fun q => htable.lookupIn_eq hindexes q
    rw [hindexes.resolve_eq rfl (by decide), hlookup]
    decide
  rw [hbinary, hxdd] at hsame
  cases hsame

end XdebugFst.DesignDb
