import Mathlib
import XdebugFst.Waveform.FindSignal

/-!
# The signal index of a hierarchy

`build_signal_index` goes once through the scopes and variables that the Wellen interface lists.
The full path of each variable is normalised and becomes a key of the index: letters lose their
case, a leading `top.` and the dot of an array index are dropped. Variables whose paths differ
only in this share a key, and the last of them keeps it. At the end a local name becomes a key
too, unless it already is one or stands for different signals.
-/

namespace XdebugFst.Waveform

open Lib

/-! ### The hierarchy -/

/-- What the Wellen interface says about a variable. The texts are null pointers when they are
missing. -/
structure HierarchyVar where
  varRef : ℕ
  fullName : Option String
  name : Option String
  signalRef : ℕ
  /-- The encoding is `WELLEN_ENCODING_BITVECTOR`. -/
  isBitVector : Bool
  width : ℕ
  /-- `wellen_var_index`, when it succeeds. -/
  index : Option (ℤ × ℤ)
  deriving DecidableEq, Repr

/-- A scope with its variables. -/
structure HierarchyScope where
  scopeRef : ℕ
  vars : List HierarchyVar
  deriving DecidableEq, Repr

namespace HierarchyVar

/-- The declared range of a variable that has one. -/
def declaredRange (v : HierarchyVar) : Option DeclaredRange :=
  if v.isBitVector then v.index.map fun bounds => ⟨bounds.1, bounds.2, v.width⟩ else none

/-- The full path of a variable, normalised. -/
def pathKey (v : HierarchyVar) : String :=
  String.ofList (normalizePath (v.fullName.getD "").toList)

/-- The local name of a variable, normalised. -/
def localKey (v : HierarchyVar) : String :=
  String.ofList (normalizePath (v.name.getD "").toList)

end HierarchyVar

/-! ### Building the index -/

/-- The variables of `build_signal_index`. -/
structure IndexState where
  signalIndex : OrderedMap String ℕ := .empty
  declaredRanges : OrderedMap String DeclaredRange := .empty
  localCandidates : OrderedMap String ℕ := .empty
  localRangeCandidates : OrderedMap String DeclaredRange := .empty
  ambiguousLocals : List String := []
  ambiguousLocalRanges : List String := []

namespace IndexState

/-- The full path of a variable enters the index. -/
def addPath (st : IndexState) (v : HierarchyVar) : IndexState :=
  if v.pathKey = "" then st
  else
    { st with
      signalIndex := st.signalIndex.insert v.pathKey v.signalRef
      declaredRanges := match v.declaredRange with
        | some range => st.declaredRanges.insert v.pathKey range
        | none => st.declaredRanges }

/-- The signal of a local name: the first one is the candidate, another one makes the name
ambiguous. -/
def addLocalSignal (st : IndexState) (v : HierarchyVar) : IndexState :=
  match st.localCandidates.find? v.localKey with
  | none => { st with localCandidates := st.localCandidates.insert v.localKey v.signalRef }
  | some candidate =>
      if candidate = v.signalRef then st
      else { st with ambiguousLocals := v.localKey :: st.ambiguousLocals }

/-- The declared range of a local name, in the same way. -/
def addLocalRange (st : IndexState) (v : HierarchyVar) : IndexState :=
  match v.declaredRange with
  | none => { st with ambiguousLocalRanges := v.localKey :: st.ambiguousLocalRanges }
  | some range =>
      match st.localRangeCandidates.find? v.localKey with
      | none => { st with
          localRangeCandidates := st.localRangeCandidates.insert v.localKey range }
      | some candidate =>
          if candidate = range then st
          else { st with ambiguousLocalRanges := v.localKey :: st.ambiguousLocalRanges }

/-- The local name of a variable. -/
def addLocal (st : IndexState) (v : HierarchyVar) : IndexState :=
  if v.localKey = "" then st else (st.addLocalSignal v).addLocalRange v

/-- The body of the loop over the variables of a scope. -/
def addVar (st : IndexState) (v : HierarchyVar) : IndexState :=
  if v.varRef = 0 then st
  else if v.fullName.getD "" = "" then st
  else if v.signalRef = 0 then st
  else (st.addPath v).addLocal v

/-- The body of the loop over the scopes. -/
def addScope (st : IndexState) (scope : HierarchyScope) : IndexState :=
  if scope.scopeRef = 0 then st else scope.vars.foldl addVar st

/-- The body of the loop over the candidates: a local name that is not yet a key. -/
def addCandidate (st : IndexState) (item : String × ℕ) : IndexState :=
  if st.ambiguousLocals.contains item.1 = false ∧ st.signalIndex.find? item.1 = none then
    { st with
      signalIndex := st.signalIndex.insert item.1 item.2
      declaredRanges := match st.localRangeCandidates.find? item.1 with
        | some range =>
            if st.ambiguousLocalRanges.contains item.1 then st.declaredRanges
            else st.declaredRanges.insert item.1 range
        | none => st.declaredRanges }
  else st

end IndexState

/-- `build_signal_index`. -/
def buildSignalIndex (scopes : List HierarchyScope) : IndexState :=
  let st := scopes.foldl IndexState.addScope {}
  st.localCandidates.entries.foldl IndexState.addCandidate st

/-- The variables that enter the index, in the order of the hierarchy. -/
def indexedVars (scopes : List HierarchyScope) : List HierarchyVar :=
  ((scopes.filter fun scope => scope.scopeRef ≠ 0).flatMap HierarchyScope.vars).filter fun v =>
    v.varRef ≠ 0 ∧ v.fullName.getD "" ≠ "" ∧ v.signalRef ≠ 0

/-- The backend after some calls on a waveform with this hierarchy. -/
def hierarchyState (capi : Capi) (scopes : List HierarchyScope) (calls : List Wellen.Call) :
    Wellen :=
  Wellen.run capi (buildSignalIndex scopes).signalIndex (buildSignalIndex scopes).declaredRanges
    calls

/-! ### The two loops -/

namespace IndexState

variable {l : List HierarchyVar} {st : IndexState}

/-- What the loop over the variables has established after the variables of a list. -/
structure IndexSpec (l : List HierarchyVar) (st : IndexState) : Prop where
  /-- The last variable with a key keeps it. -/
  signal : ∀ k, st.signalIndex.find? k =
    ((l.filter fun v => v.pathKey = k ∧ k ≠ "").getLast?).map HierarchyVar.signalRef
  /-- The range under a key is that of the last variable with the key that has one. -/
  range : ∀ k, st.declaredRanges.find? k =
    ((l.filter fun v => (v.pathKey = k ∧ k ≠ "") ∧ v.declaredRange ≠ none).getLast?).bind
      HierarchyVar.declaredRange
  candidate : ∀ k ref, st.localCandidates.find? k = some ref →
    ∃ v ∈ l, v.localKey = k ∧ v.signalRef = ref
  /-- A local name that is not ambiguous stands for one signal. -/
  agree : ∀ v ∈ l, v.localKey ≠ "" → v.localKey ∉ st.ambiguousLocals →
    st.localCandidates.find? v.localKey = some v.signalRef

/-- The last element with a property, with what comes behind it. -/
lemma exists_split_of_getLast?_filter {α : Type} {p : α → Bool} {l : List α} {a : α}
    (h : (l.filter p).getLast? = some a) :
    ∃ before after, l = before ++ a :: after ∧ ∀ b ∈ after, p b = false := by
  induction l using List.reverseRecOn with
  | nil => cases h
  | append_singleton l b ih =>
      rw [List.filter_append] at h
      cases hb : p b with
      | true =>
          rw [List.filter_cons_of_pos hb, List.filter_nil, List.getLast?_concat] at h
          obtain rfl := Option.some.inj h
          exact ⟨l, [], rfl, by simp⟩
      | false =>
          rw [List.filter_cons_of_neg (by simp [hb]), List.filter_nil, List.append_nil] at h
          obtain ⟨before, after, rfl, hafter⟩ := ih h
          refine ⟨before, after ++ [b], by simp, ?_⟩
          intro c hc
          rcases List.mem_append.1 hc with hc | hc
          · exact hafter c hc
          · obtain rfl := List.mem_singleton.1 hc
            exact hb

lemma filter_snoc (p : HierarchyVar → Bool) (l : List HierarchyVar) (v : HierarchyVar) :
    (l ++ [v]).filter p = l.filter p ++ if p v then [v] else [] := by
  rw [List.filter_append]
  cases hp : p v <;> simp [hp]

/-! The range of a local name is of no concern for the signals. -/

section Frames

variable (st : IndexState) (v : HierarchyVar)

lemma addLocalRange_frame : (st.addLocalRange v).signalIndex = st.signalIndex ∧
    (st.addLocalRange v).declaredRanges = st.declaredRanges ∧
    (st.addLocalRange v).localCandidates = st.localCandidates ∧
    (st.addLocalRange v).ambiguousLocals = st.ambiguousLocals := by
  unfold addLocalRange
  split
  · exact ⟨rfl, rfl, rfl, rfl⟩
  · split
    · exact ⟨rfl, rfl, rfl, rfl⟩
    · split <;> exact ⟨rfl, rfl, rfl, rfl⟩

lemma addLocalSignal_frame : (st.addLocalSignal v).signalIndex = st.signalIndex ∧
    (st.addLocalSignal v).declaredRanges = st.declaredRanges := by
  unfold addLocalSignal
  split
  · exact ⟨rfl, rfl⟩
  · split <;> exact ⟨rfl, rfl⟩

lemma addLocal_frame : (st.addLocal v).signalIndex = st.signalIndex ∧
    (st.addLocal v).declaredRanges = st.declaredRanges := by
  unfold addLocal
  split
  · exact ⟨rfl, rfl⟩
  · obtain ⟨hindex, hranges, -⟩ := (st.addLocalSignal v).addLocalRange_frame v
    obtain ⟨hindex', hranges'⟩ := st.addLocalSignal_frame v
    exact ⟨hindex.trans hindex', hranges.trans hranges'⟩

lemma addPath_frame : (st.addPath v).localCandidates = st.localCandidates ∧
    (st.addPath v).ambiguousLocals = st.ambiguousLocals := by
  unfold addPath
  split <;> exact ⟨rfl, rfl⟩

lemma addPath_signalIndex (k : String) : (st.addPath v).signalIndex.find? k =
    if v.pathKey = k ∧ k ≠ "" then some v.signalRef else st.signalIndex.find? k := by
  unfold addPath
  split
  next hempty =>
    rw [if_neg]
    rintro ⟨rfl, hne⟩
    exact hne hempty
  next hne =>
    by_cases hk : v.pathKey = k
    · subst hk
      rw [if_pos ⟨rfl, hne⟩, OrderedMap.find?_insert_self]
    · rw [if_neg fun h => hk h.1, OrderedMap.find?_insert_of_ne _ (Ne.symm hk)]

lemma addPath_declaredRanges (k : String) : (st.addPath v).declaredRanges.find? k =
    if (v.pathKey = k ∧ k ≠ "") ∧ v.declaredRange ≠ none then v.declaredRange
    else st.declaredRanges.find? k := by
  unfold addPath
  split
  next hempty =>
    rw [if_neg]
    rintro ⟨⟨rfl, hne⟩, -⟩
    exact hne hempty
  next hne =>
    cases hrange : v.declaredRange with
    | none => rw [if_neg fun h => h.2 rfl]
    | some range =>
        dsimp only
        by_cases hk : v.pathKey = k
        · subst hk
          rw [if_pos ⟨⟨rfl, hne⟩, by simp⟩, OrderedMap.find?_insert_self]
        · rw [if_neg fun h => hk h.1.1, OrderedMap.find?_insert_of_ne _ (Ne.symm hk)]

end Frames

lemma IndexSpec.empty : IndexSpec [] {} := by
  constructor <;> simp

/-- What the signal of a local name does to the candidates. -/
lemma addLocalSignal_candidate {k : String} {ref : ℕ} (v : HierarchyVar)
    (h : (st.addLocalSignal v).localCandidates.find? k = some ref) :
    st.localCandidates.find? k = some ref ∨ v.localKey = k ∧ v.signalRef = ref := by
  unfold addLocalSignal at h
  split at h
  · rcases (OrderedMap.find?_insert_eq_some_iff _).1 h with ⟨rfl, rfl⟩ | ⟨-, hold⟩
    · exact .inr ⟨rfl, rfl⟩
    · exact .inl hold
  · split at h <;> exact .inl h

/-- A candidate is never replaced, and a name does not stop being ambiguous. -/
lemma addLocalSignal_keeps {k : String} {ref : ℕ} (v : HierarchyVar)
    (h : k ∉ st.ambiguousLocals → st.localCandidates.find? k = some ref)
    (hk : k ∉ (st.addLocalSignal v).ambiguousLocals) :
    (st.addLocalSignal v).localCandidates.find? k = some ref := by
  unfold addLocalSignal at hk ⊢
  cases hcandidate : st.localCandidates.find? v.localKey with
  | none =>
      rw [hcandidate] at hk
      have hold := h hk
      have hne : k ≠ v.localKey := by
        rintro rfl
        rw [hcandidate] at hold
        cases hold
      dsimp only
      rwa [OrderedMap.find?_insert_of_ne _ hne]
  | some candidate =>
      rw [hcandidate] at hk
      dsimp only at hk ⊢
      split at hk
      next hsame =>
        rw [if_pos hsame]
        exact h hk
      next hother =>
        rw [if_neg hother]
        exact h fun hmem => hk (List.mem_cons_of_mem _ hmem)

/-- The variable itself: its signal is the candidate, unless its name is ambiguous. -/
lemma addLocalSignal_self (v : HierarchyVar)
    (hv : v.localKey ∉ (st.addLocalSignal v).ambiguousLocals) :
    (st.addLocalSignal v).localCandidates.find? v.localKey = some v.signalRef := by
  unfold addLocalSignal at hv ⊢
  cases hcandidate : st.localCandidates.find? v.localKey with
  | none => exact OrderedMap.find?_insert_self _ _ _
  | some candidate =>
      rw [hcandidate] at hv
      dsimp only at hv ⊢
      split at hv
      next hsame =>
        rw [if_pos hsame, hcandidate, hsame]
      next hother => exact absurd List.mem_cons_self hv

/-- One more variable. -/
lemma IndexSpec.snoc (h : IndexSpec l st) (v : HierarchyVar) :
    IndexSpec (l ++ [v]) ((st.addPath v).addLocal v) := by
  obtain ⟨hindex, hranges⟩ := (st.addPath v).addLocal_frame v
  obtain ⟨hcandidates, hambiguous⟩ := st.addPath_frame v
  constructor
  case signal =>
    intro k
    rw [hindex, addPath_signalIndex, filter_snoc]
    split
    next hk => rw [if_pos (by simpa using hk), List.getLast?_concat]; rfl
    next hk => rw [if_neg (by simpa using hk), List.append_nil, h.signal k]
  case range =>
    intro k
    rw [hranges, addPath_declaredRanges, filter_snoc]
    split
    next hk => rw [if_pos (by simpa using hk), List.getLast?_concat]; rfl
    next hk => rw [if_neg (by simpa using hk), List.append_nil, h.range k]
  case candidate =>
    intro k ref href
    have hsplit : st.localCandidates.find? k = some ref ∨ v.localKey = k ∧ v.signalRef = ref := by
      unfold addLocal at href
      split at href
      · rw [hcandidates] at href
        exact .inl href
      · rw [((st.addPath v).addLocalSignal v |>.addLocalRange_frame v).2.2.1] at href
        rcases addLocalSignal_candidate v href with hold | hnew
        · rw [hcandidates] at hold
          exact .inl hold
        · exact .inr hnew
    rcases hsplit with hold | ⟨hkey, href⟩
    · obtain ⟨w, hw, hlocal⟩ := h.candidate k ref hold
      exact ⟨w, List.mem_append_left _ hw, hlocal⟩
    · exact ⟨v, List.mem_append_right _ (List.mem_singleton_self v), hkey, href⟩
  case agree =>
    intro w hw hne hnot
    unfold addLocal at hnot ⊢
    split at hnot
    next hempty =>
      -- the local name of `v` is empty, so `w` is one of the variables before it
      rcases List.mem_append.1 hw with hw | hw
      · rw [if_pos hempty, hcandidates]
        rw [hambiguous] at hnot
        exact h.agree w hw hne hnot
      · obtain rfl := List.mem_singleton.1 hw
        exact absurd hempty hne
    next hv =>
      obtain ⟨-, -, hframe, hframe'⟩ := ((st.addPath v).addLocalSignal v).addLocalRange_frame v
      rw [if_neg hv, hframe]
      rw [hframe'] at hnot
      rcases List.mem_append.1 hw with hw | hw
      · refine addLocalSignal_keeps v (fun hmem => ?_) hnot
        rw [hcandidates]
        rw [hambiguous] at hmem
        exact h.agree w hw hne hmem
      · obtain rfl := List.mem_singleton.1 hw
        exact addLocalSignal_self w hnot

lemma foldl_addVar (vars : List HierarchyVar) (h : IndexSpec l st) :
    IndexSpec (l ++ vars.filter fun v =>
        v.varRef ≠ 0 ∧ v.fullName.getD "" ≠ "" ∧ v.signalRef ≠ 0) (vars.foldl addVar st) := by
  induction vars generalizing l st with
  | nil =>
      rw [List.filter_nil, List.append_nil]
      exact h
  | cons v vars ih =>
      rw [List.foldl_cons, List.filter_cons, addVar]
      by_cases hvar : v.varRef = 0
      · rw [if_pos hvar, if_neg (by simp [hvar])]
        exact ih h
      rw [if_neg hvar]
      by_cases hfull : v.fullName.getD "" = ""
      · rw [if_pos hfull, if_neg (by simp [hfull])]
        exact ih h
      rw [if_neg hfull]
      by_cases hsignal : v.signalRef = 0
      · rw [if_pos hsignal, if_neg (by simp [hsignal])]
        exact ih h
      rw [if_neg hsignal, if_pos (by simp [hvar, hfull, hsignal])]
      have hsnoc := ih (h.snoc v)
      rw [List.append_assoc] at hsnoc
      exact hsnoc

lemma foldl_addScope (scopes : List HierarchyScope) (h : IndexSpec l st) :
    IndexSpec (l ++ indexedVars scopes) (scopes.foldl addScope st) := by
  induction scopes generalizing l st with
  | nil =>
      rw [indexedVars, List.filter_nil, List.flatMap_nil, List.filter_nil, List.append_nil]
      exact h
  | cons scope scopes ih =>
      rw [List.foldl_cons, addScope, indexedVars, List.filter_cons]
      by_cases hscope : scope.scopeRef = 0
      · rw [if_pos hscope, if_neg (by simp [hscope])]
        exact ih h
      · rw [if_neg hscope, if_pos (by simp [hscope]), List.flatMap_cons, List.filter_append,
          ← List.append_assoc]
        exact ih (foldl_addVar scope.vars h)

/-! The loop over the candidates leaves the keys alone that are there. -/

lemma addCandidate_frame (st : IndexState) (item : String × ℕ) :
    (st.addCandidate item).ambiguousLocals = st.ambiguousLocals := by
  unfold addCandidate
  split <;> rfl

lemma addCandidate_keeps {k : String} {ref : ℕ} (item : String × ℕ)
    (h : st.signalIndex.find? k = some ref) :
    (st.addCandidate item).signalIndex.find? k = some ref ∧
      (st.addCandidate item).declaredRanges.find? k = st.declaredRanges.find? k := by
  unfold addCandidate
  split
  next hnew =>
    have hne : k ≠ item.1 := by
      rintro rfl
      rw [h] at hnew
      cases hnew.2
    refine ⟨by rwa [OrderedMap.find?_insert_of_ne _ hne], ?_⟩
    dsimp only
    split
    · split
      · rfl
      · rw [OrderedMap.find?_insert_of_ne _ hne]
    · rfl
  · exact ⟨h, rfl⟩

lemma foldl_addCandidate_keeps {k : String} {ref : ℕ} (items : List (String × ℕ))
    (h : st.signalIndex.find? k = some ref) :
    (items.foldl addCandidate st).signalIndex.find? k = some ref ∧
      (items.foldl addCandidate st).declaredRanges.find? k = st.declaredRanges.find? k := by
  induction items generalizing st with
  | nil => exact ⟨h, rfl⟩
  | cons item items ih =>
      obtain ⟨hkeep, hrange⟩ := addCandidate_keeps item h
      obtain ⟨hkeep', hrange'⟩ := ih hkeep
      exact ⟨hkeep', hrange'.trans hrange⟩

/-- A key that is new after the loop is a candidate that is not ambiguous. -/
lemma foldl_addCandidate_new {k : String} {ref : ℕ} {items : List (String × ℕ)}
    (h : (items.foldl addCandidate st).signalIndex.find? k = some ref)
    (hold : st.signalIndex.find? k = none) : (k, ref) ∈ items ∧ k ∉ st.ambiguousLocals := by
  induction items generalizing st with
  | nil =>
      rw [List.foldl_nil, hold] at h
      cases h
  | cons item items ih =>
      rw [List.foldl_cons] at h
      cases hnext : (st.addCandidate item).signalIndex.find? k with
      | none =>
          obtain ⟨hmem, hnot⟩ := ih h hnext
          rw [addCandidate_frame] at hnot
          exact ⟨List.mem_cons_of_mem _ hmem, hnot⟩
      | some ref' =>
          have hkeep := (foldl_addCandidate_keeps items hnext).1
          rw [h] at hkeep
          obtain rfl := Option.some.inj hkeep
          unfold addCandidate at hnext
          split at hnext
          next hnew =>
            rcases (OrderedMap.find?_insert_eq_some_iff _).1 hnext with ⟨rfl, rfl⟩ | ⟨-, hsome⟩
            · exact ⟨List.mem_cons_self, by simpa using hnew.1⟩
            · rw [hold] at hsome
              cases hsome
          · rw [hold] at hnext
            cases hnext

end IndexState

/-! ### The index of a hierarchy -/

section Index

variable {scopes : List HierarchyScope} {k : String}

open IndexState

lemma indexSpec_foldl (scopes : List HierarchyScope) :
    IndexSpec (indexedVars scopes) (scopes.foldl addScope {}) :=
  foldl_addScope scopes IndexSpec.empty

/-- The key of a path leads to the last variable that has it. -/
lemma exists_last_of_mem {v : HierarchyVar} (hv : v ∈ indexedVars scopes) (hne : v.pathKey ≠ "") :
    ∃ before w after, indexedVars scopes = before ++ w :: after ∧ w.pathKey = v.pathKey ∧
      (∀ u ∈ after, u.pathKey ≠ v.pathKey) ∧
      (scopes.foldl addScope {}).signalIndex.find? v.pathKey = some w.signalRef := by
  set p : HierarchyVar → Bool := fun u => u.pathKey = v.pathKey ∧ v.pathKey ≠ "" with hp
  have hmem : v ∈ (indexedVars scopes).filter p := by
    rw [List.mem_filter]
    exact ⟨hv, by simp [hp, hne]⟩
  obtain ⟨w, hw⟩ : ∃ w, ((indexedVars scopes).filter p).getLast? = some w :=
    ⟨_, List.getLast?_eq_some_getLast (List.ne_nil_of_mem hmem)⟩
  obtain ⟨before, after, hsplit, hlast⟩ := exists_split_of_getLast?_filter hw
  have hfind := (indexSpec_foldl scopes).signal v.pathKey
  rw [hw] at hfind
  refine ⟨before, w, after, hsplit, ?_, ?_, hfind⟩
  · have hkey := List.of_mem_filter (List.mem_of_getLast? hw)
    simpa [hp, hne] using hkey
  · intro u hu heq
    have hother := hlast u hu
    simp [hp, hne, heq] at hother

/-- The range under a key that only one variable has is the range of the variable. -/
lemma declaredRanges_of_unique {before after : List HierarchyVar} {v : HierarchyVar}
    (hsplit : indexedVars scopes = before ++ v :: after) (hne : v.pathKey ≠ "")
    (hunique : ∀ u ∈ before ++ after, u.pathKey ≠ v.pathKey) :
    (buildSignalIndex scopes).declaredRanges.find? v.pathKey = v.declaredRange := by
  have hspec := indexSpec_foldl scopes
  have hothers : ∀ l : List HierarchyVar, (∀ u ∈ l, u.pathKey ≠ v.pathKey) →
      l.filter (fun u => (u.pathKey = v.pathKey ∧ v.pathKey ≠ "") ∧ u.declaredRange ≠ none) =
        [] := by
    intro l hl
    rw [List.filter_eq_nil_iff]
    intro u hu
    simp [hl u hu]
  have hrange : (scopes.foldl addScope {}).declaredRanges.find? v.pathKey = v.declaredRange := by
    rw [hspec.range, hsplit, List.filter_append, List.filter_cons,
      hothers before fun u hu => hunique u (List.mem_append_left _ hu),
      hothers after fun u hu => hunique u (List.mem_append_right _ hu), List.nil_append]
    cases hv : v.declaredRange with
    | none => rw [if_neg (by simp)]; rfl
    | some range => rw [if_pos (by simp [hne])]; exact hv
  obtain ⟨-, w, -, -, -, -, hfind⟩ := exists_last_of_mem
    (hsplit ▸ List.mem_append_right before List.mem_cons_self) hne
  exact (foldl_addCandidate_keeps _ hfind).2.trans hrange

/-- A key that is not that of a path is a local name that stands for one signal. -/
lemma exists_local_of_find? {ref : ℕ} (hne : k ≠ "")
    (hfind : (buildSignalIndex scopes).signalIndex.find? k = some ref)
    (hpath : ∀ v ∈ indexedVars scopes, v.pathKey ≠ k) :
    ∃ v ∈ indexedVars scopes, v.localKey = k ∧ v.signalRef = ref ∧
      ∀ w ∈ indexedVars scopes, w.localKey = k → w.signalRef = ref := by
  have hspec := indexSpec_foldl scopes
  have hold : (scopes.foldl addScope {}).signalIndex.find? k = none := by
    rw [hspec.signal, List.filter_eq_nil_iff.2]
    · rfl
    · intro v hv
      simp [hpath v hv]
  obtain ⟨hmem, hnot⟩ := foldl_addCandidate_new hfind hold
  have hcandidate := (OrderedMap.mem_entries_iff _ _ _).1 hmem
  obtain ⟨v, hv, hkey, href⟩ := hspec.candidate k ref hcandidate
  refine ⟨v, hv, hkey, href, ?_⟩
  rintro w hw rfl
  have hagree := hspec.agree w hw hne hnot
  rw [hcandidate] at hagree
  exact (Option.some.inj hagree).symm

end Index

/-! ### Normalised names -/

/-- Lowering the case does not make other characters than letters. -/
lemma eq_of_toLower {c d : Char} (h : c.toLower = d) (hd : d.toNat < 97) : c = d := by
  unfold Char.toLower at h
  split at h
  next hupper =>
    exfalso
    subst h
    have hlow : 65 ≤ c.val.toNat := hupper.1
    have hhigh : c.val.toNat ≤ 90 := hupper.2
    have hval : (c.val + (97 - 65)).toNat = c.val.toNat + 32 := by
      rw [UInt32.toNat_add]
      show (c.val.toNat + 32) % 2 ^ 32 = _
      omega
    have hd' : (c.val + (97 - 65)).toNat < 97 := hd
    omega
  · exact h

lemma dropArrayDots_ne_nil {l : List Char} (h : l ≠ []) : dropArrayDots l ≠ [] := by
  fun_cases dropArrayDots l with
  | case1 => simp
  | case2 => simp
  | case3 => exact absurd rfl h

/-- Without dots there is nothing to drop. -/
lemma dropArrayDots_eq {l : List Char} (h : '.' ∉ l) : dropArrayDots l = l := by
  fun_induction dropArrayDots l with
  | case1 rest ih => simp at h
  | case2 c rest _ ih =>
      rw [List.mem_cons, not_or] at h
      rw [ih h.2]
  | case3 => rfl

lemma dropTop_eq_some {l rest : List Char} (h : dropTop l = some rest) :
    l = ['t', 'o', 'p', '.'] ++ rest := by
  unfold dropTop at h
  split at h
  · obtain rfl := Option.some.inj h
    rfl
  · cases h

/-- A path whose last name is not empty. -/
def EndsInName (path : String) : Prop := ∃ c, path.toList.getLast? = some c ∧ c ≠ '.'

/-- A name of one level, without a selection. -/
def Unqualified (name : String) : Prop := name ≠ "" ∧ '.' ∉ name.toList ∧ '[' ∉ name.toList

lemma normalizePath_ne_nil {path : String} (h : EndsInName path) :
    normalizePath path.toList ≠ [] := by
  obtain ⟨c, hlast, hc⟩ := h
  refine dropArrayDots_ne_nil ?_
  have hlower : (path.toList.map Char.toLower).getLast? = some c.toLower := by
    rw [List.getLast?_map, hlast]
    rfl
  cases htop : dropTop (path.toList.map Char.toLower) with
  | none =>
      intro hnil
      rw [Option.getD_none] at hnil
      rw [hnil] at hlower
      cases hlower
  | some rest =>
      rintro rfl
      rw [dropTop_eq_some htop] at hlower
      exact hc (eq_of_toLower (Option.some.inj hlower).symm (by decide))

lemma Unqualified.normalizePath_eq {name : String} (h : Unqualified name) :
    normalizePath name.toList = name.toList.map Char.toLower ∧
      '.' ∉ name.toList.map Char.toLower ∧ '[' ∉ name.toList.map Char.toLower := by
  have hnone : ∀ d : Char, d.toNat < 97 → d ∉ name.toList → d ∉ name.toList.map Char.toLower := by
    intro d hd hmem hlower
    obtain ⟨c, hc, hcd⟩ := List.mem_map.1 hlower
    exact hmem (eq_of_toLower hcd hd ▸ hc)
  have hdot := hnone '.' (by decide) h.2.1
  refine ⟨?_, hdot, hnone '[' (by decide) h.2.2⟩
  have htop : dropTop (name.toList.map Char.toLower) = none := by
    cases htop : dropTop (name.toList.map Char.toLower) with
    | none => rfl
    | some rest =>
        rw [dropTop_eq_some htop] at hdot
        simp at hdot
  rw [normalizePath, htop, Option.getD_none, dropArrayDots_eq hdot]

/-- A text without a bracket has no selector. -/
lemma splitSelector_eq_none {path : List Char} (h : '[' ∉ path) : splitSelector path = none := by
  unfold splitSelector
  split
  next rest hrev =>
    have hrest : '[' ∉ rest := by
      intro hmem
      refine h (List.mem_reverse.1 ?_)
      rw [hrev]
      exact List.mem_cons_of_mem _ hmem
    have htake : rest.takeWhile (· ≠ '[') = rest := by
      rw [List.takeWhile_eq_self_iff]
      intro c hc
      rw [decide_eq_true_eq]
      rintro rfl
      exact hrest hc
    rw [htake]
    dsimp only
    rw [List.drop_length]
  · rfl

/-! ### Finding -/

namespace Wellen

variable {capi : Capi} {st : Wellen}

/-- Two states with the same index. -/
def SameIndex (st st' : Wellen) : Prop :=
  st'.signalIndex = st.signalIndex ∧ st'.declaredRanges = st.declaredRanges

lemma sameIndex_createPackedSelection (st : Wellen) (path : String) :
    SameIndex st (st.createPackedSelection path).2 := by
  rw [createPackedSelection]
  cases st.packedSelectionIndex.find? path with
  | some handle => exact ⟨rfl, rfl⟩
  | none => cases st.selectionOf path <;> exact ⟨rfl, rfl⟩

/-- Calls do not change the index. -/
lemma sameIndex_step (st : Wellen) (call : Call) : SameIndex st (st.step capi call) := by
  cases call with
  | createPackedSelection path => exact sameIndex_createPackedSelection st path
  | loadSignals refs =>
      show SameIndex st (st.loadSignals refs)
      rw [loadSignals]
      split_ifs <;> exact ⟨rfl, rfl⟩
  | unloadSignals refs =>
      show SameIndex st (st.unloadSignals refs)
      rw [unloadSignals]
      split_ifs <;> exact ⟨rfl, rfl⟩
  | sampledValueAt ref timeIdx point =>
      show SameIndex st (st.signalOffsetAt capi ref timeIdx).2
      rw [signalOffsetAt]
      cases st.packedSelection ref with
      | none => exact ⟨rfl, rfl⟩
      | some sel =>
          show SameIndex st (st.selectedChanges capi ref).2
          rcases selectedChanges_cases st ref with heq | ⟨sel, changes, -, -, heq⟩
          · rw [heq]
            exact ⟨rfl, rfl⟩
          · rw [heq]
            exact ⟨rfl, rfl⟩

lemma sameIndex_run (capi : Capi) (signalIndex : OrderedMap String ℕ)
    (declaredRanges : OrderedMap String DeclaredRange) (calls : List Call) :
    SameIndex (opened signalIndex declaredRanges) (run capi signalIndex declaredRanges calls) := by
  unfold run
  induction calls using List.reverseRecOn with
  | nil => exact ⟨rfl, rfl⟩
  | append_singleton calls call ih =>
      rw [List.foldl_append]
      obtain ⟨hindex, hranges⟩ := @sameIndex_step capi
        (calls.foldl (step capi) (opened signalIndex declaredRanges)) call
      exact ⟨hindex.trans ih.1, hranges.trans ih.2⟩

/-- A path whose key is in the index is found there. -/
lemma findSignal_of_find? {path : String} {ref : ℕ} (hne : path ≠ "")
    (hfind : st.signalIndex.find? (String.ofList (normalizePath path.toList)) = some ref) :
    (st.findSignal path).1 = ref := by
  rw [findSignal, if_neg hne]
  dsimp only
  rw [hfind]

/-- An unqualified name that is found is a key of the index. -/
lemma find?_of_findSignal (h : IndexInv st) {name : String} (hname : Unqualified name)
    (hfound : (st.findSignal name).1 ≠ 0) :
    st.signalIndex.find? (String.ofList (normalizePath name.toList)) =
      some (st.findSignal name).1 := by
  obtain ⟨hkey, hdot, hbracket⟩ := hname.normalizePath_eq
  have htop : dropTop (normalizePath name.toList) = none := by
    cases htop : dropTop (normalizePath name.toList) with
    | none => rfl
    | some rest =>
        rw [← hkey, dropTop_eq_some htop] at hdot
        simp at hdot
  have hselected : (st.createPackedSelection
      (String.ofList (normalizePath name.toList))).1 = 0 := by
    by_contra hne
    obtain ⟨sel, -, base, selector, hsplit, -⟩ := h.exists_asks rfl hne
    rw [String.toList_ofList, hkey, splitSelector_eq_none hbracket] at hsplit
    cases hsplit
  cases hfind : st.signalIndex.find? (String.ofList (normalizePath name.toList)) with
  | some ref => rw [findSignal_of_find? hname.1 hfind]
  | none =>
      exfalso
      refine hfound ?_
      rw [findSignal, if_neg hname.1]
      dsimp only
      rw [hfind]
      dsimp only
      rw [if_neg (not_not.2 hselected), htop]

end Wellen

/-! ### What names resolve to -/

/-- The answers to names over a hierarchy. -/
structure ResolvesNames (scopes : List HierarchyScope) (st : Wellen) : Prop where
  /-- The full path of a variable leads to the last variable with the same normalised path. -/
  path : ∀ v ∈ indexedVars scopes, EndsInName (v.fullName.getD "") →
    ∃ before w after, indexedVars scopes = before ++ w :: after ∧ w.pathKey = v.pathKey ∧
      (∀ u ∈ after, u.pathKey ≠ v.pathKey) ∧
      (st.findSignal (v.fullName.getD "")).1 = w.signalRef
  /-- A variable that has its normalised path for itself is found with its declared range. -/
  unique : ∀ before v after, indexedVars scopes = before ++ v :: after →
    EndsInName (v.fullName.getD "") → (∀ u ∈ before ++ after, u.pathKey ≠ v.pathKey) →
    (st.findSignal (v.fullName.getD "")).1 = v.signalRef ∧
      st.declaredRanges.find? v.pathKey = v.declaredRange
  /-- An unqualified name that is not the normalised path of a variable resolves only if all
  variables with this local name have one signal. -/
  localName : ∀ name, Unqualified name →
    (∀ v ∈ indexedVars scopes, v.pathKey ≠ String.ofList (normalizePath name.toList)) →
    (st.findSignal name).1 ≠ 0 →
    ∃ v ∈ indexedVars scopes, v.localKey = String.ofList (normalizePath name.toList) ∧
      v.signalRef = (st.findSignal name).1 ∧
      ∀ w ∈ indexedVars scopes, w.localKey = String.ofList (normalizePath name.toList) →
        w.signalRef = (st.findSignal name).1

/-- Names over a hierarchy resolve up to normalisation, after any calls. -/
theorem hierarchyState_resolvesNames (capi : Capi) (scopes : List HierarchyScope)
    (calls : List Wellen.Call) : ResolvesNames scopes (hierarchyState capi scopes calls) := by
  obtain ⟨hindex, hranges⟩ := Wellen.sameIndex_run capi (buildSignalIndex scopes).signalIndex
    (buildSignalIndex scopes).declaredRanges calls
  -- the index is that of the hierarchy, as the calls only add selections
  have hkey : ∀ {v : HierarchyVar}, EndsInName (v.fullName.getD "") → v.pathKey ≠ "" := by
    intro v hpath hempty
    refine normalizePath_ne_nil hpath ?_
    have := congrArg String.toList hempty
    rwa [HierarchyVar.pathKey, String.toList_ofList] at this
  have hfull : ∀ {v : HierarchyVar}, v ∈ indexedVars scopes → v.fullName.getD "" ≠ "" := by
    intro v hv
    have hkept := List.of_mem_filter hv
    rw [decide_eq_true_eq] at hkept
    exact hkept.2.1
  have hpath : ∀ v ∈ indexedVars scopes, EndsInName (v.fullName.getD "") →
      ∃ before w after, indexedVars scopes = before ++ w :: after ∧ w.pathKey = v.pathKey ∧
        (∀ u ∈ after, u.pathKey ≠ v.pathKey) ∧
        ((hierarchyState capi scopes calls).findSignal (v.fullName.getD "")).1 =
          w.signalRef := by
    intro v hv hends
    obtain ⟨before, w, after, hsplit, hsame, hafter, hfind⟩ := exists_last_of_mem hv (hkey hends)
    refine ⟨before, w, after, hsplit, hsame, hafter, ?_⟩
    refine Wellen.findSignal_of_find? (hfull hv) ?_
    rw [hierarchyState, hindex]
    exact (IndexState.foldl_addCandidate_keeps _ hfind).1
  refine ⟨hpath, ?_, ?_⟩
  · intro before v after hsplit hends hunique
    have hv : v ∈ indexedVars scopes := hsplit ▸ List.mem_append_right before List.mem_cons_self
    obtain ⟨before', w, after', hsplit', hsame, -, hfound⟩ := hpath v hv hends
    refine ⟨?_, ?_⟩
    · -- the last variable with the key is the only one
      have hw : w ∈ before ++ v :: after := by
        rw [← hsplit, hsplit']
        exact List.mem_append_right before' List.mem_cons_self
      rcases List.mem_append.1 hw with hw | hw
      · exact absurd hsame (hunique w (List.mem_append_left _ hw))
      · rcases List.mem_cons.1 hw with rfl | hw
        · exact hfound
        · exact absurd hsame (hunique w (List.mem_append_right _ hw))
    · rw [hierarchyState, hranges]
      exact declaredRanges_of_unique hsplit (hkey hends) hunique
  · intro name hname hnot hfound
    have hfind := Wellen.find?_of_findSignal
      (Wellen.indexInv_run capi _ _ calls : Wellen.IndexInv (hierarchyState capi scopes calls))
      hname hfound
    have hfind' : (buildSignalIndex scopes).signalIndex.find?
        (String.ofList (normalizePath name.toList)) =
          some ((hierarchyState capi scopes calls).findSignal name).1 :=
      (congrArg (fun index => index.find? (String.ofList (normalizePath name.toList)))
        hindex.symm).trans hfind
    refine exists_local_of_find? ?_ hfind' hnot
    intro hempty
    have hnil := congrArg String.toList hempty
    rw [String.toList_ofList, hname.normalizePath_eq.1, String.toList_empty,
      List.map_eq_nil_iff] at hnil
    exact hname.1 (String.toList_eq_nil_iff.1 hnil)

/-! ### Two variables that differ in case -/

/-- A scope with the variables `a` and `A`. -/
def caseScopes : List HierarchyScope :=
  [{ scopeRef := 1
     vars := [
       { varRef := 1, fullName := some "tb.a", name := some "a", signalRef := 1
         isBitVector := true, width := 8, index := some (7, 0) },
       { varRef := 2, fullName := some "tb.A", name := some "A", signalRef := 2
         isBitVector := true, width := 1, index := none }] }]

/-- The path of the first variable leads to the second one. -/
theorem caseScopes_not_own : ¬ ∀ (capi : Capi) (scopes : List HierarchyScope)
    (calls : List Wellen.Call), (indexedVars scopes).Pairwise (fun v w => v.fullName ≠ w.fullName) →
    ∀ v ∈ indexedVars scopes, EndsInName (v.fullName.getD "") →
      ((hierarchyState capi scopes calls).findSignal (v.fullName.getD "")).1 = v.signalRef ∧
        (hierarchyState capi scopes calls).declaredRanges.find? v.pathKey = v.declaredRange := by
  intro hall
  have hown := hall busCapi caseScopes [] (by decide) _ (List.mem_of_getElem? (i := 0) rfl)
    ⟨'a', by decide, by decide⟩
  have hfound : ((hierarchyState busCapi caseScopes []).findSignal "tb.a").1 = 2 := by
    decide +kernel
  have hone : ((hierarchyState busCapi caseScopes []).findSignal "tb.a").1 = 1 := hown.1
  omega

end XdebugFst.Waveform
