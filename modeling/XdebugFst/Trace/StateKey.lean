import Mathlib
import XdebugFst.Lib.Fields
import XdebugFst.Trace.XOrigin

/-!
# The key of a search state

The search for the origin of an X does not enter a state a second time, and it tells the states
apart by a key. `x_origin_semantic_state_key` puts the sizes of the texts in front of them, leaves
out the hops over ports, and stores neither the number of hops nor whether there is an incoming
relation.

The fields of the key can be read off it nevertheless: a relation is not empty, so the empty field
behind the hops is the first one in its place. `stateKeyOf_eq_iff` says that two states have one key
exactly if they are the same but for ports.
-/

namespace XdebugFst.Trace.XOrigin

open Lib

/-! ### The key -/

/-- What the key reads of a hop. -/
structure KeyHop where
  relation : String
  signal : String
  /-- `x_onset_time`. -/
  onset : String
  deriving DecidableEq, Repr

/-- `x_origin_semantic_chain_key` of a chain that has hops and nothing else. -/
def prefixKey (hops : List KeyHop) : String :=
  String.join (hops.map fun hop => stepKey hop.relation hop.signal hop.onset) ++ identityField ""

/-- `x_origin_semantic_state_key`. -/
def stateKeyOf (hops : List KeyHop) (incomingRelation currentSignal : String) (currentOnset : ℕ) :
    String :=
  let relation := semanticRelation incomingRelation
  prefixKey hops ++ (if relation = "" then "" else identityField relation) ++
    identityField currentSignal ++ identityField (toString currentOnset)

/-- The hops of a state of the search, with their rendered times. -/
def keyHops (session : Session) (hops : List Hop) : List KeyHop :=
  hops.map fun hop => ⟨hop.relation, hop.signal, session.formatTime hop.onset⟩

theorem semanticStateKey_eq (session : Session) (hops : List Hop) (incomingRelation signal : String)
    (onset : ℕ) : semanticStateKey session hops incomingRelation signal onset =
      stateKeyOf (keyHops session hops) incomingRelation signal onset := by
  rw [semanticStateKey, stateKeyOf, prefixKey, keyHops, hopsKey, List.map_map]
  rfl

/-! ### States up to ports -/

/-- The tokens of a relation that are not ports. -/
def semanticTokens (relation : String) : List String :=
  ((relation.toList.splitOn '+').map String.ofList).filter fun token =>
    token ≠ "" ∧ token ≠ "port"

/-- The hops that are not over ports, with the tokens of their relations that are not ports. -/
def semanticHops (hops : List KeyHop) : List (List String × String × String) :=
  (hops.filter fun hop => semanticTokens hop.relation ≠ []).map fun hop =>
    (semanticTokens hop.relation, hop.signal, hop.onset)

/-! ### Relations -/

lemma relationTokens_eq_splitOn (text : List Char) : relationTokens text = text.splitOn '+' := by
  induction text with
  | nil => rfl
  | cons c rest ih =>
      have hne : rest.splitOn '+' ≠ [] := List.splitOn_ne_nil _ _
      rw [relationTokens, ih, List.splitOn_cons_eq_if_modifyHead]
      cases hrest : rest.splitOn '+' with
      | nil => exact absurd hrest hne
      | cons token tokens => simp

lemma semanticRelation_eq (relation : String) :
    semanticRelation relation = "+".intercalate (semanticTokens relation) := by
  rw [semanticRelation, relationTokens_eq_splitOn, semanticTokens]

lemma notMem_of_mem_relationTokens {text token : List Char} (h : token ∈ relationTokens text) :
    '+' ∉ token := by
  induction text generalizing token with
  | nil =>
      rw [List.mem_singleton.1 h]
      exact List.not_mem_nil
  | cons c rest ih =>
      rw [relationTokens] at h
      cases hrest : relationTokens rest with
      | nil => simp_all
      | cons first tokens =>
          simp only [hrest] at h ih
          split_ifs at h with hplus
          · rcases List.mem_cons.1 h with rfl | h
            · exact List.not_mem_nil
            · exact ih h
          · rcases List.mem_cons.1 h with rfl | h
            · rw [List.mem_cons, not_or]
              exact ⟨Ne.symm hplus, ih List.mem_cons_self⟩
            · exact ih (List.mem_cons_of_mem first h)

lemma mem_semanticTokens {relation token : String} (h : token ∈ semanticTokens relation) :
    token ≠ "" ∧ '+' ∉ token.toList := by
  obtain ⟨hmem, hkept⟩ := List.mem_filter.1 h
  obtain ⟨piece, hpiece, rfl⟩ := List.mem_map.1 hmem
  rw [← relationTokens_eq_splitOn] at hpiece
  refine ⟨(of_decide_eq_true hkept).1, ?_⟩
  rw [String.toList_ofList]
  exact notMem_of_mem_relationTokens hpiece

lemma semanticRelation_eq_empty_iff {relation : String} :
    semanticRelation relation = "" ↔ semanticTokens relation = [] := by
  rw [semanticRelation_eq]
  constructor
  · intro h
    cases htokens : semanticTokens relation with
    | nil => rfl
    | cons token tokens =>
        have hne := (mem_semanticTokens (htokens ▸ List.mem_cons_self)).1
        have hlist := congrArg String.toList h
        rw [htokens, String.toList_intercalate, List.map_cons, String.toList_empty] at hlist
        cases tokens with
        | nil => exact absurd (String.toList_eq_nil_iff.1 (by simpa using hlist)) hne
        | cons token' tokens => simp at hlist
  · intro h
    rw [h]
    rfl

/-- The tokens are read off the relation without ports. -/
lemma semanticRelation_inj {relation relation' : String} :
    semanticRelation relation = semanticRelation relation' ↔
      semanticTokens relation = semanticTokens relation' := by
  refine ⟨fun h => ?_, fun h => by rw [semanticRelation_eq, semanticRelation_eq, h]⟩
  by_cases hempty : semanticTokens relation = []
  · rw [hempty, eq_comm, ← semanticRelation_eq_empty_iff, ← h, semanticRelation_eq_empty_iff]
    exact hempty
  · have hempty' : semanticTokens relation' ≠ [] := by
      rwa [Ne, ← semanticRelation_eq_empty_iff, ← h, semanticRelation_eq_empty_iff]
    have hsplit {r : String} (hne : semanticTokens r ≠ []) :
        (semanticRelation r).toList.splitOn '+' = (semanticTokens r).map String.toList := by
      rw [semanticRelation_eq, String.toList_intercalate]
      refine List.splitOn_intercalate '+' (fun l hl => ?_) (by simpa using hne)
      obtain ⟨token, htoken, rfl⟩ := List.mem_map.1 hl
      exact (mem_semanticTokens htoken).2
    have hmap := hsplit hempty
    rw [h, hsplit hempty'] at hmap
    exact (List.map_injective_iff.2 (fun _ _ h => String.toList_injective h) hmap).symm

/-! ### Fields -/

/-- The hops that the key has fields of. -/
def keptHops (hops : List KeyHop) : List KeyHop :=
  hops.filter fun hop => semanticTokens hop.relation ≠ []

lemma semanticRelation_of_mem_keptHops {hops : List KeyHop} {hop : KeyHop}
    (h : hop ∈ keptHops hops) : semanticRelation hop.relation ≠ "" := by
  rw [Ne, semanticRelation_eq_empty_iff]
  exact of_decide_eq_true (List.mem_filter.1 h).2

/-- The fields of the hops. -/
def hopFields (hops : List KeyHop) : List String :=
  hops.flatMap fun hop => [semanticRelation hop.relation, hop.signal, hop.onset]

/-- The fields of a key: those of the hops, an empty one, the incoming relation if there is one, and
those of the current signal. -/
def stateFields (hops : List KeyHop) (incomingRelation currentSignal : String)
    (currentOnset : ℕ) : List String :=
  let relation := semanticRelation incomingRelation
  hopFields (keptHops hops) ++ "" :: ((if relation = "" then [] else [relation]) ++
    [currentSignal, toString currentOnset])

lemma identityField_eq_field (value : String) : identityField value = field value := rfl

lemma fields_hopFields (hops : List KeyHop) : fields (hopFields (keptHops hops)) =
    String.join (hops.map fun hop => stepKey hop.relation hop.signal hop.onset) := by
  induction hops with
  | nil => rfl
  | cons hop hops ih =>
      rw [List.map_cons, String.join_cons, ← ih, stepKey]
      by_cases hempty : semanticTokens hop.relation = []
      · rw [if_pos (semanticRelation_eq_empty_iff.2 hempty)]
        simp [keptHops, hempty]
      · rw [if_neg (mt semanticRelation_eq_empty_iff.1 hempty)]
        simp [keptHops, hempty, hopFields, identityField_eq_field, String.append_assoc]

lemma stateKeyOf_eq_fields (hops : List KeyHop) (incomingRelation currentSignal : String)
    (currentOnset : ℕ) : stateKeyOf hops incomingRelation currentSignal currentOnset =
      fields (stateFields hops incomingRelation currentSignal currentOnset) := by
  rw [stateKeyOf, prefixKey, stateFields, ← fields_hopFields]
  split_ifs <;> simp [identityField_eq_field, String.append_assoc]

/-- An empty field in the place of a relation is behind the hops. -/
lemma hopFields_append_inj {hops hops' : List KeyHop} {rest rest' : List String}
    (h : ∀ hop ∈ hops, semanticRelation hop.relation ≠ "")
    (h' : ∀ hop ∈ hops', semanticRelation hop.relation ≠ "")
    (heq : hopFields hops ++ "" :: rest = hopFields hops' ++ "" :: rest') :
    hops.map (fun hop => (semanticTokens hop.relation, hop.signal, hop.onset)) =
        hops'.map (fun hop => (semanticTokens hop.relation, hop.signal, hop.onset)) ∧
      rest = rest' := by
  induction hops generalizing hops' with
  | nil =>
      cases hops' with
      | nil => exact ⟨rfl, by simpa [hopFields] using heq⟩
      | cons hop' hops' =>
          have hne := h' hop' List.mem_cons_self
          simp [hopFields, hne.symm] at heq
  | cons hop hops ih =>
      cases hops' with
      | nil =>
          have hne := h hop List.mem_cons_self
          simp [hopFields, hne] at heq
      | cons hop' hops' =>
          simp only [hopFields, List.flatMap_cons, List.cons_append, List.nil_append,
            List.cons.injEq] at heq
          obtain ⟨hrelation, hsignal, honset, heq⟩ := heq
          obtain ⟨hmap, hrest⟩ := ih (fun hop hmem => h hop (List.mem_cons_of_mem _ hmem))
            (fun hop hmem => h' hop (List.mem_cons_of_mem _ hmem)) heq
          refine ⟨?_, hrest⟩
          rw [List.map_cons, List.map_cons, hmap, semanticRelation_inj.1 hrelation, hsignal, honset]

/-- What is behind the hops: with a relation there is one field more. -/
lemma incoming_inj {relation relation' signal signal' onset onset' : String}
    (heq : (if relation = "" then [] else [relation]) ++ [signal, onset] =
      (if relation' = "" then [] else [relation']) ++ [signal', onset']) :
    relation = relation' ∧ signal = signal' ∧ onset = onset' := by
  split_ifs at heq with h h'
  · simp_all
  · exact absurd (congrArg List.length heq) (by simp)
  · exact absurd (congrArg List.length heq) (by simp)
  · simpa using heq

/-- Two states have one key exactly if they are the same up to ports. -/
theorem stateKeyOf_eq_iff (hops hops' : List KeyHop) (relation relation' signal signal' : String)
    (onset onset' : ℕ) :
    stateKeyOf hops relation signal onset = stateKeyOf hops' relation' signal' onset' ↔
      semanticHops hops = semanticHops hops' ∧ semanticTokens relation = semanticTokens relation' ∧
        signal = signal' ∧ onset = onset' := by
  rw [stateKeyOf_eq_fields, stateKeyOf_eq_fields, fields_injective.eq_iff]
  constructor
  · intro h
    obtain ⟨hhops, hrest⟩ := hopFields_append_inj
      (fun hop hmem => semanticRelation_of_mem_keptHops hmem)
      (fun hop hmem => semanticRelation_of_mem_keptHops hmem) h
    obtain ⟨hrelation, hsignal, honset⟩ := incoming_inj hrest
    exact ⟨hhops, semanticRelation_inj.1 hrelation, hsignal, Nat.repr_injective honset⟩
  · rintro ⟨hhops, hrelation, rfl, rfl⟩
    have hfields : hopFields (keptHops hops) = hopFields (keptHops hops') := by
      have hflat (l : List KeyHop) : hopFields l =
          (l.map fun hop => (semanticTokens hop.relation, hop.signal, hop.onset)).flatMap fun hop =>
            ["+".intercalate hop.1, hop.2.1, hop.2.2] := by
        rw [hopFields, List.flatMap_map]
        simp only [semanticRelation_eq]
      rw [hflat, hflat]
      exact congrArg _ hhops
    rw [stateFields, stateFields, hfields, semanticRelation_inj.2 hrelation]

/-- A hop over a port is left out; without it the hop over an `rhs` remains. -/
example : stateKeyOf [⟨"port", "a", "5ns"⟩, ⟨"port+rhs", "b", "5ns"⟩] "port" "c" 5 =
    "3:rhs1:b3:5ns0:1:c1:5" := by decide +kernel

end XdebugFst.Trace.XOrigin
