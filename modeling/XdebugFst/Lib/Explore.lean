import Mathlib.Data.Multiset.Bind
import Mathlib.Data.Set.Subsingleton
import Mathlib.Logic.Relation
import Mathlib.Tactic

/-!
# Exploring a graph

A walk over a directed graph goes on from the inner nodes, and from each of them only the first
time that it enters it. It finds the nodes that are not inner, the inner ones without a successor,
and the inner ones that it enters again.

`Explored` relates what the walk has done to the multiset of the nodes that it has entered, and
`Extends` says how a call adds to it: what is entered are the calls and the successors of the nodes
that are newly visited. A walk from one node has therefore entered the successors of each reachable
inner node once, so that the order of the walk does not matter: `Explored.mem_found_iff`.
-/

namespace Lib

variable {α : Type} (inner : α → Prop) (next : α → List α)

/-- The walk goes on from `a` to `b`. -/
def Leads (a b : α) : Prop := inner a ∧ b ∈ next a

/-- A node that the walk from `start` can come to. -/
def Reached (start x : α) : Prop := Relation.ReflTransGen (Leads inner next) start x

/-- An inner node on a cycle of inner nodes. -/
def OnCycle (x : α) : Prop := Relation.TransGen (Leads inner next) x x

/-- The ways to enter a node: a reachable inner node and the place of a successor. -/
def entries (start x : α) : Set (α × ℕ) :=
  {p | (Reached inner next start p.1 ∧ inner p.1) ∧ (next p.1)[p.2]? = some x}

/-- There is more than one way to enter a node; to start with it is one. -/
def EnteredAgain (start x : α) : Prop :=
  (entries inner next start x).Nontrivial ∨ x = start ∧ (entries inner next start x).Nonempty

variable [DecidableEq α]

/-- What a walk has done that has entered the nodes `entered`. -/
structure Explored (start : α) (visited found : List α) (entered : Multiset α) : Prop where
  nodup : visited.Nodup
  mem_visited : ∀ x, x ∈ visited ↔ inner x ∧ x ∈ entered
  mem_found : ∀ x, x ∈ found ↔
    x ∈ entered ∧ (¬ inner x ∨ next x = [] ∨ 2 ≤ entered.count x)
  reached : ∀ x ∈ entered, Reached inner next start x

/-- The calls `calls` take the walk from one state to another. -/
def Extends (visited : List α) (entered calls : Multiset α) (visited' : List α)
    (entered' : Multiset α) : Prop :=
  ∃ fresh : Multiset α, (visited' : Multiset α) = fresh + visited ∧
    entered' = calls + fresh.bind (fun x => (next x : Multiset α)) + entered

variable {inner next} {start x : α} {visited found visited' found' : List α}
  {entered entered' calls calls' : Multiset α}

/-! ### Calls -/

omit [DecidableEq α] in
lemma Extends.refl : Extends next visited entered 0 visited entered := ⟨0, by simp, by simp⟩

omit [DecidableEq α] in
lemma Extends.single : Extends next visited entered {x} visited (x ::ₘ entered) :=
  ⟨0, by simp, by simp⟩

omit [DecidableEq α] in
lemma Extends.trans {visited'' : List α} {entered'' : Multiset α}
    (h : Extends next visited entered calls visited' entered')
    (h' : Extends next visited' entered' calls' visited'' entered'') :
    Extends next visited entered (calls + calls') visited'' entered'' := by
  obtain ⟨fresh, hvisited, rfl⟩ := h
  obtain ⟨fresh', hvisited', rfl⟩ := h'
  refine ⟨fresh' + fresh, by rw [hvisited', hvisited, add_assoc], ?_⟩
  rw [Multiset.add_bind]
  abel

omit [DecidableEq α] in
/-- A fresh node is visited, and its successors are called. -/
lemma Extends.visit {seen : List α} (hseen : (seen : Multiset α) = x ::ₘ visited)
    (h : Extends next seen (x ::ₘ entered) (next x) visited' entered') :
    Extends next visited entered {x} visited' entered' := by
  obtain ⟨fresh, hvisited, rfl⟩ := h
  refine ⟨x ::ₘ fresh, ?_, ?_⟩
  · rw [hvisited, hseen, Multiset.cons_add, Multiset.add_cons]
  · rw [Multiset.cons_bind, ← Multiset.singleton_add x entered]
    abel

/-- The walk finds a node that it does not go on from. -/
lemma Explored.found_cons (h : Explored inner next start visited found entered)
    (hx : Reached inner next start x) (hvisited : inner x → x ∈ visited)
    (hfound : ∀ y, y ∈ found' ↔ y = x ∨ y ∈ found) :
    Explored inner next start visited found' (x ::ₘ entered) where
  nodup := h.nodup
  mem_visited y := by
    rw [h.mem_visited, Multiset.mem_cons]
    refine and_congr_right fun hy => ⟨Or.inr, ?_⟩
    rintro (rfl | hmem)
    · exact ((h.mem_visited y).1 (hvisited hy)).2
    · exact hmem
  mem_found y := by
    rw [hfound, h.mem_found, Multiset.mem_cons, Multiset.count_cons]
    by_cases hyx : y = x
    · subst hyx
      refine iff_of_true (Or.inl rfl) ⟨Or.inl rfl, ?_⟩
      by_cases hy : inner y
      · have hpos := Multiset.count_pos.2 ((h.mem_visited y).1 (hvisited hy)).2
        exact Or.inr (Or.inr (by rw [if_pos rfl]; omega))
      · exact Or.inl hy
    · simp [hyx]
  reached y hy := by
    rcases Multiset.mem_cons.1 hy with rfl | hy
    · exact hx
    · exact h.reached y hy

/-- The walk visits a fresh inner node, which it finds if it has no successor. -/
lemma Explored.visit_cons {seen : List α} (h : Explored inner next start visited found entered)
    (hx : Reached inner next start x) (hinner : inner x) (hfresh : x ∉ visited)
    (hseen : seen.Perm (x :: visited))
    (hfound : ∀ y, y ∈ found' ↔ y = x ∧ next x = [] ∨ y ∈ found) :
    Explored inner next start seen found' (x ::ₘ entered) where
  nodup := hseen.nodup_iff.2 (List.nodup_cons.2 ⟨hfresh, h.nodup⟩)
  mem_visited y := by
    rw [hseen.mem_iff, List.mem_cons, h.mem_visited, Multiset.mem_cons]
    constructor
    · rintro (rfl | hy)
      · exact ⟨hinner, Or.inl rfl⟩
      · exact ⟨hy.1, Or.inr hy.2⟩
    · rintro ⟨hy, hor⟩
      exact hor.imp_right fun hmem => ⟨hy, hmem⟩
  mem_found y := by
    have hnot : x ∉ entered := fun hmem => hfresh ((h.mem_visited x).2 ⟨hinner, hmem⟩)
    rw [hfound, h.mem_found, Multiset.mem_cons, Multiset.count_cons]
    by_cases hyx : y = x
    · subst hyx
      simp [hnot, hinner]
    · simp [hyx]
  reached y hy := by
    rcases Multiset.mem_cons.1 hy with rfl | hy
    · exact hx
    · exact h.reached y hy

/-! ### Ways to enter a node -/

/-- The places of a value in a list are as many as it occurs. -/
lemma countP_range_getElem? (l : List α) (x : α) :
    (List.range l.length).countP (fun i => l[i]? = some x) = l.count x := by
  induction l using List.reverseRecOn with
  | nil => rfl
  | append_singleton l a ih =>
      rw [List.length_append, List.length_singleton, List.range_succ, List.countP_append,
        List.count_append, ← ih]
      congr 1
      · refine List.countP_congr fun i hi => ?_
        rw [List.getElem?_append_left (List.mem_range.1 hi)]
      · by_cases hax : a = x <;> simp [hax]

/-- The ways to enter a node from the visited nodes. -/
def entryList (next : α → List α) (visited : List α) (x : α) : List (α × ℕ) :=
  visited.flatMap fun v =>
    ((List.range (next v).length).filter fun i => (next v)[i]? = some x).map fun i => (v, i)

lemma mem_entryList {p : α × ℕ} :
    p ∈ entryList next visited x ↔ p.1 ∈ visited ∧ (next p.1)[p.2]? = some x := by
  obtain ⟨v, i⟩ := p
  simp only [entryList, List.mem_flatMap, List.mem_map, List.mem_filter, List.mem_range,
    decide_eq_true_eq, Prod.mk.injEq]
  constructor
  · rintro ⟨v', hv', i', ⟨-, hi'⟩, rfl, rfl⟩
    exact ⟨hv', hi'⟩
  · rintro ⟨hv, hi⟩
    exact ⟨v, hv, i, ⟨(List.getElem?_eq_some_iff.1 hi).1, hi⟩, rfl, rfl⟩

lemma nodup_entryList (h : visited.Nodup) : (entryList next visited x).Nodup := by
  rw [entryList, List.nodup_flatMap]
  refine ⟨fun v _ => (List.nodup_range.filter _).map fun i j hij => congrArg Prod.snd hij, ?_⟩
  refine h.imp fun hne p hp hp' => ?_
  obtain ⟨i, -, rfl⟩ := List.mem_map.1 hp
  obtain ⟨j, -, hj⟩ := List.mem_map.1 hp'
  exact hne (congrArg Prod.fst hj).symm

lemma length_entryList :
    (entryList next visited x).length = (visited.flatMap next).count x := by
  rw [entryList, List.length_flatMap, List.count_flatMap]
  congr 1
  refine List.map_congr_left fun v _ => ?_
  rw [List.length_map, ← List.countP_eq_length_filter, countP_range_getElem?, Function.comp_apply]

/-- A list without repetitions has two entries if and only if two of them differ. -/
lemma two_le_length_iff {β : Type} {l : List β} (h : l.Nodup) :
    2 ≤ l.length ↔ {p | p ∈ l}.Nontrivial := by
  constructor
  · intro hl
    refine ⟨l[0], List.getElem_mem _, l[1], List.getElem_mem _, fun heq => ?_⟩
    exact absurd (h.getElem_inj_iff.1 heq) (by decide)
  · rintro ⟨a, ha, b, hb, hab⟩
    match l, ha, hb with
    | [c], ha, hb =>
        rw [Set.mem_ofPred_eq, List.mem_singleton] at ha hb
        exact absurd (ha.trans hb.symm) hab
    | _ :: _ :: _, _, _ => simp

/-! ### The whole walk -/

namespace Explored

variable (h : Explored inner next start visited found entered)
  (hentered : Extends next [] 0 {start} visited entered)

include h hentered

lemma entered_eq : entered = start ::ₘ (visited.flatMap next : Multiset α) := by
  obtain ⟨fresh, hvisited, rfl⟩ := hentered
  rw [Multiset.coe_nil, add_zero] at hvisited
  rw [← hvisited, Multiset.coe_bind, Multiset.singleton_add, add_zero]

lemma mem_entered_iff : x ∈ entered ↔ Reached inner next start x := by
  refine ⟨h.reached x, fun hx => ?_⟩
  rw [h.entered_eq hentered]
  induction hx with
  | refl => exact Multiset.mem_cons_self _ _
  | @tail a b _ hab ih =>
      rw [← h.entered_eq hentered] at ih
      refine Multiset.mem_cons_of_mem ?_
      rw [Multiset.mem_coe, List.mem_flatMap]
      exact ⟨a, (h.mem_visited a).2 ⟨hab.1, ih⟩, hab.2⟩

lemma mem_visited_iff : x ∈ visited ↔ Reached inner next start x ∧ inner x := by
  rw [h.mem_visited, h.mem_entered_iff hentered, and_comm]

lemma entries_eq : entries inner next start x = {p | p ∈ entryList next visited x} := by
  ext p
  rw [Set.mem_ofPred_eq, mem_entryList, h.mem_visited_iff hentered]
  rfl

lemma two_le_count_iff : 2 ≤ entered.count x ↔ EnteredAgain inner next start x := by
  have hlength : (entryList next visited x).length = (visited.flatMap next).count x :=
    length_entryList
  rw [EnteredAgain, h.entries_eq hentered, ← two_le_length_iff (nodup_entryList h.nodup),
    h.entered_eq hentered, Multiset.count_cons, Multiset.coe_count, ← hlength]
  have hnonempty : {p | p ∈ entryList next visited x}.Nonempty ↔
      0 < (entryList next visited x).length := List.length_pos_iff_exists_mem.symm
  rw [hnonempty]
  by_cases hx : x = start
  · simp only [hx, if_true, true_and]
    omega
  · simp [hx]

/-- What the walk finds. -/
lemma mem_found_iff : x ∈ found ↔ Reached inner next start x ∧
    (¬ inner x ∨ next x = [] ∨ EnteredAgain inner next start x) := by
  rw [h.mem_found, h.mem_entered_iff hentered, h.two_le_count_iff hentered]

end Explored

end Lib
