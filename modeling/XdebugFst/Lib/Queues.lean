import XdebugFst.Lib.OrderedMap

/-!
# Queues by key

A map of queues: `push` appends to the queue of a key, `pop` removes its first element.
An empty queue and a missing one are not distinguished by `get`.  Nothing is lost: the
elements of all queues together, `flat`, change only by what is pushed or popped.

`serve` pops once for every key of a list of requests.  The request of rank `r` among
those of its key gets the element at position `r` of the queue of that key.
-/

namespace Lib

/-- First-in first-out queues by key. -/
abbrev Queues (κ α : Type) [LinearOrder κ] := OrderedMap κ (List α)

namespace Queues

variable {κ α : Type} [LinearOrder κ]

/-- The queue of a key, empty when there is none. -/
def get (m : Queues κ α) (k : κ) : List α := (m.find? k).getD []

/-- Append to the queue of a key. -/
def push (m : Queues κ α) (k : κ) (v : α) : Queues κ α :=
  m.alter k fun q => some (q.getD [] ++ [v])

/-- Remove the first element of the queue of a key. -/
def pop (m : Queues κ α) (k : κ) : Queues κ α := m.alter k (Option.map List.tail)

/-- Replace the first element of the queue of a key. -/
def modifyFront (m : Queues κ α) (k : κ) (f : α → α) : Queues κ α :=
  m.alter k (Option.map (List.modifyHead f))

/-- The elements of all queues, in the order of the keys. -/
def flat (m : Queues κ α) : List α := m.entries.flatMap Prod.snd

@[simp] lemma get_empty (k : κ) : get (.empty : Queues κ α) k = [] := rfl

@[simp] lemma flat_empty : flat (.empty : Queues κ α) = [] := rfl

@[simp] lemma get_push_self (m : Queues κ α) (k : κ) (v : α) :
    get (push m k v) k = get m k ++ [v] := by
  simp [get, push, OrderedMap.find?_alter_self]

lemma get_push_of_ne (m : Queues κ α) {k k' : κ} (h : k' ≠ k) (v : α) :
    get (push m k v) k' = get m k' := by
  simp [get, push, OrderedMap.find?_alter_of_ne m h]

@[simp] lemma get_pop_self (m : Queues κ α) (k : κ) : get (pop m k) k = (get m k).tail := by
  cases h : m.find? k <;> simp [get, pop, OrderedMap.find?_alter_self, h]

lemma get_pop_of_ne (m : Queues κ α) {k k' : κ} (h : k' ≠ k) : get (pop m k) k' = get m k' := by
  simp [get, pop, OrderedMap.find?_alter_of_ne m h]

@[simp] lemma get_modifyFront_self (m : Queues κ α) (k : κ) (f : α → α) :
    get (modifyFront m k f) k = (get m k).modifyHead f := by
  cases h : m.find? k <;> simp [get, modifyFront, OrderedMap.find?_alter_self, h]

lemma get_modifyFront_of_ne (m : Queues κ α) {k k' : κ} (h : k' ≠ k) (f : α → α) :
    get (modifyFront m k f) k' = get m k' := by
  simp [get, modifyFront, OrderedMap.find?_alter_of_ne m h]

/-- Popping an empty queue changes nothing. -/
lemma pop_of_get_eq_nil {m : Queues κ α} {k : κ} (h : get m k = []) : pop m k = m := by
  refine OrderedMap.ext_find? fun k' => ?_
  by_cases hk : k' = k
  · subst hk
    cases hf : m.find? k' with
    | none => simp [pop, OrderedMap.find?_alter_self, hf]
    | some q =>
        obtain rfl : q = [] := by simpa [get, hf] using h
        simp [pop, OrderedMap.find?_alter_self, hf]
  · simp only [pop, OrderedMap.find?_alter_of_ne _ hk]

lemma mem_flat_iff (m : Queues κ α) (v : α) : v ∈ flat m ↔ ∃ k, v ∈ get m k := by
  simp only [flat, List.mem_flatMap, Prod.exists, OrderedMap.mem_entries_iff, get]
  constructor
  · rintro ⟨k, q, hq, hv⟩
    exact ⟨k, by rwa [hq]⟩
  · rintro ⟨k, hv⟩
    cases hq : m.find? k with
    | none => simp [hq] at hv
    | some q => exact ⟨k, q, hq, by simpa [hq] using hv⟩

/-- The elements of one queue and those of the others. -/
lemma flat_perm (m : Queues κ α) (k : κ) :
    (flat m).Perm (get m k ++ (m.without k).flatMap Prod.snd) := by
  have h := (m.perm_find?_without k).flatMap_right Prod.snd
  cases hk : m.find? k <;> simpa [get, flat, hk] using h

lemma flat_alter_perm (m : Queues κ α) (k : κ) (f : Option (List α) → Option (List α)) :
    (flat (m.alter k f)).Perm ((f (m.find? k)).getD [] ++ (m.without k).flatMap Prod.snd) := by
  have h := (m.alter_perm k f).flatMap_right Prod.snd
  cases hk : f (m.find? k) <;> simpa [flat, hk] using h

lemma flat_push_perm (m : Queues κ α) (k : κ) (v : α) :
    (flat (push m k v)).Perm (v :: flat m) := by
  refine (flat_alter_perm m k _).trans ?_
  rw [Option.getD_some]
  refine (List.Perm.append_right _ (List.perm_append_singleton v _)).trans ?_
  exact ((flat_perm m k).symm).cons v

/-- A queue with a first element, split into it and the rest. -/
lemma flat_pop_perm (m : Queues κ α) {k : κ} {v : α} {rest : List α}
    (h : get m k = v :: rest) : (flat m).Perm (v :: flat (pop m k)) := by
  have hpop : (flat (pop m k)).Perm (rest ++ (m.without k).flatMap Prod.snd) := by
    refine (flat_alter_perm m k _).trans (List.Perm.append_right _ (List.Perm.of_eq ?_))
    cases hk : m.find? k with
    | none => simp [get, hk] at h
    | some q =>
        obtain rfl : q = v :: rest := by simpa [get, hk] using h
        rfl
  refine (flat_perm m k).trans ?_
  rw [h, List.cons_append]
  exact hpop.symm.cons v

/-- Replacing the first element of a queue. -/
lemma flat_modifyFront_perm (m : Queues κ α) {k : κ} {v : α} {rest : List α} (f : α → α)
    (h : get m k = v :: rest) :
    (flat (modifyFront m k f)).Perm (f v :: flat (pop m k)) := by
  have hget : get (modifyFront m k f) k = f v :: rest := by simp [h]
  refine (flat_pop_perm _ hget).trans (List.Perm.cons _ (List.Perm.of_eq ?_))
  congr 1
  refine OrderedMap.ext_find? fun k' => ?_
  by_cases hk : k' = k
  · subst hk
    cases hf : m.find? k' with
    | none => simp [get, hf] at h
    | some q => simp [pop, modifyFront, OrderedMap.find?_alter_self, hf]
  · simp only [pop, modifyFront, OrderedMap.find?_alter_of_ne _ hk]

/-! ### Serving a list of requests -/

/-- Pop once for every request; a request on an empty queue gets nothing. -/
def serve (m : Queues κ α) : List κ → List (Option α) × Queues κ α
  | [] => ([], m)
  | k :: ks =>
      let rest := serve (pop m k) ks
      ((get m k).head? :: rest.1, rest.2)

/-- The request of rank `r` of its key gets the element at position `r`. -/
lemma serve_getElem? (m : Queues κ α) (ks : List κ) {p : ℕ} {k : κ} (h : ks[p]? = some k) :
    (serve m ks).1[p]? = some (get m k)[(ks.take p).count k]? := by
  induction ks generalizing m p with
  | nil => simp at h
  | cons k' ks ih =>
      cases p with
      | zero =>
          obtain rfl : k' = k := by simpa using h
          simp [serve, List.head?_eq_getElem?]
      | succ p =>
          have hk : ks[p]? = some k := by simpa using h
          simp only [serve, List.getElem?_cons_succ, ih (pop m k') hk, List.take_succ_cons]
          by_cases heq : k = k'
          · subst heq
            simp [List.getElem?_tail]
          · rw [get_pop_of_ne m heq, List.count_cons_of_ne (Ne.symm heq)]

lemma length_serve (m : Queues κ α) (ks : List κ) : (serve m ks).1.length = ks.length := by
  induction ks generalizing m with
  | nil => rfl
  | cons k ks ih => simp [serve, ih]

/-- Every element is served once or left in its queue. -/
lemma flat_serve_perm (m : Queues κ α) (ks : List κ) :
    (flat m).Perm ((serve m ks).1.filterMap id ++ flat (serve m ks).2) := by
  induction ks generalizing m with
  | nil => simp [serve]
  | cons k ks ih =>
      cases hq : get m k with
      | nil =>
          simpa [serve, hq, pop_of_get_eq_nil hq] using ih m
      | cons v rest =>
          simp only [serve, hq, List.head?_cons, List.filterMap_cons, id, List.cons_append]
          exact (flat_pop_perm m hq).trans ((ih (pop m k)).cons v)

/-! ### Two ends -/

/-- The front of a queue that is not empty and the end of a queue are changed independently. -/
lemma alter_push (m : Queues κ α) {k k' : κ} {f : List α → List α} (v : α)
    (hf : ∀ q, q ≠ [] → f (q ++ [v]) = f q ++ [v]) (h : k' ≠ k ∨ get m k' ≠ []) :
    (push m k v).alter k' (Option.map f) = push (m.alter k' (Option.map f)) k v := by
  refine OrderedMap.ext_find? fun x => ?_
  by_cases hk : k' = k
  · subst hk
    have hne := h.resolve_left (by simp)
    by_cases hx : x = k'
    · subst hx
      unfold get at hne
      cases hq : m.find? x with
      | none => simp [hq] at hne
      | some q =>
          have hq' : q ≠ [] := by simpa [hq] using hne
          simp [push, OrderedMap.find?_alter_self, hq, hf q hq']
    · simp [push, OrderedMap.find?_alter_of_ne _ hx]
  · by_cases hx : x = k'
    · subst hx
      simp [push, OrderedMap.find?_alter_self, OrderedMap.find?_alter_of_ne _ hk]
    · by_cases hx' : x = k
      · subst hx'
        simp [push, OrderedMap.find?_alter_self, OrderedMap.find?_alter_of_ne _ hx]
      · simp [push, OrderedMap.find?_alter_of_ne _ hx, OrderedMap.find?_alter_of_ne _ hx']

lemma pop_push (m : Queues κ α) {k k' : κ} (v : α) (h : k' ≠ k ∨ get m k' ≠ []) :
    pop (push m k v) k' = push (pop m k') k v :=
  alter_push m v (fun _ hq => List.tail_append_of_ne_nil hq) h

lemma modifyFront_push (m : Queues κ α) {k k' : κ} (f : α → α) (v : α)
    (h : k' ≠ k ∨ get m k' ≠ []) :
    modifyFront (push m k v) k' f = push (modifyFront m k' f) k v := by
  refine alter_push m v (fun q hq => ?_) h
  obtain ⟨a, q, rfl⟩ := List.exists_cons_of_ne_nil hq
  simp

lemma get_push (m : Queues κ α) (k k' : κ) (v : α) :
    get (push m k v) k' = get m k' ++ if k' = k then [v] else [] := by
  by_cases h : k' = k
  · subst h
    simp
  · simp [h, get_push_of_ne m h]

/-! ### Filling queues -/

/-- Push the elements of a list, each to the queue of its key. -/
lemma get_foldl_push (key : α → κ) (l : List α) (m : Queues κ α) (k : κ) :
    get (l.foldl (fun m v => push m (key v) v) m) k =
      get m k ++ l.filter fun v => key v = k := by
  induction l generalizing m with
  | nil => simp
  | cons v l ih =>
      rw [List.foldl_cons, ih]
      by_cases h : key v = k
      · subst h
        simp
      · rw [get_push_of_ne m (Ne.symm h), List.filter_cons_of_neg (by simpa using h)]

lemma flat_foldl_push (key : α → κ) (l : List α) (m : Queues κ α) :
    (flat (l.foldl (fun m v => push m (key v) v) m)).Perm (l ++ flat m) := by
  induction l generalizing m with
  | nil => simp
  | cons v l ih =>
      rw [List.foldl_cons]
      exact (ih _).trans (((flat_push_perm m _ v).append_left l).trans List.perm_middle)

end Queues

end Lib
