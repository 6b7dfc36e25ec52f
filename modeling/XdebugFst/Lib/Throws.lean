import Mathlib.Tactic

/-!
# Programs that may throw

A program without a state that may throw is a value of `Except ε α`, and one with a state of type
`σ` is a value of `StateT σ (Except ε) α`. A program that throws leaves no state behind: nothing
after it catches the exception.

`Returns m Q` says that `m` does not throw in any state and that its result satisfies `Q`. Where a
program may throw, `ReturnsOr m s Q E` says that it returns from the state `s`, or throws for the
reason `E`.
-/

namespace Lib

/-! ### Lists of partial results -/

section MapM

variable {α β : Type} {f g : α → Option β} {l : List α}

lemma mapM_congr (h : ∀ a ∈ l, f a = g a) : l.mapM f = l.mapM g := by
  induction l with
  | nil => rfl
  | cons a l ih =>
      rw [List.mapM_cons, List.mapM_cons, h a List.mem_cons_self,
        ih fun b hb => h b (List.mem_cons_of_mem a hb)]

/-- All results exist exactly if each of them does. -/
lemma isSome_mapM : (l.mapM f).isSome = true ↔ ∀ a ∈ l, (f a).isSome = true := by
  induction l with
  | nil => simp
  | cons a l ih =>
      rw [List.mapM_cons, List.forall_mem_cons, ← ih]
      cases f a with
      | none => simp
      | some b => cases l.mapM f <;> simp

/-- The results stand where their items stand. -/
lemma map_some_of_mapM {bs : List β} (h : l.mapM f = some bs) : bs.map some = l.map f := by
  induction l generalizing bs with
  | nil =>
      cases h
      rfl
  | cons a l ih =>
      rw [List.mapM_cons] at h
      obtain ⟨b, hb, h⟩ := Option.bind_eq_some_iff.1 h
      obtain ⟨rest, hrest, h⟩ := Option.bind_eq_some_iff.1 h
      cases h
      rw [List.map_cons, List.map_cons, hb, ih hrest]

end MapM

/-! ### Programs -/

/-- A sequence that comes to its end has a first part that does. -/
lemma exists_of_bind_eq_ok {ε α β : Type} {x : Except ε α} {f : α → Except ε β} {b : β}
    (h : x >>= f = .ok b) : ∃ a, x = .ok a ∧ f a = .ok b := by
  cases x with
  | ok a => exact ⟨a, rfl, h⟩
  | error e => cases h

/-- Each result of a loop that comes to its end is that of one of its items. -/
lemma exists_of_mapM_eq_ok {ε α β : Type} {f : α → Except ε β} {l : List α} {bs : List β}
    (h : l.mapM f = .ok bs) : ∀ b ∈ bs, ∃ a ∈ l, f a = .ok b := by
  induction l generalizing bs with
  | nil =>
      cases h
      simp
  | cons a l ih =>
      rw [List.mapM_cons] at h
      obtain ⟨b, hb, h⟩ := exists_of_bind_eq_ok h
      obtain ⟨rest, hrest, h⟩ := exists_of_bind_eq_ok h
      cases h
      intro c hc
      rcases List.mem_cons.1 hc with rfl | hc
      · exact ⟨a, List.mem_cons_self, hb⟩
      · obtain ⟨a', ha', hc⟩ := ih hrest c hc
        exact ⟨a', List.mem_cons_of_mem a ha', hc⟩

variable {σ ε α β : Type} {m : StateT σ (Except ε) α} {f : α → StateT σ (Except ε) β}
  {Q : α → Prop} {R : β → Prop} {E E' : Prop} {s : σ}

/-- In every state the program comes to its end, with a result that satisfies `Q`. -/
def Returns (m : StateT σ (Except ε) α) (Q : α → Prop) : Prop :=
  ∀ s, ∃ a s', m s = .ok (a, s') ∧ Q a

namespace Returns

lemma pure {a : α} (h : Q a) : Returns (Pure.pure a : StateT σ (Except ε) α) Q := by
  intro s
  exact ⟨a, s, rfl, h⟩

lemma bind (hm : Returns m Q) (hf : ∀ a, Q a → Returns (f a) R) : Returns (m >>= f) R := by
  intro s
  obtain ⟨a, s', hrun, ha⟩ := hm s
  obtain ⟨b, s'', hrun', hb⟩ := hf a ha s'
  refine ⟨b, s'', ?_, hb⟩
  show (m s >>= fun p => f p.1 p.2) = _
  rw [hrun]
  exact hrun'

/-- A program without a state that returns. -/
lemma lift {x : Except ε α} {a : α} (hx : x = .ok a) (h : Q a) :
    Returns (liftM x : StateT σ (Except ε) α) Q := by
  intro s
  subst hx
  exact ⟨a, s, rfl, h⟩

lemma modify {g : σ → σ} : Returns (modify g : StateT σ (Except ε) PUnit) fun _ => True := by
  intro s
  exact ⟨(), g s, rfl, trivial⟩

end Returns

lemma liftM_ok_bind_eq (a : α) :
    ((liftM (Except.ok a : Except ε α) : StateT σ (Except ε) α) >>= f) = f a := rfl

lemma liftM_ok_bind (a : α) (s : σ) :
    ((liftM (Except.ok a : Except ε α) : StateT σ (Except ε) α) >>= f) s = f a s := rfl

lemma liftM_error_bind (e : ε) (s : σ) :
    ((liftM (Except.error e : Except ε α) : StateT σ (Except ε) α) >>= f) s = .error e := rfl

lemma bind_of_ok {a : α} {s' : σ} (h : m s = .ok (a, s')) : (m >>= f) s = f a s' := by
  show (m s >>= fun p => f p.1 p.2) = _
  rw [h]
  rfl

lemma bind_of_error {e : ε} (h : m s = .error e) : (m >>= f) s = .error e := by
  show (m s >>= fun p => f p.1 p.2) = _
  rw [h]
  rfl

/-- The parts of a sequence that comes to its end. -/
lemma exists_of_bind {r : β × σ} (h : (m >>= f) s = .ok r) :
    ∃ a s', m s = .ok (a, s') ∧ f a s' = .ok r := by
  obtain ⟨⟨a, s'⟩, hm, hf⟩ := exists_of_bind_eq_ok (show (m s >>= fun p => f p.1 p.2) = .ok r from h)
  exact ⟨a, s', hm, hf⟩

lemma eq_ok_of_liftM {x : Except ε α} {a : α} {s' : σ}
    (h : (liftM x : StateT σ (Except ε) α) s = .ok (a, s')) : x = .ok a := by
  cases x with
  | ok b =>
      cases h
      rfl
  | error e => cases h

/-- From the state the program comes to its end, with a result that satisfies `Q`, or it throws, and
that for the reason `E`. -/
def ReturnsOr (m : StateT σ (Except ε) α) (s : σ) (Q : α → Prop) (E : Prop) : Prop :=
  (∃ a s', m s = .ok (a, s') ∧ Q a) ∨ (∃ e, m s = .error e) ∧ E

namespace ReturnsOr

lemma of_returns (h : Returns m Q) : ReturnsOr m s Q E := Or.inl (h s)

lemma mono (h : ReturnsOr m s Q E) (hE : E → E') : ReturnsOr m s Q E' := h.imp_right fun h =>
  ⟨h.1, hE h.2⟩

lemma bind (hm : ReturnsOr m s Q E)
    (hf : ∀ a s', m s = .ok (a, s') → Q a → ReturnsOr (f a) s' R E) :
    ReturnsOr (m >>= f) s R E := by
  rcases hm with ⟨a, s', hrun, ha⟩ | ⟨⟨e, hrun⟩, hE⟩
  · rw [ReturnsOr, bind_of_ok hrun]
    exact hf a s' hrun ha
  · exact Or.inr ⟨⟨e, bind_of_error hrun⟩, hE⟩

/-- A step without a state that returns. -/
lemma lift_bind {x : Except ε α} {a : α} (hx : x = .ok a) (hf : ReturnsOr (f a) s R E) :
    ReturnsOr ((liftM x : StateT σ (Except ε) α) >>= f) s R E := by
  subst hx
  exact hf

end ReturnsOr

end Lib
