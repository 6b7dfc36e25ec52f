import XdebugFst.Lib.Throws

/-!
# Programs that agree

Two programs with a state that may throw agree up to a relation of their results: from every state
both throw the same, or both come to the same state with related results. A sequence of two steps
does not see a difference that its second step does not see (`Agree.bind_eq`).
-/

namespace Lib

variable {σ ε α β : Type} {R : α → α → Prop} {m m' : StateT σ (Except ε) α}

/-- Both programs throw the same or come to the same state with related results. -/
def Agree (R : α → α → Prop) (m m' : StateT σ (Except ε) α) : Prop :=
  ∀ s, (∃ e, m s = .error e ∧ m' s = .error e) ∨
    ∃ a a' s', m s = .ok (a, s') ∧ m' s = .ok (a', s') ∧ R a a'

namespace Agree

lemma of_eq (hR : ∀ a, R a a) (h : m = m') : Agree R m m' := by
  subst h
  intro s
  cases hrun : m s with
  | error e => exact Or.inl ⟨e, rfl, rfl⟩
  | ok r => exact Or.inr ⟨r.1, r.1, r.2, rfl, rfl, hR r.1⟩

lemma pure {a a' : α} (h : R a a') :
    Agree R (Pure.pure a : StateT σ (Except ε) α) (Pure.pure a') :=
  fun s => Or.inr ⟨a, a', s, rfl, rfl, h⟩

/-- A step that does not see the difference. -/
lemma bind_eq {f f' : α → StateT σ (Except ε) β} (h : Agree R m m')
    (hf : ∀ a a', R a a' → f a = f' a') : m >>= f = m' >>= f' := by
  funext s
  show (m s >>= fun p => f p.1 p.2) = (m' s >>= fun p => f' p.1 p.2)
  rcases h s with ⟨e, hm, hm'⟩ | ⟨a, a', s', hm, hm', hR⟩
  · rw [hm, hm']
    rfl
  · rw [hm, hm']
    exact congrFun (hf a a' hR) s'

/-- The same first step, and second steps that agree. -/
lemma bind {x : StateT σ (Except ε) β} {f f' : β → StateT σ (Except ε) α}
    (h : ∀ b, Agree R (f b) (f' b)) : Agree R (x >>= f) (x >>= f') := by
  intro s
  show (∃ e, (x s >>= fun p => f p.1 p.2) = _ ∧ (x s >>= fun p => f' p.1 p.2) = _) ∨
    ∃ a a' s', (x s >>= fun p => f p.1 p.2) = _ ∧ (x s >>= fun p => f' p.1 p.2) = _ ∧ R a a'
  cases x s with
  | error e => exact Or.inl ⟨e, rfl, rfl⟩
  | ok r => exact h r.1 r.2

end Agree

end Lib
