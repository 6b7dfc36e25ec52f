import Mathlib.Tactic
import Mathlib.Data.List.Sort

/-!
# Histories

A history is a list of entries in the order of their times; several entries may have the
same time.  `lastWhere p` is the last entry that satisfies `p`.  For the entries up to a
time and the entries before a time, `IsLastGroup` locates it: the entries of the last
time that is not behind `t` stand together, with the earlier ones before them and those
behind `t` after them.

`dedup f` drops every entry that has the value of its predecessor under `f`.  What can be
observed through `f` does not change: `lastWhere_dedup`.
-/

namespace Lib.History

variable {α β : Type} {time : α → ℕ}

/-- The last entry that satisfies a condition. -/
def lastWhere (p : α → Bool) (l : List α) : Option α := (l.filter p).getLast?

/-- The entries of the last time `g` up to `t`, between the earlier entries and those
behind `t`. -/
structure IsLastGroup (time : α → ℕ) (t : ℕ) (l pre grp post : List α) (g : ℕ) : Prop where
  eq : l = pre ++ (grp ++ post)
  nonempty : grp ≠ []
  le : g ≤ t
  before : ∀ a ∈ pre, time a < g
  same : ∀ a ∈ grp, time a = g
  after : ∀ a ∈ post, t < time a

namespace IsLastGroup

variable {t g : ℕ} {l pre grp post : List α}

lemma filter_le (h : IsLastGroup time t l pre grp post g) :
    l.filter (fun a => time a ≤ t) = pre ++ grp := by
  have hpre : pre.filter (fun a => time a ≤ t) = pre :=
    List.filter_eq_self.2 fun a ha => by simpa using (h.before a ha).le.trans h.le
  have hgrp : grp.filter (fun a => time a ≤ t) = grp :=
    List.filter_eq_self.2 fun a ha => by simpa [h.same a ha] using h.le
  have hpost : post.filter (fun a => time a ≤ t) = [] :=
    List.filter_eq_nil_iff.2 fun a ha => by simpa using h.after a ha
  rw [h.eq, List.filter_append, List.filter_append, hpre, hgrp, hpost, List.append_nil]

lemma filter_lt (h : IsLastGroup time t l pre grp post g) :
    l.filter (fun a => time a < t) = if g = t then pre else pre ++ grp := by
  have hpre : pre.filter (fun a => time a < t) = pre :=
    List.filter_eq_self.2 fun a ha => by simpa using (h.before a ha).trans_le h.le
  have hpost : post.filter (fun a => time a < t) = [] :=
    List.filter_eq_nil_iff.2 fun a ha => by simpa using (h.after a ha).le
  rw [h.eq, List.filter_append, List.filter_append, hpre, hpost, List.append_nil]
  split_ifs with hg
  · have hgrp : grp.filter (fun a => time a < t) = [] :=
      List.filter_eq_nil_iff.2 fun a ha => by simp [h.same a ha, hg]
    rw [hgrp, List.append_nil]
  · have hgrp : grp.filter (fun a => time a < t) = grp :=
      List.filter_eq_self.2 fun a ha => by simpa [h.same a ha] using lt_of_le_of_ne h.le hg
    rw [hgrp]

/-- The entries of the time of the group are the group. -/
lemma filter_eq (h : IsLastGroup time t l pre grp post g) :
    l.filter (fun a => time a = g) = grp := by
  have hpre : pre.filter (fun a => time a = g) = [] :=
    List.filter_eq_nil_iff.2 fun a ha => by simpa using (h.before a ha).ne
  have hgrp : grp.filter (fun a => time a = g) = grp :=
    List.filter_eq_self.2 fun a ha => by simpa using h.same a ha
  have hpost : post.filter (fun a => time a = g) = [] :=
    List.filter_eq_nil_iff.2 fun a ha => by
      have := h.after a ha
      have := h.le
      simp only [decide_eq_true_eq]
      omega
  rw [h.eq, List.filter_append, List.filter_append, hpre, hgrp, hpost, List.append_nil,
    List.nil_append]

/-- The last entry up to `t` is the last one of the group. -/
lemma lastWhere_le (h : IsLastGroup time t l pre grp post g) :
    lastWhere (fun a => time a ≤ t) l = grp.getLast? := by
  rw [lastWhere, h.filter_le, List.getLast?_append_of_ne_nil _ h.nonempty]

/-- The last entry before `t` is in the group only if the group is before `t`. -/
lemma lastWhere_lt (h : IsLastGroup time t l pre grp post g) :
    lastWhere (fun a => time a < t) l = if g = t then pre.getLast? else grp.getLast? := by
  rw [lastWhere, h.filter_lt]
  split_ifs
  · rfl
  · rw [List.getLast?_append_of_ne_nil _ h.nonempty]

/-- The size of the group. -/
lemma countP_eq (h : IsLastGroup time t l pre grp post g) :
    l.countP (fun a => time a = g) = grp.length := by
  rw [List.countP_eq_length_filter, h.filter_eq]

end IsLastGroup

/-- In a sorted history no entry with the property is behind the last one. -/
lemma time_le_of_lastWhere {p : α → Bool} {l : List α}
    (hs : l.Pairwise fun a b => time a ≤ time b) {last : α} (hlast : lastWhere p l = some last)
    {a : α} (ha : a ∈ l) (hpa : p a = true) : time a ≤ time last := by
  have hs' := hs.filter p
  obtain ⟨init, hinit⟩ := List.getLast?_eq_some_iff.1 hlast
  rw [hinit, List.pairwise_append] at hs'
  have ha' : a ∈ init ++ [last] := hinit ▸ List.mem_filter.2 ⟨ha, hpa⟩
  rcases List.mem_append.1 ha' with ha' | ha'
  · exact hs'.2.2 a ha' last (by simp)
  · rw [List.mem_singleton.1 ha']

lemma le_of_lastWhere {t : ℕ} {l : List α} (hs : l.Pairwise fun a b => time a ≤ time b) {last : α}
    (hlast : lastWhere (fun a => time a ≤ t) l = some last) {a : α} (ha : a ∈ l)
    (hat : time a ≤ t) : time a ≤ time last :=
  time_le_of_lastWhere hs hlast ha (decide_eq_true hat)

/-- The last entry up to `t` is the one with the largest time, if there is only one of that time. -/
lemma lastWhere_eq_of_max {t : ℕ} {l : List α} (hs : l.Pairwise fun a b => time a ≤ time b) {a : α}
    (ha : a ∈ l) (hat : time a ≤ t) (hmax : ∀ b ∈ l, time b ≤ t → time b ≤ time a)
    (hsame : ∀ b ∈ l, time b = time a → b = a) : lastWhere (fun b => time b ≤ t) l = some a := by
  cases hlast : lastWhere (fun b => time b ≤ t) l with
  | none =>
      rw [lastWhere, List.getLast?_eq_none_iff, List.filter_eq_nil_iff] at hlast
      exact absurd hat (by simpa using hlast a ha)
  | some b =>
      obtain ⟨hb, hbt⟩ := List.mem_filter.1 (List.mem_of_getLast? hlast)
      have htime := le_antisymm (hmax b hb (by simpa using hbt)) (le_of_lastWhere hs hlast ha hat)
      rw [hsame b hb htime]

/-- In a sorted list, what comes right before an entry is the last entry with an earlier time, if
it has an earlier time. -/
lemma lastWhere_lt_eq_getLast? {l before after : List α} {a : α}
    (hs : l.Pairwise fun a b => time a ≤ time b) (heq : l = before ++ a :: after)
    (hlast : ∀ b ∈ before.getLast?, time b < time a) :
    lastWhere (fun c => time c < time a) l = before.getLast? := by
  subst heq
  obtain ⟨hbefore, hafter, -⟩ := List.pairwise_append.1 hs
  have hearlier : ∀ c ∈ before, time c < time a := by
    intro c hc
    have hne : before ≠ [] := List.ne_nil_of_mem hc
    exact (hbefore.rel_getLast hc).trans_lt (hlast _ (List.getLast?_eq_some_getLast hne))
  have hlater : ∀ c ∈ a :: after, ¬ time c < time a := by
    simpa using (List.pairwise_cons.1 hafter).1
  rw [lastWhere, List.filter_append, List.filter_eq_self.2 (by simpa using hearlier),
    List.filter_eq_nil_iff.2 (by simpa using hlater), List.append_nil]

/-- A sorted history with an entry up to `t` has a last group. -/
lemma exists_isLastGroup {t : ℕ} {l : List α} (hs : l.Pairwise fun a b => time a ≤ time b)
    {last : α} (hlast : lastWhere (fun a => time a ≤ t) l = some last) :
    IsLastGroup time t l (l.filter fun a => time a < time last)
      (l.filter fun a => time a = time last) (l.filter fun a => t < time a) (time last) := by
  have hmem : last ∈ l.filter fun a => time a ≤ t := List.mem_of_getLast? hlast
  have hle : time last ≤ t := by simpa using (List.mem_filter.1 hmem).2
  -- no entry lies between the last one and `t`
  have hmax : ∀ a ∈ l, time a ≤ t → time a ≤ time last := fun a ha hat =>
    le_of_lastWhere hs hlast ha hat
  refine ⟨?_, ?_, hle, ?_, ?_, ?_⟩
  · -- by induction, a sorted list is the concatenation of the three filters
    clear hlast hmem
    induction l with
    | nil => rfl
    | cons a l ih =>
        obtain ⟨ha, hs'⟩ := List.pairwise_cons.1 hs
        have ih' := ih hs' fun b hb => hmax b (List.mem_cons_of_mem _ hb)
        have hnil : ∀ (p : α → Bool), (∀ b ∈ l, p b = false) → l.filter p = [] :=
          fun p hp => List.filter_eq_nil_iff.2 fun b hb => by simp [hp b hb]
        have hstep := hmax a List.mem_cons_self
        rcases lt_trichotomy (time a) (time last) with h | h | h
        · rw [List.filter_cons_of_pos (by simpa using h), List.filter_cons_of_neg (by simpa using h.ne),
            List.filter_cons_of_neg (by simp; omega), List.cons_append, ← ih']
        · have hpre : l.filter (fun b => time b < time last) = [] :=
            hnil _ fun b hb => by have := ha b hb; simp; omega
          rw [hpre, List.nil_append] at ih'
          rw [List.filter_cons_of_neg (by simp [h]), List.filter_cons_of_pos (by simpa using h),
            List.filter_cons_of_neg (by simp; omega), hpre, List.nil_append, List.cons_append, ← ih']
        · have hpre : l.filter (fun b => time b < time last) = [] :=
            hnil _ fun b hb => by have := ha b hb; simp; omega
          have hgrp : l.filter (fun b => time b = time last) = [] :=
            hnil _ fun b hb => by have := ha b hb; simp; omega
          rw [hpre, hgrp, List.nil_append, List.nil_append] at ih'
          rw [List.filter_cons_of_neg (by simp; omega), List.filter_cons_of_neg (by simp; omega),
            List.filter_cons_of_pos (by simp; omega), hpre, hgrp, List.nil_append, List.nil_append,
            ← ih']
  · exact List.ne_nil_of_mem (List.mem_filter.2 ⟨(List.mem_filter.1 hmem).1, by simp⟩)
  · intro a ha
    simpa using (List.mem_filter.1 ha).2
  · intro a ha
    simpa using (List.mem_filter.1 ha).2
  · intro a ha
    simpa using (List.mem_filter.1 ha).2

/-! ### Dropping entries that change nothing -/

/-- Drop every entry with the value of its predecessor, `prev` being the value before the
list. -/
def dedup [DecidableEq β] (f : α → β) : Option β → List α → List α
  | _, [] => []
  | prev, a :: l => if prev = some (f a) then dedup f prev l else a :: dedup f (some (f a)) l

variable [DecidableEq β] {f : α → β}

lemma dedup_sublist (f : α → β) (prev : Option β) (l : List α) : (dedup f prev l).Sublist l := by
  induction l generalizing prev with
  | nil => exact List.Sublist.refl _
  | cons a l ih =>
      rw [dedup]
      split_ifs
      · exact (ih prev).cons a
      · exact (ih _).cons_cons a

/-- What the last entry of an initial part shows does not change. -/
lemma lastWhere_dedup {p : α → Bool} (prev : Option β) {l : List α}
    (hp : l.Pairwise fun a b => p b = true → p a = true) :
    ((lastWhere p (dedup f prev l)).map f).or prev = ((lastWhere p l).map f).or prev := by
  induction l generalizing prev with
  | nil => rfl
  | cons a l ih =>
      obtain ⟨ha, hp'⟩ := List.pairwise_cons.1 hp
      -- an entry in front of a list shows only if nothing behind it does
      have hcons : ∀ (l' : List α) (o : Option β), p a = true →
          ((lastWhere p (a :: l')).map f).or o = ((lastWhere p l').map f).or (some (f a)) := by
        intro l' o hpa
        rw [lastWhere, List.filter_cons_of_pos hpa, List.getLast?_cons, lastWhere]
        cases (l'.filter p).getLast? <;> rfl
      cases hpa : p a with
      | false =>
          -- then no entry satisfies the condition
          have hnil : ∀ l' : List α, l'.Sublist (a :: l) → lastWhere p l' = none := by
            intro l' hl'
            rw [lastWhere, List.getLast?_eq_none_iff, List.filter_eq_nil_iff]
            intro b hb hpb
            rcases List.mem_cons.1 (hl'.subset hb) with rfl | hb
            · simp [hpa] at hpb
            · simp [hpa] at ha
              exact absurd hpb (by simp [ha b hb])
          rw [hnil _ (dedup_sublist f prev (a :: l)), hnil _ (List.Sublist.refl _)]
      | true =>
          rw [hcons l prev hpa, dedup]
          split_ifs with hprev
          · rw [← hprev]
            exact ih prev hp'
          · rw [hcons _ prev hpa]
            exact ih (some (f a)) hp'

lemma lastWhere_dedup_none {p : α → Bool} {l : List α}
    (hp : l.Pairwise fun a b => p b = true → p a = true) :
    (lastWhere p (dedup f none l)).map f = (lastWhere p l).map f := by
  simpa using lastWhere_dedup (f := f) none hp

/-! ### Dropping repetitions -/

lemma mem_of_mem_dedup_id {l : List ℕ} {a : ℕ} {prev : Option ℕ} (h : a ∈ dedup id prev l) :
    a ∈ l :=
  (dedup_sublist id prev l).subset h

/-- Dropping repetitions loses nothing but the value before the list. -/
lemma mem_dedup_id_or {l : List ℕ} {a : ℕ} (prev : Option ℕ) (h : a ∈ l) :
    a ∈ dedup id prev l ∨ prev = some a := by
  induction l generalizing prev with
  | nil => simp at h
  | cons b l ih =>
      rw [dedup]
      split_ifs with hprev
      · rcases List.mem_cons.1 h with rfl | h
        · exact Or.inr hprev
        · exact ih prev h
      · left
        rcases List.mem_cons.1 h with rfl | h
        · exact List.mem_cons_self
        · rcases ih (some (id b)) h with h | h
          · exact List.mem_cons_of_mem _ h
          · exact Option.some.inj h ▸ List.mem_cons_self

/-- In an ordered list repetitions stand together. -/
lemma pairwise_dedup_id {l : List ℕ} (hl : l.Pairwise (· ≤ ·)) (prev : Option ℕ)
    (hprev : ∀ p ∈ prev, ∀ a ∈ l, p ≤ a) :
    (dedup id prev l).Pairwise (· < ·) ∧ ∀ p ∈ prev, ∀ a ∈ dedup id prev l, p < a := by
  induction l generalizing prev with
  | nil => exact ⟨List.Pairwise.nil, by simp [dedup]⟩
  | cons b l ih =>
      obtain ⟨hb, hl'⟩ := List.pairwise_cons.1 hl
      rw [dedup]
      split_ifs with hp
      · exact ih hl' prev fun p hp a ha => hprev p hp a (List.mem_cons_of_mem _ ha)
      · obtain ⟨hpair, hlt⟩ := ih hl' (some b) (by simpa using hb)
        have hlt' : ∀ a ∈ dedup id (some b) l, b < a := fun a ha => hlt b rfl a ha
        refine ⟨List.pairwise_cons.2 ⟨hlt', hpair⟩, fun p hpmem a ha => ?_⟩
        -- the value before the list differs from the first one
        have hpb : p < b := by
          refine lt_of_le_of_ne (hprev p hpmem b List.mem_cons_self) ?_
          rintro rfl
          exact hp hpmem
        rcases List.mem_cons.1 ha with rfl | ha
        · exact hpb
        · exact hpb.trans (hlt' a ha)

end Lib.History
