import Mathlib.Tactic
import Mathlib.Data.List.Sort

/-!
# Pieces of a window

A window of times is cut at some of its times. `pieces` walks over the cuts and lists what lies
between one and the next. A condition on the times that changes only at cuts is constant on every
piece, so that the intervals on which it holds are made of pieces.

`mem_pieces_iff` says that the walk lists the pieces, and `IsMaximalInterval.exists_isPiece` that
a maximal interval begins with a piece. It need not be that piece: the condition may hold on both
sides of a cut.
-/

namespace Lib

/-- What lies between `lo`, the cuts and `hi`. -/
def pieces : ℕ → List ℕ → ℕ → List (ℕ × ℕ)
  | lo, [], hi => [(lo, hi)]
  | lo, c :: cuts, hi => (lo, c) :: pieces c cuts hi

/-- The times from `lo` until before `hi` are a piece of the window: on both sides there is a cut
or the end of the window, and there is no cut between. -/
structure IsPiece (cut : ℕ → Prop) (first last lo hi : ℕ) : Prop where
  first_le : first ≤ lo
  lt : lo < hi
  le_last : hi ≤ last
  left : lo = first ∨ cut lo
  right : hi = last ∨ cut hi
  inside : ∀ t, lo < t → t < hi → ¬ cut t

/-- The times from `lo` until before `hi` are a longest interval of the window on which the
condition holds. -/
structure IsMaximalInterval (p : ℕ → Prop) (first last lo hi : ℕ) : Prop where
  first_le : first ≤ lo
  lt : lo < hi
  le_last : hi ≤ last
  holds : ∀ t, lo ≤ t → t < hi → p t
  left : lo = first ∨ ¬ p (lo - 1)
  right : hi = last ∨ ¬ p hi

/-- The condition changes only at cuts. -/
def ChangesAtCuts (p cut : ℕ → Prop) : Prop := ∀ t, ¬ cut (t + 1) → (p (t + 1) ↔ p t)

variable {p cut : ℕ → Prop} {first last lo hi : ℕ} {cuts : List ℕ}

/-! ### The walk -/

/-- The pieces after the first cut. -/
lemma isPiece_cons_iff {c : ℕ} (hc : first ≤ c) (hlo : c ≤ lo) :
    IsPiece (· ∈ c :: cuts) first last lo hi ↔ IsPiece (· ∈ cuts) c last lo hi := by
  constructor
  · intro h
    refine ⟨hlo, h.lt, h.le_last, ?_, ?_, fun t hlt hth hmem =>
      h.inside t hlt hth (List.mem_cons_of_mem _ hmem)⟩
    · rcases h.left with hfirst | hcut
      · exact Or.inl (by omega)
      · exact List.mem_cons.1 hcut
    · rcases h.right with hlast | hcut
      · exact Or.inl hlast
      · have := h.lt
        exact Or.inr ((List.mem_cons.1 hcut).resolve_left (by omega))
  · intro h
    refine ⟨hc.trans hlo, h.lt, h.le_last, Or.inr (List.mem_cons.2 h.left),
      h.right.imp_right (List.mem_cons_of_mem _), fun t hlt hth hmem => ?_⟩
    exact h.inside t hlt hth ((List.mem_cons.1 hmem).resolve_left (by omega))

/-- The piece before the first cut. -/
lemma isPiece_cons_iff_of_lt {c : ℕ} (hle : ∀ b ∈ cuts, c ≤ b) (hlast : c ≤ last) (hlo : lo < c) :
    IsPiece (· ∈ c :: cuts) first last lo hi ↔ lo = first ∧ hi = c := by
  have hmem : ∀ b ∈ c :: cuts, c ≤ b := by
    intro b hb
    rcases List.mem_cons.1 hb with rfl | hb
    · exact le_rfl
    · exact hle b hb
  constructor
  · intro h
    have hleft : lo = first := h.left.resolve_right fun hcut => absurd (hmem lo hcut) (by omega)
    have hhi : hi ≤ c := by
      by_contra hlt
      exact h.inside c hlo (by omega) List.mem_cons_self
    rcases h.right with hright | hcut
    · exact ⟨hleft, by omega⟩
    · exact ⟨hleft, le_antisymm hhi (hmem hi hcut)⟩
  · rintro ⟨rfl, rfl⟩
    refine ⟨le_rfl, hlo, hlast, Or.inl rfl, Or.inr List.mem_cons_self, fun t _ hth hcut => ?_⟩
    exact absurd (hmem t hcut) (by omega)

/-- The walk lists the pieces, and between two cuts at one time an empty one. -/
lemma mem_pieces_iff (hs : cuts.Pairwise (· ≤ ·)) (hfirst : ∀ c ∈ cuts, first ≤ c)
    (hlast : ∀ c ∈ cuts, c ≤ last) :
    (lo, hi) ∈ pieces first cuts last ∧ lo < hi ↔ IsPiece (· ∈ cuts) first last lo hi := by
  induction cuts generalizing first with
  | nil =>
      rw [pieces, List.mem_singleton, Prod.mk.injEq]
      constructor
      · rintro ⟨⟨rfl, rfl⟩, hlt⟩
        exact ⟨le_rfl, hlt, le_rfl, Or.inl rfl, Or.inl rfl, fun t _ _ h => by simp at h⟩
      · intro h
        exact ⟨⟨h.left.resolve_right (by simp), h.right.resolve_right (by simp)⟩, h.lt⟩
  | cons c cuts ih =>
      obtain ⟨hle, hs'⟩ := List.pairwise_cons.1 hs
      have hc := hfirst c List.mem_cons_self
      have hclast := hlast c List.mem_cons_self
      have ih' := ih hs' hle fun b hb => hlast b (List.mem_cons_of_mem _ hb)
      rw [pieces, List.mem_cons, Prod.mk.injEq]
      rcases lt_or_ge lo c with hlo | hlo
      · -- only the piece before the cut begins there
        rw [isPiece_cons_iff_of_lt hle hclast hlo]
        constructor
        · rintro ⟨hhead | hrest, hlt⟩
          · exact hhead
          · exact absurd (ih'.1 ⟨hrest, hlt⟩).first_le (by omega)
        · rintro ⟨rfl, rfl⟩
          exact ⟨Or.inl ⟨rfl, rfl⟩, hlo⟩
      · rw [isPiece_cons_iff hc hlo, ← ih']
        constructor
        · rintro ⟨⟨rfl, rfl⟩ | hrest, hlt⟩
          · omega
          · exact ⟨hrest, hlt⟩
        · rintro ⟨hrest, hlt⟩
          exact ⟨Or.inr hrest, hlt⟩

lemma le_of_mem_pieces {m : ℕ} {piece : ℕ × ℕ} (hfirst : m ≤ first) (hcuts : ∀ c ∈ cuts, m ≤ c)
    (h : piece ∈ pieces first cuts last) : m ≤ piece.1 := by
  induction cuts generalizing first with
  | nil =>
      rw [List.mem_singleton.1 h]
      exact hfirst
  | cons c cuts ih =>
      rcases List.mem_cons.1 h with rfl | h
      · exact hfirst
      · exact ih (hcuts c List.mem_cons_self) (fun b hb => hcuts b (List.mem_cons_of_mem _ hb)) h

/-- The pieces are listed in order. -/
lemma pairwise_pieces (hs : cuts.Pairwise (· ≤ ·)) :
    (pieces first cuts last).Pairwise fun a b => a.2 ≤ b.1 := by
  induction cuts generalizing first with
  | nil => exact List.pairwise_singleton _ _
  | cons c cuts ih =>
      obtain ⟨hle, hs'⟩ := List.pairwise_cons.1 hs
      refine List.pairwise_cons.2 ⟨fun b hb => ?_, ih hs'⟩
      exact le_of_mem_pieces le_rfl hle hb

/-! ### Conditions that change at cuts -/

/-- On a piece the condition is constant. -/
lemma IsPiece.iff_of_mem (h : IsPiece cut first last lo hi) (hp : ChangesAtCuts p cut) {t : ℕ}
    (hlo : lo ≤ t) (hhi : t < hi) : p t ↔ p lo := by
  induction t, hlo using Nat.le_induction with
  | base => exact Iff.rfl
  | succ t hlo ih => exact (hp t (h.inside (t + 1) (by omega) hhi)).trans (ih (by omega))

/-- Where a maximal interval begins, a piece begins that is a part of it. -/
lemma IsMaximalInterval.exists_isPiece (h : IsMaximalInterval p first last lo hi)
    (hp : ChangesAtCuts p cut) : ∃ b, b ≤ hi ∧ IsPiece cut first last lo b := by
  classical
  have hholds := h.holds lo le_rfl h.lt
  have hleft : lo = first ∨ cut lo := by
    refine h.left.imp_right fun hnot => ?_
    by_contra hcut
    cases lo with
    | zero => exact hnot hholds
    | succ t => exact hnot ((hp t hcut).1 hholds)
  have hright : hi = last ∨ cut hi := by
    refine h.right.imp_right fun hnot => ?_
    by_contra hcut
    obtain ⟨t, rfl⟩ : ∃ t, hi = t + 1 := ⟨hi - 1, by have := h.lt; omega⟩
    exact hnot ((hp t hcut).2 (h.holds t (by have := h.lt; omega) (by omega)))
  -- the piece goes to the next cut
  have hex : ∃ b, lo < b ∧ (b = last ∨ cut b) := ⟨hi, h.lt, hright⟩
  have hle : Nat.find hex ≤ hi := Nat.find_min' hex ⟨h.lt, hright⟩
  obtain ⟨hlt, hend⟩ := Nat.find_spec hex
  refine ⟨Nat.find hex, hle, h.first_le, hlt, hle.trans h.le_last, hleft, hend, ?_⟩
  intro t hlo hth hcut
  exact Nat.find_min hex hth ⟨hlo, Or.inr hcut⟩

/-! ### The entries of an interval -/

section Entries

variable {α : Type} {time : α → ℕ} {l : List α}

lemma mem_takeWhile_lt_iff (hs : l.Pairwise fun a b => time a ≤ time b) {a : α} :
    a ∈ l.takeWhile (fun a => time a < hi) ↔ a ∈ l ∧ time a < hi := by
  induction l with
  | nil => simp
  | cons b l ih =>
      obtain ⟨hle, hs'⟩ := List.pairwise_cons.1 hs
      by_cases hb : time b < hi
      · rw [List.takeWhile_cons_of_pos (by simpa using hb), List.mem_cons, List.mem_cons, ih hs']
        constructor
        · rintro (rfl | h)
          · exact ⟨Or.inl rfl, hb⟩
          · exact ⟨Or.inr h.1, h.2⟩
        · rintro ⟨rfl | h, hlt⟩
          · exact Or.inl rfl
          · exact Or.inr ⟨h, hlt⟩
      · -- after the first entry behind the interval there is none of it
        rw [List.takeWhile_cons_of_neg (by simpa using hb)]
        constructor
        · intro h
          simp at h
        · rintro ⟨h, hlt⟩
          rcases List.mem_cons.1 h with rfl | h
          · exact absurd hlt hb
          · exact absurd (hle a h) (by omega)

/-- The loop over a sorted list that begins with the first entry from `lo` on and ends before the
first one from `hi` on goes over the entries between. -/
lemma mem_takeWhile_drop_iff (hs : l.Pairwise fun a b => time a ≤ time b) {a : α} :
    a ∈ (l.drop (l.takeWhile fun a => time a < lo).length).takeWhile (fun a => time a < hi) ↔
      a ∈ l ∧ lo ≤ time a ∧ time a < hi := by
  have hsplit := @List.takeWhile_append_dropWhile _ (fun a => decide (time a < lo)) l
  have hdrop : l.drop (l.takeWhile fun a => time a < lo).length =
      l.dropWhile fun a => time a < lo := by
    have hleft := @List.drop_left _ (l.takeWhile fun a => time a < lo) (l.dropWhile fun a => time a < lo)
    rwa [hsplit] at hleft
  rw [hdrop, mem_takeWhile_lt_iff (hs.sublist (List.dropWhile_sublist _)), ← and_assoc]
  refine and_congr_left fun _ => ?_
  constructor
  · intro h
    refine ⟨(List.dropWhile_sublist _).subset h, ?_⟩
    by_contra hlt
    -- the entries that are dropped are the first ones, so that no later one is before `lo`
    cases hrest : l.dropWhile fun a => time a < lo with
    | nil => simp [hrest] at h
    | cons b rest =>
        have hb : ¬ time b < lo := by
          have := List.head?_dropWhile_not (fun a => decide (time a < lo)) l
          simpa [hrest] using this
        have hs' := hs.sublist (List.dropWhile_sublist fun a => decide (time a < lo))
        rw [hrest] at h hs'
        rcases List.mem_cons.1 h with rfl | h
        · exact hb (by omega)
        · have := (List.pairwise_cons.1 hs').1 a h
          omega
  · rintro ⟨h, hle⟩
    rw [← hsplit] at h
    refine (List.mem_append.1 h).resolve_left fun htake => ?_
    have hlt := ((mem_takeWhile_lt_iff hs).1 htake).2
    omega

end Entries

end Lib
