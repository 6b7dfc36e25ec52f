import Mathlib.Tactic
import Mathlib.Data.List.GetD
import Mathlib.Data.List.Sort
import XdebugFst.Lib.Repeats

/-!
# Maximal runs

A sequence of `n` values, some of which may be missing, is divided into its maximal runs: the
longest stretches of consecutive places with the same value. `runs` lists them in order. A run
starts at a place whose value does not repeat the one before, and `advance` goes from there to
its last place.

`mem_runs_iff` says that exactly the maximal runs are listed, `pairwise_runs` that each ends
before the next begins, and `flatMap_runs` that together they have every place with a value once.
-/

namespace Lib

variable {β : Type}

/-- A stretch of places with one value. -/
structure Run (β : Type) where
  first : ℕ
  last : ℕ
  value : β
  deriving DecidableEq, Repr

namespace Run

/-- The number of places of a run. -/
def length (r : Run β) : ℕ := r.last - r.first + 1

/-- The place `i` is in the run. -/
def Has (r : Run β) (i : ℕ) : Prop := r.first ≤ i ∧ i ≤ r.last

/-- The run is a maximal one among the first `n` places. -/
structure IsMaximal (r : Run β) (x : ℕ → Option β) (n : ℕ) : Prop where
  le : r.first ≤ r.last
  lt : r.last < n
  constant : ∀ i, r.Has i → x i = some r.value
  left : 0 < r.first → x (r.first - 1) ≠ some r.value
  right : r.last + 1 < n → x (r.last + 1) ≠ some r.value

/-- Two maximal runs that share a place are the same. -/
lemma IsMaximal.eq {r s : Run β} {x : ℕ → Option β} {n : ℕ} (hr : r.IsMaximal x n)
    (hs : s.IsMaximal x n) {i : ℕ} (hri : r.Has i) (hsi : s.Has i) : r = s := by
  have hvalue : r.value = s.value :=
    Option.some.inj ((hr.constant i hri).symm.trans (hs.constant i hsi))
  have hfirst : ∀ {r s : Run β}, r.IsMaximal x n → s.IsMaximal x n → r.Has i → s.Has i →
      r.value = s.value → r.first ≤ s.first := by
    intro r s hr hs hri hsi hvalue
    by_contra hlt
    -- the place before `r` is in `s`
    have hbefore : s.Has (r.first - 1) := ⟨by omega, by have := hri.1; have := hsi.2; omega⟩
    exact hr.left (by omega) (hvalue ▸ hs.constant _ hbefore)
  have hlast : ∀ {r s : Run β}, r.IsMaximal x n → s.IsMaximal x n → r.Has i → s.Has i →
      r.value = s.value → s.last ≤ r.last := by
    intro r s hr hs hri hsi hvalue
    by_contra hlt
    have hafter : s.Has (r.last + 1) := ⟨by have := hsi.1; have := hri.2; omega, by omega⟩
    exact hr.right (by have := hs.lt; omega) (hvalue ▸ hs.constant _ hafter)
  cases r
  cases s
  simp only [Run.mk.injEq]
  exact ⟨le_antisymm (hfirst hr hs hri hsi hvalue) (hfirst hs hr hsi hri hvalue.symm),
    le_antisymm (hlast hs hr hsi hri hvalue.symm) (hlast hr hs hri hsi hvalue), hvalue⟩

end Run

/-! ### The end of a run -/

/-- Go on from `pos`, at most `left` places, as long as the next place has the property. -/
def advance (p : ℕ → Bool) : ℕ → ℕ → ℕ
  | 0, pos => pos
  | left + 1, pos => if p (pos + 1) then advance p left (pos + 1) else pos

lemma advance_spec (p : ℕ → Bool) (left pos : ℕ) :
    pos ≤ advance p left pos ∧ advance p left pos ≤ pos + left ∧
      (∀ i, pos < i → i ≤ advance p left pos → p i = true) ∧
      (advance p left pos < pos + left → p (advance p left pos + 1) = false) := by
  induction left generalizing pos with
  | zero =>
      refine ⟨le_rfl, le_rfl, fun i hlt hle => ?_, fun hlt => ?_⟩
      · exact absurd (hlt.trans_le hle) (lt_irrefl _)
      · exact absurd hlt (lt_irrefl _)
  | succ left ih =>
      rw [advance]
      split_ifs with hp
      · obtain ⟨hle, hbound, hrun, hstop⟩ := ih (pos + 1)
        refine ⟨by omega, by omega, fun i hlt hi => ?_, fun hlt => hstop (by omega)⟩
        rcases Nat.eq_or_lt_of_le (Nat.succ_le_of_lt hlt) with rfl | hlt
        · exact hp
        · exact hrun i hlt hi
      · refine ⟨le_rfl, by omega, fun i hlt hle => ?_, fun _ => by simpa using hp⟩
        exact absurd (hlt.trans_le hle) (lt_irrefl _)

variable [DecidableEq β]

/-- The last place of the run of `b` that starts at `i`. -/
def runEnd (x : ℕ → Option β) (n i : ℕ) (b : β) : ℕ :=
  advance (fun j => x j = some b) (n - 1 - i) i

/-- The maximal runs among the first `n` places, in order. -/
def runs (x : ℕ → Option β) (n : ℕ) : List (Run β) :=
  (List.range n).filterMap fun i =>
    (firstAt x i).map fun b => { first := i, last := runEnd x n i b, value := b }

lemma firstAt_eq_some_iff {x : ℕ → Option β} {i : ℕ} {b : β} :
    firstAt x i = some b ↔ x i = some b ∧ (0 < i → x (i - 1) ≠ some b) := by
  constructor
  · intro h
    have hx := firstAt_eq_some h
    refine ⟨hx, fun hpos hprev => ?_⟩
    rw [(firstAt_eq_none hx).2 ⟨hpos, hprev⟩] at h
    cases h
  · rintro ⟨hx, hprev⟩
    rw [firstAt, if_neg, hx]
    rintro ⟨hpos, hsame⟩
    exact hprev hpos (hsame.trans hx)

/-- The run that starts at a place is a maximal one. -/
lemma isMaximal_of_firstAt {x : ℕ → Option β} {n i : ℕ} {b : β} (hi : i < n)
    (h : firstAt x i = some b) :
    ({ first := i, last := runEnd x n i b, value := b } : Run β).IsMaximal x n := by
  obtain ⟨hx, hprev⟩ := firstAt_eq_some_iff.1 h
  obtain ⟨hle, hbound, hrun, hstop⟩ := advance_spec (fun j => x j = some b) (n - 1 - i) i
  refine ⟨hle, ?_, ?_, hprev, ?_⟩
  · show runEnd x n i b < n
    rw [runEnd]
    omega
  · rintro j ⟨hij, hj⟩
    rcases Nat.eq_or_lt_of_le hij with rfl | hlt
    · exact hx
    · exact of_decide_eq_true (hrun j hlt hj)
  · intro hlt
    have hlt' : runEnd x n i b + 1 < n := hlt
    rw [runEnd] at hlt'
    exact of_decide_eq_false (hstop (by omega))

/-- Exactly the maximal runs are listed. -/
lemma mem_runs_iff {x : ℕ → Option β} {n : ℕ} {r : Run β} :
    r ∈ runs x n ↔ r.IsMaximal x n := by
  rw [runs, List.mem_filterMap]
  constructor
  · rintro ⟨i, hi, h⟩
    obtain ⟨b, hfirst, rfl⟩ := Option.map_eq_some_iff.1 h
    exact isMaximal_of_firstAt (List.mem_range.1 hi) hfirst
  · intro hr
    have hlt : r.first < n := hr.le.trans_lt hr.lt
    have hfirst : firstAt x r.first = some r.value :=
      firstAt_eq_some_iff.2 ⟨hr.constant _ ⟨le_rfl, hr.le⟩, hr.left⟩
    refine ⟨r.first, List.mem_range.2 hlt, Option.map_eq_some_iff.2 ⟨r.value, hfirst, ?_⟩⟩
    have hmax := isMaximal_of_firstAt hlt hfirst
    exact hmax.eq hr ⟨le_rfl, hmax.le⟩ ⟨le_rfl, hr.le⟩

/-- Each run ends before the next one begins. -/
lemma pairwise_runs (x : ℕ → Option β) (n : ℕ) :
    (runs x n).Pairwise fun r s => r.last < s.first := by
  have hfirst : (runs x n).Pairwise fun r s => r.first < s.first := by
    rw [runs, List.pairwise_filterMap]
    refine List.pairwise_lt_range.imp fun hlt r hr s hs => ?_
    obtain ⟨b, -, rfl⟩ := Option.map_eq_some_iff.1 hr
    obtain ⟨c, -, rfl⟩ := Option.map_eq_some_iff.1 hs
    exact hlt
  refine List.Pairwise.imp_of_mem (fun {r s} hr hs hlt => ?_) hfirst
  by_contra hle
  -- the run `r` would reach the first place of `s`
  have hr' := mem_runs_iff.1 hr
  have hs' := mem_runs_iff.1 hs
  have hsame := hr'.eq hs' (i := s.first) ⟨hlt.le, not_lt.1 hle⟩ ⟨le_rfl, hs'.le⟩
  rw [hsame] at hlt
  exact absurd hlt (lt_irrefl _)

/-- Every place with a value is in a maximal run. -/
lemma exists_mem_runs {x : ℕ → Option β} {n i : ℕ} {b : β} (hi : i < n) (hx : x i = some b) :
    ∃ r ∈ runs x n, r.Has i ∧ r.value = b := by
  -- go back to the place where the run starts
  have hstart : ∃ j ≤ i, firstAt x j = some b ∧ ∀ k, j ≤ k → k ≤ i → x k = some b := by
    clear hi
    induction i with
    | zero =>
        refine ⟨0, le_rfl, firstAt_eq_some_iff.2 ⟨hx, fun h => absurd h (lt_irrefl 0)⟩, ?_⟩
        intro k _ hk
        rw [Nat.le_zero.1 hk, hx]
    | succ i ih =>
        by_cases hprev : x i = some b
        · obtain ⟨j, hj, hfirst, hrun⟩ := ih hprev
          refine ⟨j, by omega, hfirst, fun k hjk hk => ?_⟩
          rcases Nat.eq_or_lt_of_le hk with rfl | hk
          · exact hx
          · exact hrun k hjk (by omega)
        · refine ⟨i + 1, le_rfl, firstAt_eq_some_iff.2 ⟨hx, fun _ => hprev⟩, fun k hjk hk => ?_⟩
          rw [le_antisymm hk hjk, hx]
  obtain ⟨j, hj, hfirst, hrun⟩ := hstart
  have hmax := isMaximal_of_firstAt (n := n) (by omega) hfirst
  refine ⟨_, mem_runs_iff.2 hmax, ⟨hj, ?_⟩, rfl⟩
  by_contra hlt
  have hend : runEnd x n j b < i := not_le.1 hlt
  exact hmax.right (Nat.lt_of_le_of_lt hend hi) (hrun _ (hmax.le.trans (Nat.le_succ _)) hend)

/-- The places of the runs are those with a value. -/
lemma flatMap_runs (x : ℕ → Option β) (n : ℕ) :
    (runs x n).flatMap (fun r => List.range' r.first r.length) =
      (List.range n).filter fun i => (x i).isSome := by
  refine List.Perm.eq_of_pairwise
    (fun a b _ _ (hab : a < b) (hba : b < a) => absurd hab (lt_asymm hba)) ?_ ?_ ?_
  · rw [List.pairwise_flatMap]
    refine ⟨fun r _ => List.pairwise_lt_range', ?_⟩
    refine List.Pairwise.imp_of_mem (fun {r s} hr _ hlt i hi j hj => ?_) (pairwise_runs x n)
    have hle := (mem_runs_iff.1 hr).le
    rw [List.mem_range'_1, Run.length] at hi hj
    omega
  · exact List.pairwise_lt_range.filter _
  · refine (List.perm_ext_iff_of_nodup ?_ ?_).2 fun i => ?_
    · rw [List.nodup_flatMap]
      refine ⟨fun r _ => List.nodup_range', ?_⟩
      refine List.Pairwise.imp_of_mem (fun {r s} hr _ hlt i hi hj => ?_) (pairwise_runs x n)
      have hle := (mem_runs_iff.1 hr).le
      rw [List.mem_range'_1, Run.length] at hi hj
      omega
    · exact List.nodup_range.filter _
    · rw [List.mem_flatMap, List.mem_filter, List.mem_range]
      constructor
      · rintro ⟨r, hr, hi⟩
        have hmax := mem_runs_iff.1 hr
        have hle := hmax.le
        have hlt := hmax.lt
        rw [List.mem_range'_1, Run.length] at hi
        rw [hmax.constant i ⟨hi.1, by omega⟩]
        exact ⟨by omega, rfl⟩
      · rintro ⟨hi, hx⟩
        obtain ⟨b, hb⟩ := Option.isSome_iff_exists.1 hx
        obtain ⟨r, hr, hhas, -⟩ := exists_mem_runs hi hb
        have hle := (mem_runs_iff.1 hr).le
        refine ⟨r, hr, ?_⟩
        rw [List.mem_range'_1, Run.length]
        obtain ⟨hfirst, hlast⟩ := hhas
        omega

/-- The lengths of the runs add up to the number of places with a value. -/
lemma sum_length_runs (x : ℕ → Option β) (n : ℕ) :
    ((runs x n).map Run.length).sum = (List.range n).countP fun i => (x i).isSome := by
  rw [List.countP_eq_length_filter, ← flatMap_runs, List.length_flatMap]
  simp only [List.length_range']

/-- A run goes to the last place before the value ends. -/
lemma runEnd_eq {x : ℕ → Option β} {n first pos : ℕ} {b : β} (hfirst : first < pos) (hpos : pos ≤ n)
    (hrun : ∀ i, first ≤ i → i < pos → x i = some b) (hstop : pos < n → x pos ≠ some b) :
    runEnd x n first b = pos - 1 := by
  obtain ⟨hle, hbound, hin, hend⟩ := advance_spec (fun j => x j = some b) (n - 1 - first) first
  have hbelow : runEnd x n first b < pos := by
    by_contra hge
    have hge' : pos ≤ advance (fun j => x j = some b) (n - 1 - first) first := not_lt.1 hge
    exact hstop (by omega) (of_decide_eq_true (hin pos hfirst hge'))
  have habove : pos ≤ runEnd x n first b + 1 := by
    by_contra hlt
    have hlt' : advance (fun j => x j = some b) (n - 1 - first) first + 1 < pos := not_le.1 hlt
    have hfalse := of_decide_eq_false (hend (by omega))
    exact hfalse (hrun _ (by omega) hlt')
  omega

/-! ### One more place -/

section Progress

variable {x : ℕ → Option β} {n : ℕ} {closed : List (Run β)} {current : Option (Run β)}

/-- The list of the runs is the only ordered list with exactly the maximal runs. -/
lemma runs_eq_of_mem_iff {l : List (Run β)} (hl : l.Pairwise fun r s => r.last < s.first)
    (hmem : ∀ r, r ∈ l ↔ r.IsMaximal x n) : runs x n = l := by
  have hmem' : ∀ r, r ∈ runs x n ↔ r ∈ l := fun r => mem_runs_iff.trans (hmem r).symm
  have hne : ∀ {l : List (Run β)}, (∀ r ∈ l, r.IsMaximal x n) →
      (l.Pairwise fun r s => r.last < s.first) → l.Pairwise fun r s => r.first < s.first := by
    intro l hmax hl
    refine List.Pairwise.imp_of_mem (fun {r s} hr _ hlt => ?_) hl
    exact (hmax r hr).le.trans_lt hlt
  have hruns := hne (fun r hr => mem_runs_iff.1 hr) (pairwise_runs x n)
  have hlist := hne (fun r hr => (hmem r).1 hr) hl
  refine List.Perm.eq_of_pairwise
    (fun a b _ _ (hab : a.first < b.first) (hba : b.first < a.first) =>
      absurd hab (lt_asymm hba)) hruns hlist ?_
  refine (List.perm_ext_iff_of_nodup ?_ ?_).2 hmem'
  · exact hruns.imp fun {r s} hlt heq => absurd hlt (by rw [heq]; exact lt_irrefl _)
  · exact hlist.imp fun {r s} hlt heq => absurd hlt (by rw [heq]; exact lt_irrefl _)

/-- The runs among the first `n` places: those that have ended, and the one that reaches the
end. -/
structure Progress (x : ℕ → Option β) (n : ℕ) (closed : List (Run β)) (current : Option (Run β)) :
    Prop where
  runs_eq : runs x n = closed ++ current.toList
  closed_lt : ∀ r ∈ closed, r.last + 1 < n
  current_eq : ∀ r, current = some r → r.last + 1 = n

namespace Progress

lemma zero (x : ℕ → Option β) : Progress x 0 [] none := ⟨rfl, nofun, nofun⟩

lemma mem_iff (h : Progress x n closed current) {r : Run β} :
    r.IsMaximal x n ↔ r ∈ closed ∨ current = some r := by
  rw [← mem_runs_iff, h.runs_eq, List.mem_append, Option.mem_toList]

lemma pairwise (h : Progress x n closed current) :
    (closed ++ current.toList).Pairwise fun r s => r.last < s.first := by
  rw [← h.runs_eq]
  exact pairwise_runs x n

/-- A run that has ended stays a maximal one. -/
lemma isMaximal_succ (h : Progress x n closed current) {r : Run β} (hr : r ∈ closed) :
    r.IsMaximal x (n + 1) := by
  have hmax := h.mem_iff.2 (Or.inl hr)
  have hlt := h.closed_lt r hr
  exact ⟨hmax.le, by omega, hmax.constant, hmax.left, fun _ => hmax.right hlt⟩

omit [DecidableEq β] in
/-- A maximal run of one place more that does not reach it was maximal before. -/
lemma isMaximal_of_succ {r : Run β} (hr : r.IsMaximal x (n + 1)) (hlt : r.last < n) :
    r.IsMaximal x n ∧ (r.last + 1 = n → x n ≠ some r.value) := by
  refine ⟨⟨hr.le, hlt, hr.constant, hr.left, fun h => hr.right (by omega)⟩, ?_⟩
  rintro rfl
  exact hr.right (by omega)

/-- The next place has no value. -/
lemma gap (h : Progress x n closed current) (hx : x n = none) :
    Progress x (n + 1) (closed ++ current.toList) none := by
  have hends : ∀ r ∈ closed ++ current.toList, r.last + 1 < n + 1 := by
    intro r hr
    rw [← h.runs_eq] at hr
    exact Nat.succ_lt_succ (mem_runs_iff.1 hr).lt
  refine ⟨?_, hends, nofun⟩
  rw [Option.toList_none, List.append_nil]
  refine runs_eq_of_mem_iff h.pairwise fun r => ?_
  constructor
  · intro hr
    have hlt := hends r hr
    rw [← h.runs_eq] at hr
    have hmax := mem_runs_iff.1 hr
    refine ⟨hmax.le, by omega, hmax.constant, hmax.left, fun _ => ?_⟩
    rcases Nat.lt_or_ge (r.last + 1) n with hin | hout
    · exact hmax.right hin
    · obtain rfl : n = r.last + 1 := by omega
      rw [hx]
      exact nofun
  · intro hmax
    have hlt : r.last < n := by
      refine lt_of_le_of_ne (Nat.lt_succ_iff.1 hmax.lt) ?_
      rintro rfl
      have hconst := hmax.constant r.last ⟨hmax.le, le_rfl⟩
      rw [hx] at hconst
      cases hconst
    rw [← h.runs_eq]
    exact mem_runs_iff.2 (isMaximal_of_succ hmax hlt).1

/-- The runs after one more place, when `next` is the one that reaches it. -/
lemma reach (h : Progress x n closed current) {next : Run β} (hnext : next.IsMaximal x (n + 1))
    (hlast : next.last = n) (hapart : ∀ r ∈ closed, r.last < next.first)
    (hgone : ∀ r, current = some r → x n = some r.value) :
    Progress x (n + 1) closed (some next) := by
  refine ⟨?_, fun r hr => (h.closed_lt r hr).trans (Nat.lt_succ_self n), ?_⟩
  · refine runs_eq_of_mem_iff ?_ fun r => ?_
    · rw [Option.toList_some, List.pairwise_append]
      refine ⟨(List.pairwise_append.1 h.pairwise).1, List.pairwise_singleton _ _, ?_⟩
      intro r hr s hs
      rw [List.mem_singleton.1 hs]
      exact hapart r hr
    · rw [List.mem_append, Option.mem_toList]
      constructor
      · rintro (hr | hr)
        · exact h.isMaximal_succ hr
        · rwa [← Option.some.inj hr]
      · intro hmax
        rcases Nat.lt_or_ge r.last n with hlt | hge
        · obtain ⟨hbefore, hstop⟩ := isMaximal_of_succ hmax hlt
          refine Or.inl ((h.mem_iff.1 hbefore).resolve_right fun hr => ?_)
          exact hstop (h.current_eq r hr) (hgone r hr)
        · have hend : r.last = n := le_antisymm (Nat.lt_succ_iff.1 hmax.lt) hge
          refine Or.inr (congrArg some ?_)
          exact hnext.eq hmax ⟨hlast ▸ hnext.le, hlast.ge⟩ ⟨hend ▸ hmax.le, hend.ge⟩
  · rintro r hr
    rw [← Option.some.inj hr, hlast]

/-- The next place has a value, and no run reaches it. -/
lemma start {b : β} (h : Progress x n closed none) (hx : x n = some b) :
    Progress x (n + 1) closed (some ⟨n, n, b⟩) := by
  refine h.reach ⟨le_rfl, Nat.lt_succ_self n, ?_, ?_, ?_⟩ rfl ?_ nofun
  · rintro i ⟨hle, hge⟩
    rw [le_antisymm hge hle, hx]
  · intro hpos hprev
    have hpos : 0 < n := hpos
    have hprev : x (n - 1) = some b := hprev
    obtain ⟨r, hr, hhas, -⟩ := exists_mem_runs (by omega : n - 1 < n) hprev
    have hmax := mem_runs_iff.1 hr
    have hlt := h.closed_lt r ((h.mem_iff.1 hmax).resolve_right nofun)
    have hhas : n - 1 ≤ r.last := hhas.2
    omega
  · intro hlt
    exact absurd hlt (lt_irrefl (n + 1))
  · intro r hr
    have hlt := h.closed_lt r hr
    exact show r.last < n by omega

/-- The next place has the value of the run that reaches it. -/
lemma extend {r : Run β} (h : Progress x n closed (some r)) (hx : x n = some r.value) :
    Progress x (n + 1) closed (some { r with last := n }) := by
  have hmax := h.mem_iff.2 (Or.inr rfl)
  have hend := h.current_eq r rfl
  have hle := hmax.le
  refine h.reach ⟨show r.first ≤ n by omega, Nat.lt_succ_self n, ?_, hmax.left, ?_⟩ rfl ?_ ?_
  · rintro i ⟨hfirst, hlast⟩
    have hfirst : r.first ≤ i := hfirst
    have hlast : i ≤ n := hlast
    rcases Nat.lt_or_ge i n with hlt | hge
    · exact hmax.constant i ⟨hfirst, by omega⟩
    · rw [le_antisymm hlast hge, hx]
  · intro hlt
    exact absurd hlt (lt_irrefl (n + 1))
  · intro s hs
    exact (List.pairwise_append.1 h.pairwise).2.2 s hs r (by simp)
  · intro s hs
    rw [← Option.some.inj hs, hx]

end Progress

end Progress

/-! ### Stretches of a list -/

section Stretches

variable {α : Type} (p : α → Bool)

/-- The stretches of elements with a property, each with its first element and the element that
ends it, if there is one. The first argument is the first element of a stretch that is open. -/
def stretches : Option α → List α → List (α × Option α)
  | none, [] => []
  | some first, [] => [(first, none)]
  | none, x :: l => if p x then stretches (some x) l else stretches none l
  | some first, x :: l =>
      if p x then stretches (some first) l else (first, some x) :: stretches none l

/-- The places with the property. -/
def placesOf (l : List α) (i : ℕ) : Option Unit := if (l[i]?).any p then some () else none

variable {p}

lemma placesOf_eq_some {l : List α} {i : ℕ} {x : α} (h : l[i]? = some x) :
    placesOf p l i = some () ↔ p x = true := by
  rw [placesOf, h]
  cases hp : p x <;> simp [hp]

lemma placesOf_eq_none {l : List α} {i : ℕ} {x : α} (h : l[i]? = some x) (hp : ¬ p x = true) :
    placesOf p l i = none := by
  rw [placesOf, h, Option.any_some, if_neg hp]

/-- The stretch of a run. -/
def runStretch [Inhabited α] (l : List α) (r : Run Unit) : α × Option α :=
  (l.getD r.first default, l[r.last + 1]?)

/-- The stretch that starts at a place, if one does. -/
def stretchFrom [Inhabited α] (p : α → Bool) (l : List α) (i : ℕ) : Option (α × Option α) :=
  (firstAt (placesOf p l) i).map fun b => runStretch l ⟨i, runEnd (placesOf p l) l.length i b, b⟩

variable [Inhabited α]

lemma stretchFrom_eq_none {l : List α} {i : ℕ}
    (h : placesOf p l i = none ∨ 0 < i ∧ placesOf p l (i - 1) = some ()) :
    stretchFrom p l i = none := by
  have hfirst : firstAt (placesOf p l) i = none := by
    cases hfirst : firstAt (placesOf p l) i with
    | none => rfl
    | some b =>
        obtain ⟨hx, hprev⟩ := firstAt_eq_some_iff.1 hfirst
        rcases h with h | ⟨hpos, h⟩
        · rw [h] at hx
          cases hx
        · exact absurd h (hprev hpos)
  rw [stretchFrom, hfirst, Option.map_none]

/-- A stretch starts at a place with the property behind one without it. -/
lemma stretchFrom_eq_some {l : List α} {i : ℕ} (h : placesOf p l i = some ())
    (hprev : 0 < i → placesOf p l (i - 1) = none) :
    stretchFrom p l i = some (runStretch l ⟨i, runEnd (placesOf p l) l.length i (), ()⟩) := by
  have hfirst : firstAt (placesOf p l) i = some () := by
    refine firstAt_eq_some_iff.2 ⟨h, fun hpos => ?_⟩
    rw [hprev hpos]
    exact (Option.some_ne_none ()).symm
  rw [stretchFrom, hfirst, Option.map_some]

/-- The stretch of a run that ends before a place. -/
lemma runStretch_eq {l : List α} {first pos : ℕ} (hlt : first < pos) (hpos : pos ≤ l.length)
    (hrun : ∀ i, first ≤ i → i < pos → placesOf p l i = some ())
    (hstop : pos < l.length → placesOf p l pos = none) :
    runStretch l ⟨first, runEnd (placesOf p l) l.length first (), ()⟩ =
      (l.getD first default, l[pos]?) := by
  have hend : runEnd (placesOf p l) l.length first () = pos - 1 := by
    refine runEnd_eq hlt hpos hrun fun h => ?_
    rw [hstop h]
    exact (Option.some_ne_none ()).symm
  rw [runStretch, hend, Nat.sub_add_cancel (Nat.one_le_of_lt hlt)]

/-- From a place on, the stretches are those of the runs that start there or later, behind the one
that is open. -/
lemma stretches_drop (l : List α) (left : ℕ) :
    ∀ pos, pos + left = l.length →
      ((0 < pos → placesOf p l (pos - 1) = none) →
        stretches p none (l.drop pos) =
          (List.range' pos left).filterMap (stretchFrom p l)) ∧
      ∀ first, first < pos → (∀ i, first ≤ i → i < pos → placesOf p l i = some ()) →
        stretches p (some (l.getD first default)) (l.drop pos) =
          runStretch l ⟨first, runEnd (placesOf p l) l.length first (), ()⟩ ::
            (List.range' pos left).filterMap (stretchFrom p l) := by
  induction left with
  | zero =>
      intro pos hlen
      have hnil : l.drop pos = [] := List.drop_eq_nil_of_le (by omega)
      refine ⟨fun _ => by rw [hnil]; rfl, fun first hlt hrun => ?_⟩
      rw [hnil, runStretch_eq hlt (by omega) hrun (by omega), List.getElem?_eq_none (by omega)]
      rfl
  | succ left ih =>
      intro pos hlen
      have hpos : pos < l.length := by omega
      have hget : l[pos]? = some l[pos] := List.getElem?_eq_getElem hpos
      obtain ⟨ihNone, ihSome⟩ := ih (pos + 1) (by omega)
      rw [List.drop_eq_getElem_cons hpos, List.range'_succ, List.filterMap_cons]
      constructor
      · intro hprev
        rw [stretches]
        split_ifs with hp
        · -- a stretch begins here
          have hsome := (placesOf_eq_some hget).2 hp
          have hopen := ihSome pos (Nat.lt_succ_self pos) fun i hle hlt => by
            rw [show i = pos by omega]
            exact hsome
          rw [stretchFrom_eq_some hsome hprev]
          rwa [List.getD_eq_getElem _ _ hpos] at hopen
        · have hnone := placesOf_eq_none hget hp
          rw [stretchFrom_eq_none (.inl hnone)]
          exact ihNone fun _ => by rwa [Nat.add_sub_cancel]
      · intro first hlt hrun
        rw [stretches]
        split_ifs with hp
        · -- the stretch goes on
          have hlast : placesOf p l (pos - 1) = some () := hrun _ (by omega) (by omega)
          rw [stretchFrom_eq_none (.inr ⟨by omega, hlast⟩)]
          refine ihSome first (by omega) fun i hle hi => ?_
          rcases Nat.lt_succ_iff_lt_or_eq.1 hi with hi | rfl
          · exact hrun i hle hi
          · exact (placesOf_eq_some hget).2 hp
        · -- the stretch ends here
          have hnone := placesOf_eq_none hget hp
          rw [stretchFrom_eq_none (.inl hnone), runStretch_eq hlt hpos.le hrun fun _ => hnone, hget,
            ihNone fun _ => by rwa [Nat.add_sub_cancel]]

/-- The stretches are those of the maximal runs. -/
lemma stretches_eq (l : List α) :
    stretches p none l = (runs (placesOf p l) l.length).map (runStretch l) := by
  have h := (stretches_drop (p := p) l l.length 0 (by omega)).1 fun h => absurd h (lt_irrefl 0)
  rw [List.drop_zero, ← List.range_eq_range'] at h
  rw [h, runs, List.map_filterMap]
  refine List.filterMap_congr fun i _ => ?_
  rw [stretchFrom, Option.map_map]
  rfl

end Stretches

end Lib
