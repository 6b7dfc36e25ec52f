import Mathlib.Order.Bounds.Basic
import Mathlib.Order.Interval.Set.Basic
import Mathlib.Tactic

/-!
# Runs of a property

Given some points on the line and a property of points, the run that ends at `n` consists of
the points up to `n` from which on the property holds at every point. `runStarts` are the
points in the run, so the start of the run is its least element.

Two properties have the same run exactly when they agree on it and on the point before it:
`runStarts_eq_of_agree` and `agree_of_isLeast`.
-/

namespace Lib

variable {points : Set ℕ} {p q : ℕ → Prop} {n k : ℕ}

/-- The points up to `n` from which on a property holds at every point up to `n`. -/
def runStarts (points : Set ℕ) (p : ℕ → Prop) (n : ℕ) : Set ℕ :=
  {w | w ∈ points ∧ w ≤ n ∧ ∀ v ∈ points, w ≤ v → v ≤ n → p v}

/-- The properties agree at every point after which the second one holds up to `n`: on its run
and at the point before. -/
def AgreeOnRun (points : Set ℕ) (p q : ℕ → Prop) (n : ℕ) : Prop :=
  ∀ g ∈ points, g ≤ n → (∀ j ∈ points, g < j → j ≤ n → q j) → (p g ↔ q g)

/-- Going back from `n`, the first property holds as long as the second does. -/
lemma AgreeOnRun.of_run (h : AgreeOnRun points p q n) {w : ℕ}
    (hw : ∀ v ∈ points, w ≤ v → v ≤ n → p v) {v : ℕ} (hv : v ∈ points) (hwv : w ≤ v)
    (hvn : v ≤ n) : q v := by
  -- by induction on the distance to `n`
  induction hd : n - v using Nat.strong_induction_on generalizing v with
  | _ d ih =>
      refine (h v hv hvn fun j hj hvj hjn => ?_).1 (hw v hv hwv hvn)
      exact ih (n - j) (by omega) hj (hwv.trans hvj.le) hjn rfl

/-- Properties that agree have the same run. -/
lemma runStarts_eq_of_agree (h : AgreeOnRun points p q n) :
    runStarts points p n = runStarts points q n := by
  ext w
  constructor
  · rintro ⟨hw, hwn, hrun⟩
    exact ⟨hw, hwn, fun v hv hwv hvn => h.of_run hrun hv hwv hvn⟩
  · rintro ⟨hw, hwn, hrun⟩
    refine ⟨hw, hwn, fun v hv hwv hvn => (h v hv hvn fun j hj hvj hjn => ?_).2 (hrun v hv hwv hvn)⟩
    exact hrun j hj (hwv.trans hvj.le) hjn

/-- Properties whose runs start at the same point agree. -/
lemma agree_of_isLeast (hp : IsLeast (runStarts points p n) k)
    (hq : IsLeast (runStarts points q n) k) : AgreeOnRun points p q n := by
  intro g hg hgn hafter
  constructor
  · intro hpg
    by_contra hqg
    -- the run of `q` starts after `g`, so the run of `p` would start at `g` or before
    have hgk : g < k := by
      by_contra hkg
      exact hqg (hq.1.2.2 g hg (not_lt.1 hkg) hgn)
    have hrun : g ∈ runStarts points p n := by
      refine ⟨hg, hgn, fun v hv hgv hvn => ?_⟩
      rcases hgv.lt_or_eq with hlt | rfl
      · have hkv : k ≤ v := hq.2 ⟨hv, hvn, fun u hu hvu hun => hafter u hu (hlt.trans_le hvu) hun⟩
        exact hp.1.2.2 v hv hkv hvn
      · exact hpg
    exact absurd (hp.2 hrun) (not_le.2 hgk)
  · intro hqg
    have hrun : g ∈ runStarts points q n := by
      refine ⟨hg, hgn, fun v hv hgv hvn => ?_⟩
      rcases hgv.lt_or_eq with hlt | rfl
      · exact hafter v hv hlt hvn
      · exact hqg
    exact hp.1.2.2 g hg (hq.2 hrun) hgn

/-- The start of a run that is not empty is a point with the property before which the property
fails at the last point. -/
lemma isLeast_runStarts (hk : k ∈ points) (hkn : k ≤ n) (hrun : ∀ v ∈ points, k ≤ v → v ≤ n → p v)
    (hfirst : ∀ w ∈ points, w < k → ∃ v ∈ points, w ≤ v ∧ v < k ∧ ¬ p v) :
    IsLeast (runStarts points p n) k := by
  refine ⟨⟨hk, hkn, hrun⟩, ?_⟩
  rintro w ⟨hw, -, hrunw⟩
  by_contra hkw
  obtain ⟨v, hv, hwv, hvk, hpv⟩ := hfirst w hw (not_le.1 hkw)
  exact hpv (hrunw v hv hwv (hvk.le.trans hkn))

/-- A strictly increasing change of the points moves the run with them. -/
lemma mem_runStarts_image {f : ℕ → ℕ} {t i : ℕ} (hf : StrictMonoOn f points)
    (hle : ∀ i ∈ points, f i ≤ t ↔ i ≤ n) (hpq : ∀ i ∈ points, q (f i) ↔ p i) (hi : i ∈ points) :
    f i ∈ runStarts (Set.image f points) q t ↔ i ∈ runStarts points p n := by
  constructor
  · rintro ⟨-, hit, hrun⟩
    refine ⟨hi, (hle i hi).1 hit, fun v hv hiv hvn => ?_⟩
    exact (hpq v hv).1 (hrun (f v) ⟨v, hv, rfl⟩ ((hf.le_iff_le hi hv).2 hiv) ((hle v hv).2 hvn))
  · rintro ⟨-, hin, hrun⟩
    refine ⟨⟨i, hi, rfl⟩, (hle i hi).2 hin, ?_⟩
    rintro _ ⟨v, hv, rfl⟩ hiv hvt
    exact (hpq v hv).2 (hrun v hv ((hf.le_iff_le hi hv).1 hiv) ((hle v hv).1 hvt))

/-- And so it moves the start of the run. -/
lemma isLeast_runStarts_image {f : ℕ → ℕ} {t : ℕ} (hf : StrictMonoOn f points)
    (hle : ∀ i ∈ points, f i ≤ t ↔ i ≤ n) (hpq : ∀ i ∈ points, q (f i) ↔ p i) (hk : k ∈ points) :
    IsLeast (runStarts (Set.image f points) q t) (f k) ↔ IsLeast (runStarts points p n) k := by
  constructor
  · rintro ⟨hmem, hleast⟩
    refine ⟨(mem_runStarts_image hf hle hpq hk).1 hmem, fun i hi => ?_⟩
    exact (hf.le_iff_le hk hi.1).1 (hleast ((mem_runStarts_image hf hle hpq hi.1).2 hi))
  · rintro ⟨hmem, hleast⟩
    refine ⟨(mem_runStarts_image hf hle hpq hk).2 hmem, ?_⟩
    rintro _ hi
    obtain ⟨i, hip, rfl⟩ := hi.1
    exact (hf.le_iff_le hk hip).2 (hleast ((mem_runStarts_image hf hle hpq hip).1 hi))

end Lib
