/-
# Lib.Search — binary search over positions

The loop of a binary search knows nothing of what it searches: it asks, of a
position, whether what stands there is below the target. `search` is that loop,
with the length of its interval as fuel.

* `search_mem`: the result lies in the interval it was started on;
* `search_below`, `search_reached`: if the positions below the target come first,
  then they are exactly the ones before the result.
-/
import Mathlib.Data.List.Sort

namespace Parti.Lib

/-- Narrow `[i, j)` down to the first position that is not below. -/
def search (below : Nat → Bool) : Nat → Nat → Nat → Nat
  | 0, i, _ => i
  | fuel + 1, i, j =>
    if i < j then
      if below ((i + j) / 2) then search below fuel ((i + j) / 2 + 1) j
      else search below fuel i ((i + j) / 2)
    else i

variable {below : Nat → Bool} {fuel i j : Nat}

theorem search_mem (le : i ≤ j) : i ≤ search below fuel i j ∧ search below fuel i j ≤ j := by
  induction fuel generalizing i j with
  | zero => exact ⟨le_refl i, le⟩
  | succ fuel ih =>
    simp only [search]
    split
    next lt =>
      split
      next =>
        have half := ih (i := (i + j) / 2 + 1) (j := j) (by omega)
        omega
      next =>
        have half := ih (i := i) (j := (i + j) / 2) (by omega)
        omega
    next => omega

theorem search_below (first : ∀ k l, k ≤ l → below l = true → below k = true)
    (before : ∀ k < i, below k = true) {k : Nat} (lt : k < search below fuel i j) :
    below k = true := by
  induction fuel generalizing i j with
  | zero => exact before k lt
  | succ fuel ih =>
    simp only [search] at lt
    split at lt
    next =>
      split at lt
      next hit =>
        refine ih (fun l le => ?_) lt
        exact first l ((i + j) / 2) (by omega) hit
      next => exact ih before lt
    next => exact before k lt

theorem search_reached (enough : j - i ≤ fuel) (after : ¬ below j = true) (le : i ≤ j) :
    ¬ below (search below fuel i j) = true := by
  induction fuel generalizing i j with
  | zero =>
    have same : i = j := by omega
    simpa only [search, same] using after
  | succ fuel ih =>
    simp only [search]
    split
    next =>
      split
      next => exact ih (by omega) after (by omega)
      next miss => exact ih (by omega) miss (by omega)
    next =>
      have same : i = j := by omega
      rw [same]
      exact after

end Parti.Lib
