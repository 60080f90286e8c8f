import Mathlib.Order.Lattice

/-!
# Binary heaps

A heap has positions `1` to `n`, and `i / 2` is the parent of `i`.

* `Ordered.le_root`: nothing is above the root.
* `Rising`: the heap is ordered but for one position, which may be above its parent. `Rising.swap` and
  `Rising.ordered` are the steps of sifting up.
* `Sinking`: one position may be below its children, with `Sinking.swap` and `Sinking.ordered` for sifting
  down.
-/

namespace BinaryHeap

variable {α : Type} [LinearOrder α] {f g : ℕ → α} {n i j : ℕ}

/-- No position is above its parent. -/
def Ordered (f : ℕ → α) (n : ℕ) : Prop :=
  ∀ i, 2 ≤ i → i ≤ n → f i ≤ f (i / 2)

theorem Ordered.le_root (ordered : Ordered f n) (positive : 1 ≤ i) (inside : i ≤ n) : f i ≤ f 1 := by
  induction i using Nat.strong_induction_on with
  | _ i ih =>
      rcases Nat.eq_or_lt_of_le positive with rfl | more
      · exact le_refl _
      · have parent := ih (i / 2) (by omega) (by omega) (by omega)
        exact le_trans (ordered i more inside) parent

/-- Only `i` may be above its parent. The positions below `i` are not above that parent. -/
structure Rising (f : ℕ → α) (n i : ℕ) : Prop where
  others : ∀ k, 2 ≤ k → k ≤ n → k ≠ i → f k ≤ f (k / 2)
  below : ∀ k, 2 ≤ k → k ≤ n → k / 2 = i → 2 ≤ i → f k ≤ f (i / 2)

/-- Only `i` may be below its children, which are not above the parent of `i`. -/
structure Sinking (f : ℕ → α) (n i : ℕ) : Prop where
  others : ∀ k, 2 ≤ k → k ≤ n → k / 2 ≠ i → f k ≤ f (k / 2)
  below : ∀ k, 2 ≤ k → k ≤ n → k / 2 = i → 2 ≤ i → f k ≤ f (i / 2)

theorem Ordered.rising (ordered : Ordered f n) (more : ∀ k, 1 ≤ k → k ≤ n → k ≠ i → g k = f k)
    (larger : f i ≤ g i) : Rising g n i where
  others k low high other := by
    have before := ordered k low high
    rw [more k (by omega) high other]
    by_cases child : k / 2 = i
    · rw [child] at before ⊢
      exact le_trans before larger
    · rwa [more _ (by omega) (by omega) child]
  below k low high child several := by
    have first := ordered k low high
    rw [child] at first
    have second := ordered i several (by omega)
    rw [more k (by omega) high (by omega), more (i / 2) (by omega) (by omega) (by omega)]
    exact le_trans first second

theorem Ordered.mono (ordered : Ordered f n) {m : ℕ} (fewer : m ≤ n) : Ordered f m :=
  fun i low high => ordered i low (high.trans fewer)

theorem Ordered.congr (ordered : Ordered f n) (same : ∀ k, 1 ≤ k → k ≤ n → g k = f k) : Ordered g n := by
  intro i low high
  rw [same i (by omega) high, same (i / 2) (by omega) (by omega)]
  exact ordered i low high

/-- A new last position. -/
theorem Ordered.rising_last (ordered : Ordered f n) (same : ∀ k, 1 ≤ k → k ≤ n → g k = f k) :
    Rising g (n + 1) (n + 1) where
  others k low high other := ordered.congr same k low (by omega)
  below k low high child := by omega

theorem Rising.ordered (rising : Rising f n i) (stays : 2 ≤ i → f i ≤ f (i / 2)) : Ordered f n := by
  intro k low high
  by_cases same : k = i
  · subst same
    exact stays low
  · exact rising.others k low high same

/-- Two positions have changed places. -/
structure Swapped (f g : ℕ → α) (i j : ℕ) : Prop where
  left : g i = f j
  right : g j = f i
  others : ∀ k, k ≠ i → k ≠ j → g k = f k

/-- The position changes places with its parent. -/
theorem Rising.swap (rising : Rising f n i) (several : 2 ≤ i) (inside : i ≤ n) (above : f (i / 2) < f i)
    (swapped : Swapped f g i (i / 2)) : Rising g n (i / 2) where
  others k low high other := by
    by_cases same : k = i
    · subst same
      rw [swapped.left, swapped.right]
      exact le_of_lt above
    · rw [swapped.others k same other]
      have before := rising.others k low high same
      by_cases child : k / 2 = i
      · rw [child, swapped.left]
        exact rising.below k low high child several
      · by_cases sibling : k / 2 = i / 2
        · rw [sibling] at before ⊢
          rw [swapped.right]
          exact le_trans before (le_of_lt above)
        · rwa [swapped.others _ child sibling]
  below k low high child several' := by
    have parent := rising.others (i / 2) several' (by omega) (by omega)
    rw [swapped.others (i / 2 / 2) (by omega) (by omega)]
    by_cases same : k = i
    · subst same
      rw [swapped.left]
      exact parent
    · rw [swapped.others k same (by omega)]
      have before := rising.others k low high same
      rw [child] at before
      exact le_trans before parent

theorem Ordered.sinking (ordered : Ordered f n) (more : ∀ k, 1 ≤ k → k ≤ n → k ≠ i → g k = f k)
    (smaller : 2 ≤ i → g i ≤ f (i / 2)) : Sinking g n i where
  others k low high other := by
    rw [more (k / 2) (by omega) (by omega) other]
    by_cases same : k = i
    · subst same
      exact smaller low
    · rw [more k (by omega) high same]
      exact ordered k low high
  below k low high child several := by
    have first := ordered k low high
    rw [child] at first
    rw [more k (by omega) high (by omega), more (i / 2) (by omega) (by omega) (by omega)]
    exact le_trans first (ordered i several (by omega))

theorem Sinking.ordered (sinking : Sinking f n i)
    (stays : ∀ k, 2 ≤ k → k ≤ n → k / 2 = i → f k ≤ f i) : Ordered f n := by
  intro k low high
  by_cases child : k / 2 = i
  · rw [child]
    exact stays k low high child
  · exact sinking.others k low high child

/-- The position changes places with the larger one of its children. -/
theorem Sinking.swap (sinking : Sinking f n i) (positive : 1 ≤ i) (inside : j ≤ n) (child : j / 2 = i)
    (above : f i ≤ f j) (larger : ∀ k, 2 ≤ k → k ≤ n → k / 2 = i → f k ≤ f j)
    (swapped : Swapped f g i j) : Sinking g n j where
  others k low high other := by
    by_cases same : k = j
    · subst same
      rw [child, swapped.left, swapped.right]
      exact above
    · by_cases first : k = i
      · subst first
        have before := sinking.below j (by omega) inside child low
        rw [swapped.left, swapped.others (k / 2) (by omega) (by omega)]
        exact before
      · rw [swapped.others k first same]
        by_cases sibling : k / 2 = i
        · rw [sibling, swapped.left]
          exact larger k low high sibling
        · rw [swapped.others _ sibling other]
          exact sinking.others k low high sibling
  below k low high grandchild several := by
    rw [child, swapped.left, swapped.others k (by omega) (by omega)]
    have before := sinking.others k low high (by omega)
    rwa [grandchild] at before

end BinaryHeap
