import Mathlib.Logic.Function.Basic
import Mathlib.Order.CompletePartialOrder
import Mathlib.Order.Interval.Set.Basic
import Renaissance.Lib.BinaryHeap
import Renaissance.Lib.JavaDouble

/-!
# The priority queue of the SAT solver

`FixedIntDoublePriorityQueue`: the numbers below `maxSize` by their scores, in a heap with a table of
positions. A number that is not in the queue keeps its place behind the heap and its score.
-/

namespace Renaissance.CafeSat

open JavaDouble (double)

structure FixedIntDoublePriorityQueue where
  maxSize : ℕ
  size : ℕ
  heapScores : ℕ → ℚ
  heapElements : ℕ → ℕ
  index : ℕ → ℕ

namespace FixedIntDoublePriorityQueue

/-- Positions start at `1`, elements at `0`. -/
def initial (maxSize : ℕ) : FixedIntDoublePriorityQueue where
  maxSize := maxSize
  size := maxSize
  heapScores _ := 0
  heapElements i := i - 1
  index el := el + 1

variable (q : FixedIntDoublePriorityQueue)

/-- Writes a position in all three arrays. -/
def put (i : ℕ) (score : ℚ) (element : ℕ) : FixedIntDoublePriorityQueue :=
  { q with
    heapScores := Function.update q.heapScores i score
    heapElements := Function.update q.heapElements i element
    index := Function.update q.index element i }

section Put

variable {q} {i k element other : ℕ} {score : ℚ}

@[simp] theorem size_put : (q.put i score element).size = q.size :=
  rfl

@[simp] theorem heapScores_put_self : (q.put i score element).heapScores i = score :=
  Function.update_self _ _ _

@[simp] theorem heapElements_put_self : (q.put i score element).heapElements i = element :=
  Function.update_self _ _ _

@[simp] theorem index_put_self : (q.put i score element).index element = i :=
  Function.update_self _ _ _

theorem heapScores_put_other (different : k ≠ i) :
    (q.put i score element).heapScores k = q.heapScores k :=
  Function.update_of_ne different _ _

theorem heapElements_put_other (different : k ≠ i) :
    (q.put i score element).heapElements k = q.heapElements k :=
  Function.update_of_ne different _ _

theorem index_put_other (different : other ≠ element) :
    (q.put i score element).index other = q.index other :=
  Function.update_of_ne different _ _

end Put

/-- Copies a position to position `0`. -/
def save (i : ℕ) : FixedIntDoublePriorityQueue :=
  { q with
    heapScores := Function.update q.heapScores 0 (q.heapScores i)
    heapElements := Function.update q.heapElements 0 (q.heapElements i) }

section Sift

variable (score : ℚ) (element : ℕ)

/-- The loop of `siftUp` from a position, and what comes after it. -/
def siftUpFrom (q : FixedIntDoublePriorityQueue) (i : ℕ) : FixedIntDoublePriorityQueue :=
  if 1 < i ∧ q.heapScores (i / 2) < score then
    siftUpFrom (q.put i (q.heapScores (i / 2)) (q.heapElements (i / 2))) (i / 2)
  else q.put i score element
termination_by i
decreasing_by omega

@[simp] theorem siftUpFrom_size (q : FixedIntDoublePriorityQueue) (i : ℕ) :
    (q.siftUpFrom score element i).size = q.size := by
  fun_induction siftUpFrom score element q i with
  | case1 q i rises ih => exact ih
  | case2 q i stays => rfl

/-- The child that the element changes places with. -/
def risingChild (q : FixedIntDoublePriorityQueue) (i : ℕ) : Option ℕ :=
  let left := 2 * i
  let right := left + 1
  if right ≤ q.size then
    if score < q.heapScores left ∨ score < q.heapScores right then
      if q.heapScores right < q.heapScores left then some left else some right
    else none
  else if left ≤ q.size then
    if score < q.heapScores left then some left else none
  else none

theorem risingChild_le {q : FixedIntDoublePriorityQueue} {i j : ℕ}
    (rises : q.risingChild score i = some j) : j ≤ q.size ∧ j / 2 = i := by
  unfold risingChild at rises
  dsimp only at rises
  split at rises
  · split at rises
    · split at rises <;> cases rises <;> omega
    · cases rises
  · split at rises
    · split at rises <;> cases rises
      omega
    · cases rises

/-- The loop of `siftDown`. Children have larger positions, since the positions start at `1`. -/
def siftDownFrom (q : FixedIntDoublePriorityQueue) (i : ℕ) : FixedIntDoublePriorityQueue :=
  match _rises : q.risingChild score i with
  | some j =>
      if i < j then siftDownFrom (q.put i (q.heapScores j) (q.heapElements j)) j
      else q.put i score element
  | none => q.put i score element
termination_by q.size - i
decreasing_by
  have inside := (risingChild_le score _rises).1
  show q.size - _ < q.size - i
  omega

@[simp] theorem siftDownFrom_size (q : FixedIntDoublePriorityQueue) (i : ℕ) :
    (q.siftDownFrom score element i).size = q.size := by
  fun_induction siftDownFrom score element q i with
  | case1 q i j rises larger ih => exact ih
  | case2 q i j rises smaller => rfl
  | case3 q i stays => rfl

end Sift

def siftUp (pos : ℕ) (score : ℚ) : FixedIntDoublePriorityQueue :=
  q.siftUpFrom score (q.heapElements pos) pos

def siftDown (pos : ℕ) (score : ℚ) : FixedIntDoublePriorityQueue :=
  q.siftDownFrom score (q.heapElements pos) pos

/-- The new score comes with the queue. `none` if the offset is negative. -/
def incScore (el : ℕ) (offset : ℚ) : Option (FixedIntDoublePriorityQueue × ℚ) :=
  if 0 ≤ offset then
    let pos := q.index el
    let newScore := double (q.heapScores pos + offset)
    if pos ≤ q.size then some (q.siftUp pos newScore, newScore)
    else some ({ q with heapScores := Function.update q.heapScores pos newScore }, newScore)
  else none

/-- The loop starts at the unused position `0` and does not reach `maxSize`. -/
def rescaleScores (factor : ℚ) : FixedIntDoublePriorityQueue :=
  { q with heapScores i := if i < q.maxSize then double (q.heapScores i * factor) else q.heapScores i }

def isEmpty : Bool :=
  q.size = 0

def max : ℕ :=
  q.heapElements 1

def deleteMax : FixedIntDoublePriorityQueue × ℕ :=
  if q.size = 1 then ({ q with size := q.size - 1 }, q.heapElements 1)
  else
    let maxElement := q.heapElements 1
    let q := q.save 1
    let q := { q with heapElements := Function.update q.heapElements 1 (q.heapElements q.size) }
    let score := q.heapScores q.size
    let q := { q with index := Function.update q.index (q.heapElements 1) 1 }
    let q := q.put q.size (q.heapScores 0) maxElement
    let q := { q with size := q.size - 1 }
    (q.siftDown 1 score, maxElement)

/-- An element that is in the queue stays where it is. -/
def insert (el : ℕ) : FixedIntDoublePriorityQueue :=
  let pos := q.index el
  if pos = q.size + 1 then
    let q := { q with size := q.size + 1 }
    q.siftUp pos (q.heapScores pos)
  else if q.size + 1 < pos then
    let q := q.save (q.size + 1)
    let q := { q with size := q.size + 1 }
    let q := { q with heapElements := Function.update q.heapElements q.size (q.heapElements pos) }
    let q := q.siftUp q.size (q.heapScores pos)
    q.put pos (q.heapScores 0) (q.heapElements 0)
  else q

/-- `none` if the element is not in the queue. -/
def remove (el : ℕ) : Option FixedIntDoublePriorityQueue :=
  let pos := q.index el
  if q.size < pos then none
  else if pos = q.size then some { q with size := q.size - 1 }
  else
    let q := { q with heapScores := Function.update q.heapScores 0 (q.heapScores pos) }
    let q := { q with heapElements := Function.update q.heapElements pos (q.heapElements q.size) }
    let score := q.heapScores q.size
    let q := { q with size := q.size - 1 }
    let q := if q.heapScores (pos / 2) < score then q.siftUp pos score else q.siftDown pos score
    some (q.put (q.size + 1) (q.heapScores 0) el)

section Stored

variable {q : FixedIntDoublePriorityQueue} {S T C D : Set ℕ} {g : ℕ → ℚ} {i j n element : ℕ} {score : ℚ}

/-- The positions in `S` hold the elements in `C`, each with its score. -/
structure Stored (q : FixedIntDoublePriorityQueue) (S C : Set ℕ) (g : ℕ → ℚ) : Prop where
  position : ∀ i ∈ S, q.heapElements i ∈ C ∧ q.index (q.heapElements i) = i ∧
    q.heapScores i = g (q.heapElements i)
  element : ∀ el ∈ C, q.index el ∈ S ∧ q.heapElements (q.index el) = el

theorem Stored.put_other (stored : Stored q S C g) (other : i ∉ S) (foreign : element ∉ C) :
    Stored (q.put i score element) S C g where
  position k inside := by
    have ⟨member, index, score⟩ := stored.position k inside
    have different : k ≠ i := fun same => other (same ▸ inside)
    have known : q.heapElements k ≠ element := fun same => foreign (same ▸ member)
    rw [heapElements_put_other different, heapScores_put_other different, index_put_other known]
    exact ⟨member, index, score⟩
  element el member := by
    have ⟨inside, same⟩ := stored.element el member
    have known : el ≠ element := fun same => foreign (same ▸ member)
    have different : q.index el ≠ i := fun same => other (same ▸ inside)
    rw [index_put_other known, heapElements_put_other different]
    exact ⟨inside, same⟩

/-- A position of its own for a new element. -/
theorem Stored.put_new (stored : Stored q S C g) (other : i ∉ S) (foreign : element ∉ C)
    (known : g element = score) : Stored (q.put i score element) (S ∪ {i}) (C ∪ {element}) g := by
  have before : Stored (q.put i score element) S C g := stored.put_other other foreign
  refine ⟨fun k inside => ?_, fun el member => ?_⟩
  · rcases inside with inside | rfl
    · have ⟨member, rest⟩ := before.position k inside
      exact ⟨.inl member, rest⟩
    · simp [known]
  · rcases member with member | rfl
    · have ⟨inside, same⟩ := before.element el member
      exact ⟨.inl inside, same⟩
    · simp

theorem Stored.congr (stored : Stored q S C g) {q' : FixedIntDoublePriorityQueue}
    (scores : ∀ i ∈ S, q'.heapScores i = q.heapScores i)
    (elements : ∀ i ∈ S, q'.heapElements i = q.heapElements i)
    (index : ∀ el ∈ C, q'.index el = q.index el) : Stored q' S C g where
  position i inside := by
    have ⟨member, same, score⟩ := stored.position i inside
    rw [elements i inside, scores i inside, index _ member]
    exact ⟨member, same, score⟩
  element el member := by
    have ⟨inside, same⟩ := stored.element el member
    rw [index el member, elements _ inside]
    exact ⟨inside, same⟩

theorem Stored.remove (stored : Stored q S C g) (inside : i ∈ S) :
    Stored q (S \ {i}) (C \ {q.heapElements i}) g where
  position k rest := by
    have ⟨member, index, score⟩ := stored.position k rest.1
    refine ⟨⟨member, fun same => rest.2 ?_⟩, index, score⟩
    rw [Set.mem_singleton_iff] at same
    rw [Set.mem_singleton_iff, ← index, same, (stored.position i inside).2.1]
  element el rest := by
    have ⟨position, same⟩ := stored.element el rest.1
    refine ⟨⟨position, fun at_i => rest.2 ?_⟩, same⟩
    rw [Set.mem_singleton_iff] at at_i
    rw [Set.mem_singleton_iff, ← same, at_i]

theorem put_back {A : Set ℕ} {a b : ℕ} (ha : a ∈ A) (hb : b ∈ A) :
    (A \ {a}) \ {b} ∪ {b} ∪ {a} = A := by
  rw [Set.sdiff_union_self, Set.union_right_comm, Set.sdiff_union_self,
    Set.union_eq_left.mpr (Set.singleton_subset_iff.mpr ha),
    Set.union_eq_left.mpr (Set.singleton_subset_iff.mpr hb)]

/-- The element at `j` moves to the hole at `i`, so the hole is at `j`. -/
theorem Stored.move (stored : Stored (q.put i score element) S C g) (hi : i ∈ S) (hj : j ∈ S)
    (different : j ≠ i) :
    Stored ((q.put i (q.heapScores j) (q.heapElements j)).put j score element) S C g := by
  obtain ⟨memberHole, _, scoreHole⟩ := stored.position i hi
  rw [heapElements_put_self] at memberHole scoreHole
  rw [heapScores_put_self] at scoreHole
  -- Neither what is in the hole nor what moves has a position, then both get one again.
  have rest : Stored q (S \ {i}) (C \ {element}) g := by
    have taken := stored.remove hi
    rw [heapElements_put_self] at taken
    exact taken.congr (fun k other => (heapScores_put_other other.2).symm)
      (fun k other => (heapElements_put_other other.2).symm) fun el other => (index_put_other other.2).symm
  obtain ⟨memberMoved, _, scoreMoved⟩ := rest.position j ⟨hj, different⟩
  have moved := (rest.remove ⟨hj, different⟩).put_new (i := i)
    (fun inside => inside.1.2 rfl) (fun inside => inside.2 rfl) scoreMoved.symm
  have filled := moved.put_new (i := j)
    (fun inside => inside.elim (fun rest => rest.2 rfl) different)
    (fun inside => inside.elim (fun rest => rest.1.2 rfl) fun same => memberMoved.2 same.symm) scoreHole.symm
  rw [Set.union_right_comm, put_back hi hj, put_back memberHole memberMoved.1] at filled
  exact filled

/-- What a sift of the elements in `C` leaves as it is. -/
structure Kept (q q' : FixedIntDoublePriorityQueue) (C : Set ℕ) (g : ℕ → ℚ) : Prop where
  size : q'.size = q.size
  maxSize : q'.maxSize = q.maxSize
  zeroScore : q'.heapScores 0 = q.heapScores 0
  zeroElement : q'.heapElements 0 = q.heapElements 0
  others : ∀ S D, Disjoint S (Set.Icc 1 q.size) → Disjoint D C → Stored q S D g → Stored q' S D g

theorem kept_put (inside : i ∈ Set.Icc 1 q.size) (member : element ∈ C) :
    Kept q (q.put i score element) C g where
  size := rfl
  maxSize := rfl
  zeroScore := Function.update_of_ne (by have := inside.1; omega) _ _
  zeroElement := Function.update_of_ne (by have := inside.1; omega) _ _
  others S D apart foreign stored :=
    stored.put_other (fun other => Set.disjoint_left.mp apart other inside)
      fun other => Set.disjoint_left.mp foreign other member

theorem Kept.trans {q' q'' : FixedIntDoublePriorityQueue} (first : Kept q q' C g)
    (second : Kept q' q'' C g) : Kept q q'' C g where
  size := second.size.trans first.size
  maxSize := second.maxSize.trans first.maxSize
  zeroScore := second.zeroScore.trans first.zeroScore
  zeroElement := second.zeroElement.trans first.zeroElement
  others S D apart foreign stored :=
    second.others S D (first.size ▸ apart) foreign (first.others S D apart foreign stored)

/-- The hole at `i` is to be filled with the element. -/
structure Hole (q : FixedIntDoublePriorityQueue) (score : ℚ) (element : ℕ) (C : Set ℕ) (g : ℕ → ℚ)
    (i : ℕ) : Prop where
  inside : i ∈ Set.Icc 1 q.size
  stored : Stored (q.put i score element) (Set.Icc 1 q.size) C g

theorem Hole.fill (hole : Hole q score element C g i) : Kept q (q.put i score element) C g := by
  have ⟨member, _⟩ := hole.stored.position i hole.inside
  rw [heapElements_put_self] at member
  exact kept_put hole.inside member

theorem Hole.move (hole : Hole q score element C g i) (hj : j ∈ Set.Icc 1 q.size) (different : j ≠ i) :
    Kept q (q.put i (q.heapScores j) (q.heapElements j)) C g ∧
      Hole (q.put i (q.heapScores j) (q.heapElements j)) score element C g j := by
  have ⟨member, _⟩ := hole.stored.position j hj
  rw [heapElements_put_other different] at member
  exact ⟨kept_put hole.inside member, hj, hole.stored.move hole.inside hj different⟩

theorem swapped_move (q : FixedIntDoublePriorityQueue) (score : ℚ) (element : ℕ) (different : j ≠ i) :
    BinaryHeap.Swapped (q.put i score element).heapScores
      ((q.put i (q.heapScores j) (q.heapElements j)).put j score element).heapScores i j where
  left := by rw [heapScores_put_other different.symm, heapScores_put_self, heapScores_put_other different]
  right := by rw [heapScores_put_self, heapScores_put_self]
  others k notHole notMoved := by
    rw [heapScores_put_other notMoved, heapScores_put_other notHole, heapScores_put_other notHole]

theorem siftUpFrom_stored (hole : Hole q score element C g i) :
    Kept q (q.siftUpFrom score element i) C g ∧
      Stored (q.siftUpFrom score element i) (Set.Icc 1 q.size) C g := by
  fun_induction siftUpFrom score element q i with
  | case1 q i rises ih =>
      have ⟨low, high⟩ := hole.inside
      have ⟨kept, next⟩ := hole.move (j := i / 2) ⟨by omega, by omega⟩ (by omega)
      have ⟨kept', stored⟩ := ih next
      exact ⟨kept.trans kept', stored⟩
  | case2 q i stays => exact ⟨hole.fill, hole.stored⟩

theorem siftDownFrom_stored (hole : Hole q score element C g i) :
    Kept q (q.siftDownFrom score element i) C g ∧
      Stored (q.siftDownFrom score element i) (Set.Icc 1 q.size) C g := by
  fun_induction siftDownFrom score element q i with
  | case1 q i j rises larger ih =>
      have ⟨low, high⟩ := hole.inside
      have ⟨inside, child⟩ := risingChild_le score rises
      have ⟨kept, next⟩ := hole.move (j := j) ⟨by omega, by omega⟩ (by omega)
      have ⟨kept', stored⟩ := ih next
      exact ⟨kept.trans kept', stored⟩
  | case2 q i j rises smaller => exact ⟨hole.fill, hole.stored⟩
  | case3 q i stays => exact ⟨hole.fill, hole.stored⟩

theorem siftUpFrom_ordered (positive : 1 ≤ i) (inside : i ≤ n)
    (rising : BinaryHeap.Rising (q.put i score element).heapScores n i) :
    BinaryHeap.Ordered (q.siftUpFrom score element i).heapScores n := by
  fun_induction siftUpFrom score element q i with
  | case1 q i rises ih =>
      have swapped := swapped_move q score element (show i / 2 ≠ i by omega)
      refine ih (by omega) (by omega) (rising.swap (by omega) inside ?_ swapped)
      rw [heapScores_put_other (by omega), heapScores_put_self]
      exact rises.2
  | case2 q i stays =>
      refine rising.ordered fun several => ?_
      have notAbove : ¬ q.heapScores (i / 2) < score := fun above => stays ⟨by omega, above⟩
      rw [heapScores_put_self, heapScores_put_other (by omega)]
      exact not_lt.mp notAbove

/-- The child that rises is not below its sibling. -/
theorem risingChild_larger {k : ℕ} (rises : q.risingChild score i = some j) (low : 2 ≤ k)
    (high : k ≤ q.size) (child : k / 2 = i) :
    score ≤ q.heapScores j ∧ q.heapScores k ≤ q.heapScores j := by
  have cases : k = 2 * i ∨ k = 2 * i + 1 := by omega
  unfold risingChild at rises
  dsimp only at rises
  split_ifs at rises with both any order single above
  · cases rises
    rcases cases with rfl | rfl
    · exact ⟨any.elim le_of_lt fun right => le_of_lt (lt_trans right order), le_refl _⟩
    · exact ⟨any.elim le_of_lt fun right => le_of_lt (lt_trans right order), le_of_lt order⟩
  · cases rises
    rw [not_lt] at order
    rcases cases with rfl | rfl
    · exact ⟨any.elim (fun left => le_trans (le_of_lt left) order) le_of_lt, order⟩
    · exact ⟨any.elim (fun left => le_trans (le_of_lt left) order) le_of_lt, le_refl _⟩
  · cases rises
    rcases cases with rfl | rfl
    · exact ⟨le_of_lt above, le_refl _⟩
    · omega

theorem risingChild_none {k : ℕ} (stays : q.risingChild score i = none) (low : 2 ≤ k)
    (high : k ≤ q.size) (child : k / 2 = i) : q.heapScores k ≤ score := by
  have cases : k = 2 * i ∨ k = 2 * i + 1 := by omega
  unfold risingChild at stays
  dsimp only at stays
  split_ifs at stays with both any order single above
  · rw [not_or, not_lt, not_lt] at any
    rcases cases with rfl | rfl
    · exact any.1
    · exact any.2
  · rcases cases with rfl | rfl
    · exact not_lt.mp above
    · omega
  · omega

theorem siftDownFrom_ordered (positive : 1 ≤ i)
    (sinking : BinaryHeap.Sinking (q.put i score element).heapScores q.size i) :
    BinaryHeap.Ordered (q.siftDownFrom score element i).heapScores q.size := by
  fun_induction siftDownFrom score element q i with
  | case1 q i j rises larger ih =>
      have ⟨inside, child⟩ := risingChild_le score rises
      have swapped := swapped_move q score element (show j ≠ i by omega)
      refine ih (by omega) (sinking.swap positive inside child ?_ (fun k low high sibling => ?_) swapped)
      · rw [heapScores_put_self, heapScores_put_other (by omega)]
        exact (risingChild_larger rises (by omega) inside child).1
      · rw [heapScores_put_other (by omega), heapScores_put_other (by omega)]
        exact (risingChild_larger rises low high sibling).2
  | case2 q i j rises smaller =>
      have ⟨_, child⟩ := risingChild_le score rises
      omega
  | case3 q i stays =>
      refine sinking.ordered fun k low high child => ?_
      rw [heapScores_put_self, heapScores_put_other (by omega)]
      exact risingChild_none stays low high child

end Stored

end FixedIntDoublePriorityQueue

end Renaissance.CafeSat
