import Mathlib.Data.List.Basic
import Renaissance.Lib.Transition

/-!
# Snapshots of feeds

A `FeedBuffer` is an array that grows. Its snapshots refer to the array that it has at the time, and are
traversed later, while messages are appended. Arrays are lists of cells here, referred to by their places
in `arrays`.

Result: `traversal_yields` says that a traversal yields what was in the buffer when the snapshot was taken.
-/

namespace Renaissance.FeedBuffer

open Transition

/-- An array reference and the number of elements that `take` leaves. -/
structure Snapshot where
  array : ℕ
  length : ℕ

/-- A traversal of a snapshot, with the elements so far. An empty cell comes out as `none`. -/
structure Traversal (α : Type) where
  snapshot : ℕ
  position : ℕ
  yielded : List (Option α)

structure State (α : Type) where
  arrays : List (List (Option α))
  array : ℕ
  length : ℕ
  snapshots : List Snapshot
  traversals : List (Traversal α)

inductive Move (α : Type) where
  | grow (capacity : ℕ)
  | append (elem : α)
  | snapshotView
  | iterate (snapshot : ℕ)
  | next (traversal : ℕ)

variable {α : Type}

/-- `new FeedBuffer[A](initialSize)`. -/
def new (initialSize : ℕ) : State α where
  arrays := [List.replicate initialSize none]
  array := 0
  length := 0
  snapshots := []
  traversals := []

namespace State

def cells (s : State α) (array : ℕ) : List (Option α) :=
  (s.arrays[array]?).getD []

/-- All elements are copied to a larger array. -/
def grow (capacity : ℕ) (s : State α) : Option (State α) :=
  let elements := (s.cells s.array).take s.length
  if (s.cells s.array).length < capacity then
    some { s with
      arrays := s.arrays ++ [elements ++ List.replicate (capacity - elements.length) none]
      array := s.arrays.length }
  else none

/-- There must be room in the array. -/
def append (elem : α) (s : State α) : Option (State α) :=
  if s.length < (s.cells s.array).length then
    some { s with
      arrays := s.arrays.set s.array ((s.cells s.array).set s.length (some elem))
      length := s.length + 1 }
  else none

def snapshotView (s : State α) : State α :=
  { s with snapshots := s.snapshots ++ [⟨s.array, s.length⟩] }

/-- A new traversal starts. -/
def iterate (snapshot : ℕ) (s : State α) : Option (State α) :=
  if snapshot < s.snapshots.length then
    some { s with traversals := s.traversals ++ [⟨snapshot, 0, []⟩] }
  else none

/-- `hasNext`, and if there is one, `next`. -/
def next (traversal : ℕ) (s : State α) : Option (State α) := do
  let t ← s.traversals[traversal]?
  let view ← s.snapshots[t.snapshot]?
  if t.position < view.length then
    let elem ← (s.cells view.array)[t.position]?
    some { s with
      traversals := s.traversals.set traversal
        { t with position := t.position + 1, yielded := t.yielded ++ [elem] } }
  else none

end State

def step : Move α → State α → Option (State α)
  | .grow capacity, s => s.grow capacity
  | .append elem, s => s.append elem
  | .snapshotView, s => some s.snapshotView
  | .iterate snapshot, s => s.iterate snapshot
  | .next traversal, s => s.next traversal

/-! ## What is in the buffer -/

/-- The element that a move appends. -/
def Move.elem? : Move α → Option α
  | .append elem => some elem
  | _ => none

/-- The elements that a schedule appends. -/
def appended (schedule : List (Move α)) : List α :=
  schedule.filterMap Move.elem?

/-- The elements that are in the buffer. -/
def State.elements (s : State α) : List (Option α) :=
  (s.cells s.array).take s.length

/-- The buffer contains the elements, and traversals are of snapshots that were taken. -/
structure Contains (s : State α) (elements : List α) : Prop where
  allocated : s.array < s.arrays.length
  room : s.length ≤ (s.cells s.array).length
  contents : s.elements = elements.map some
  traversals : ∀ t ∈ s.traversals, t.snapshot < s.snapshots.length

/-- A snapshot refers to the elements, which nothing will overwrite. Its traversals have yielded the first
ones of them. -/
structure Keeps (s : State α) (k : ℕ) (elements : List α) (view : Snapshot) : Prop where
  snapshot : s.snapshots[k]? = some view
  length : view.length = elements.length
  contents : (s.cells view.array).take view.length = elements.map some
  allocated : view.array < s.arrays.length
  below : view.array = s.array → view.length ≤ s.length
  yielded : ∀ t ∈ s.traversals, t.snapshot = k →
    t.position ≤ elements.length ∧ t.yielded = (elements.take t.position).map some

section Steps

variable {s s' : State α} {elements : List α} {k : ℕ} {view : Snapshot}

theorem grow_cases {capacity : ℕ} (grows : s.grow capacity = some s') :
    s' = { s with
      arrays := s.arrays ++ [(s.cells s.array).take s.length ++
        List.replicate (capacity - ((s.cells s.array).take s.length).length) none]
      array := s.arrays.length } := by
  obtain ⟨-, same⟩ := Option.ite_none_right_eq_some.mp grows
  exact (Option.some.inj same).symm

theorem append_cases {elem : α} (appends : s.append elem = some s') :
    s.length < (s.cells s.array).length ∧ s' = { s with
      arrays := s.arrays.set s.array ((s.cells s.array).set s.length (some elem))
      length := s.length + 1 } := by
  obtain ⟨room, same⟩ := Option.ite_none_right_eq_some.mp appends
  exact ⟨room, (Option.some.inj same).symm⟩

theorem iterate_cases {snapshot : ℕ} (starts : s.iterate snapshot = some s') :
    snapshot < s.snapshots.length ∧
      s' = { s with traversals := s.traversals ++ [⟨snapshot, 0, []⟩] } := by
  obtain ⟨there, same⟩ := Option.ite_none_right_eq_some.mp starts
  exact ⟨there, (Option.some.inj same).symm⟩

theorem next_cases {traversal : ℕ} (goes : s.next traversal = some s') :
    ∃ t view elem, s.traversals[traversal]? = some t ∧ s.snapshots[t.snapshot]? = some view ∧
      t.position < view.length ∧ (s.cells view.array)[t.position]? = some elem ∧
      s' = { s with
        traversals := s.traversals.set traversal
          { t with position := t.position + 1, yielded := t.yielded ++ [elem] } } := by
  obtain ⟨t, isTraversal, goes⟩ := Option.bind_eq_some_iff.mp goes
  obtain ⟨view, isView, goes⟩ := Option.bind_eq_some_iff.mp goes
  obtain ⟨more, goes⟩ := Option.ite_none_right_eq_some.mp goes
  obtain ⟨elem, isElem, same⟩ := Option.bind_eq_some_iff.mp goes
  exact ⟨t, view, elem, isTraversal, isView, more, isElem, (Option.some.inj same).symm⟩

/-- The other arrays are not copied to. -/
theorem cells_append (s : State α) {array : ℕ} (old : array < s.arrays.length)
    (cells : List (Option α)) : ((s.arrays ++ [cells])[array]?).getD [] = s.cells array := by
  rw [List.getElem?_append_left old]
  rfl

/-- Writing at the end leaves what is before it. -/
theorem take_cells_set (s : State α) {array n : ℕ} (below : array = s.array → n ≤ s.length)
    (elem : α) :
    (((s.arrays.set s.array ((s.cells s.array).set s.length (some elem)))[array]?).getD []).take n =
      (s.cells array).take n := by
  rw [List.getElem?_set]
  split_ifs with same allocated
  · subst same
    rw [Option.getD_some, List.take_set_of_le (below rfl)]
  · subst same
    rw [State.cells, List.getElem?_eq_none (not_lt.mp allocated)]
  · rfl

/-- A traversal of the snapshot goes on with the element at its position. -/
theorem Keeps.next {traversal : ℕ} (keeps : Keeps s k elements view)
    (goes : s.next traversal = some s') : Keeps s' k elements view := by
  obtain ⟨t, view', elem, isTraversal, isView, more, isElem, rfl⟩ := next_cases goes
  refine { keeps with yielded := fun t' mem isOf => ?_ }
  rcases List.mem_or_eq_of_mem_set mem with old | rfl
  · exact keeps.yielded t' old isOf
  · obtain ⟨-, yielded⟩ := keeps.yielded t (List.mem_of_getElem? isTraversal) isOf
    obtain rfl : view' = view := by
      rw [isOf, keeps.snapshot] at isView
      exact (Option.some.inj isView).symm
    have small : t.position < elements.length := keeps.length ▸ more
    have isNext : elem = some elements[t.position] := by
      have found := congrArg (·[t.position]?) keeps.contents
      rw [List.getElem?_take_of_lt more, isElem] at found
      simpa [small] using found
    refine ⟨small, ?_⟩
    rw [List.take_add_one, List.map_append, ← yielded, isNext]
    simp [small]

theorem Keeps.step {move : Move α} (keeps : Keeps s k elements view)
    (moves : step move s = some s') : Keeps s' k elements view := by
  cases move with
  | grow capacity =>
      obtain rfl := grow_cases moves
      refine { keeps with contents := ?_, allocated := ?_, below := fun same => ?_ }
      · rw [State.cells, cells_append s keeps.allocated]
        exact keeps.contents
      · rw [List.length_append]
        exact Nat.lt_add_right _ keeps.allocated
      · exact absurd same keeps.allocated.ne
  | append elem =>
      obtain ⟨-, rfl⟩ := append_cases moves
      refine { keeps with contents := ?_, allocated := ?_, below := fun same => ?_ }
      · rw [State.cells, take_cells_set s keeps.below]
        exact keeps.contents
      · rw [List.length_set]
        exact keeps.allocated
      · exact Nat.le_succ_of_le (keeps.below same)
  | snapshotView =>
      cases moves
      refine { keeps with snapshot := ?_ }
      have old := (List.getElem?_eq_some_iff.mp keeps.snapshot).1
      rw [State.snapshotView, List.getElem?_append_left old]
      exact keeps.snapshot
  | iterate snapshot =>
      obtain ⟨-, rfl⟩ := iterate_cases moves
      refine { keeps with yielded := fun t mem isOf => ?_ }
      rcases List.mem_append.mp mem with old | isNew
      · exact keeps.yielded t old isOf
      · obtain rfl := List.mem_singleton.mp isNew
        exact ⟨Nat.zero_le _, rfl⟩
  | next traversal => exact keeps.next moves

/-- The elements are copied. -/
theorem Contains.grow {capacity : ℕ} (contains : Contains s elements)
    (grows : s.grow capacity = some s') : Contains s' elements := by
  obtain rfl := grow_cases grows
  have copied : (s.arrays ++ [(s.cells s.array).take s.length ++
      List.replicate (capacity - ((s.cells s.array).take s.length).length) none])[s.arrays.length]? =
      some ((s.cells s.array).take s.length ++
        List.replicate (capacity - ((s.cells s.array).take s.length).length) none) :=
    List.getElem?_concat_length
  have kept : ((s.cells s.array).take s.length).length = s.length :=
    List.length_take_of_le contains.room
  refine { allocated := ?_, room := ?_, contents := ?_, traversals := contains.traversals }
  · rw [List.length_append]
    exact Nat.lt_succ_self _
  · show s.length ≤ (Option.getD (s.arrays ++ [_])[s.arrays.length]? []).length
    rw [copied, Option.getD_some, List.length_append, kept]
    exact Nat.le_add_right _ _
  · show (Option.getD (s.arrays ++ [_])[s.arrays.length]? []).take s.length = _
    rw [copied, Option.getD_some, List.take_left' kept]
    exact contains.contents

/-- The element comes after the others. -/
theorem Contains.append {elem : α} (contains : Contains s elements)
    (appends : s.append elem = some s') : Contains s' (elements ++ [elem]) := by
  obtain ⟨room, rfl⟩ := append_cases appends
  have before : (s.cells s.array).take s.length = elements.map some := contains.contents
  have written : (s.arrays.set s.array ((s.cells s.array).set s.length (some elem)))[s.array]? =
      some ((s.cells s.array).set s.length (some elem)) :=
    List.getElem?_set_self contains.allocated
  refine { allocated := ?_, room := ?_, contents := ?_, traversals := contains.traversals }
  · rw [List.length_set]
    exact contains.allocated
  · show s.length + 1 ≤ (Option.getD (s.arrays.set s.array _)[s.array]? []).length
    rw [written, Option.getD_some, List.length_set]
    exact room
  · show (Option.getD (s.arrays.set s.array _)[s.array]? []).take (s.length + 1) = _
    rw [written, Option.getD_some, List.take_add_one, List.take_set_of_le le_rfl, before,
      List.getElem?_set_self room, List.map_append]
    rfl

theorem Contains.step {move : Move α} (contains : Contains s elements)
    (moves : step move s = some s') : Contains s' (elements ++ move.elem?.toList) := by
  cases move with
  | grow capacity =>
      simp only [Move.elem?, Option.toList_none, List.append_nil]
      exact contains.grow moves
  | append elem => exact contains.append moves
  | snapshotView =>
      cases moves
      simp only [Move.elem?, Option.toList_none, List.append_nil]
      refine { contains with traversals := fun t mem => ?_ }
      rw [State.snapshotView, List.length_append]
      exact Nat.lt_add_right _ (contains.traversals t mem)
  | iterate snapshot =>
      obtain ⟨there, rfl⟩ := iterate_cases moves
      simp only [Move.elem?, Option.toList_none, List.append_nil]
      refine { contains with traversals := fun t mem => ?_ }
      rcases List.mem_append.mp mem with old | isNew
      · exact contains.traversals t old
      · obtain rfl := List.mem_singleton.mp isNew
        exact there
  | next traversal =>
      obtain ⟨t, view', elem, isTraversal, -, -, -, rfl⟩ := next_cases moves
      simp only [Move.elem?, Option.toList_none, List.append_nil]
      refine { contains with traversals := fun t' mem => ?_ }
      rcases List.mem_or_eq_of_mem_set mem with old | rfl
      · exact contains.traversals t' old
      · exact contains.traversals t (List.mem_of_getElem? isTraversal)

theorem contains_new (initialSize : ℕ) : Contains (new initialSize : State α) [] where
  allocated := Nat.zero_lt_one
  room := Nat.zero_le _
  contents := rfl
  traversals t mem := by cases mem

theorem Contains.run {schedule : List (Move α)} (contains : Contains s elements)
    (ran : run Renaissance.FeedBuffer.step schedule s = some s') :
    Contains s' (elements ++ appended schedule) := by
  induction schedule generalizing s elements with
  | nil =>
      cases ran
      simpa [appended] using contains
  | cons move schedule ih =>
      obtain ⟨next, moves, rest⟩ := Option.bind_eq_some_iff.mp ran
      have later := ih (contains.step moves) rest
      rw [List.append_assoc] at later
      have split : appended (move :: schedule) = move.elem?.toList ++ appended schedule := by
        rw [appended, List.filterMap_cons]
        cases move.elem? <;> rfl
      rwa [split]

theorem Keeps.run {schedule : List (Move α)} (keeps : Keeps s k elements view)
    (ran : run Renaissance.FeedBuffer.step schedule s = some s') : Keeps s' k elements view :=
  run_invariant (I := fun s => Keeps s k elements view) (fun _ _ _ holds moves => holds.step moves)
    schedule keeps ran

/-- A new snapshot is of what is in the buffer. -/
theorem Contains.snapshotView (contains : Contains s elements) :
    Keeps s.snapshotView s.snapshots.length elements ⟨s.array, s.length⟩ where
  snapshot := List.getElem?_concat_length
  length := by
    have same := congrArg List.length contains.contents
    rwa [State.elements, List.length_take_of_le contains.room, List.length_map] at same
  contents := contains.contents
  allocated := contains.allocated
  below _ := le_rfl
  yielded t mem isOf := absurd isOf (contains.traversals t mem).ne

/-- A traversal goes on until it has yielded all elements. -/
theorem Keeps.next_isSome {t : Traversal α} {i : ℕ} (keeps : Keeps s k elements view)
    (isTraversal : s.traversals[i]? = some t) (ofIt : t.snapshot = k) :
    (s.next i).isSome ↔ t.position < elements.length := by
  rw [← keeps.length]
  constructor
  · intro goes
    obtain ⟨s', goes⟩ := Option.isSome_iff_exists.mp goes
    obtain ⟨t', view', -, isTraversal', isView, more, -, -⟩ := next_cases goes
    obtain rfl := Option.some.inj (isTraversal.symm.trans isTraversal')
    rw [ofIt, keeps.snapshot] at isView
    obtain rfl := Option.some.inj isView
    exact more
  · intro more
    have cells := congrArg List.length keeps.contents
    rw [List.length_take, List.length_map, ← keeps.length] at cells
    have inside : t.position < (s.cells view.array).length :=
      more.trans_le (min_eq_left_iff.mp cells)
    simp [State.next, isTraversal, ofIt, keeps.snapshot, more, inside]

end Steps

/-! ## Traversals of a snapshot -/

/-- Whatever is appended in the meantime and whichever traversals go on, a traversal has yielded the first
elements that were in the buffer when the snapshot was taken, and goes on until these are all. -/
theorem traversal_yields {initialSize : ℕ} {before later : List (Move α)} {s₀ s : State α} {i : ℕ}
    {t : Traversal α} (reached : run step before (new initialSize) = some s₀)
    (ran : run step later s₀.snapshotView = some s) (isTraversal : s.traversals[i]? = some t)
    (ofIt : t.snapshot = s₀.snapshots.length) :
    s₀.elements = (appended before).map some ∧ t.yielded = s₀.elements.take t.position ∧
      t.yielded.length = t.position ∧
      ((s.next i).isSome ↔ t.position < s₀.elements.length) := by
  have contains : Contains s₀ (appended before) := (contains_new initialSize).run reached
  have keeps := contains.snapshotView.run ran
  obtain ⟨small, yielded⟩ := keeps.yielded t (List.mem_of_getElem? isTraversal) ofIt
  rw [List.map_take, ← contains.contents] at yielded
  have long : s₀.elements.length = (appended before).length := by
    rw [contains.contents, List.length_map]
  refine ⟨contains.contents, yielded, ?_, ?_⟩
  · rw [yielded, List.length_take_of_le (long ▸ small)]
  · rw [long]
    exact keeps.next_isSome isTraversal ofIt

/-- The buffer is full when the snapshot is taken, and moves to a larger array during the traversal. -/
theorem traversal_yields_first :
    [some 1] = ([1] : List ℕ).map some ∧ [some 1] = [some 1].take 1 ∧ [some 1].length = 1 ∧
      ((State.next 0 ⟨[[some 1], [some 1, some 2, none]], 1, 2, [⟨0, 1⟩], [⟨0, 1, [some 1]⟩]⟩).isSome ↔
        1 < [some 1].length) := by
  have reached : run step [.append 1] (new 1) = some (⟨[[some 1]], 0, 1, [], []⟩ : State ℕ) := rfl
  have ran : run step [.iterate 0, .grow 3, .append 2, .next 0]
      (State.snapshotView (⟨[[some 1]], 0, 1, [], []⟩ : State ℕ)) =
        some ⟨[[some 1], [some 1, some 2, none]], 1, 2, [⟨0, 1⟩], [⟨0, 1, [some 1]⟩]⟩ := rfl
  have isTraversal : ([⟨0, 1, [some 1]⟩] : List (Traversal ℕ))[0]? = some ⟨0, 1, [some 1]⟩ := rfl
  exact traversal_yields reached ran isTraversal rfl

end Renaissance.FeedBuffer
