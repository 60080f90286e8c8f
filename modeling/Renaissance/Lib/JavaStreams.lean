import Mathlib.Algebra.Order.Ring.Int
import Mathlib.Data.Finset.Union
import Renaissance.Lib.JavaCollections

/-!
# Streams that are collected

* `collectSet`, `Collects`: the results of all elements in one set, one element after the other or in
  parallel. `Collects.mem` says that where no element fails it makes no difference.
* `Grouping`: the elements of a stream by a key, in whatever order they come.
* `reduce`, `Reduces`: the elements of a stream combined, one after the other or in parallel.
* `arrayGet`: an array that checks its bounds.
-/

namespace JavaStreams

open JavaCollections

/-- A string as the array of its UTF-16 code units. -/
abbrev Text := List UInt16

def text (s : String) : Text :=
  (utf16 s).map UInt16.ofNat

section Collect

variable {α β ε : Type} [DecidableEq β]

/-- `flatMap(f)` followed by `collect(toSet())` on a sequential stream. The first element that fails
ends it. -/
def collectSet (f : α → Except ε (Finset β)) : List α → Except ε (Finset β)
  | [] => .ok ∅
  | x :: xs => do
      let first ← f x
      let rest ← collectSet f xs
      pure (first ∪ rest)

/-- The same on a parallel stream: the elements come in any order and any grouping, and the sets are
merged as they get ready. -/
inductive Collects (f : α → Except ε (Finset β)) : List α → Except ε (Finset β) → Prop
  | empty : Collects f [] (.ok ∅)
  | element (x : α) : Collects f [x] (f x)
  | merge {xs ys : List α} {a b : Finset β} : Collects f xs (.ok a) → Collects f ys (.ok b) →
      Collects f (xs ++ ys) (.ok (a ∪ b))
  | fail {xs : List α} (ys : List α) {e : ε} : Collects f xs (.error e) →
      Collects f (xs ++ ys) (.error e)
  | reorder {xs ys : List α} {outcome : Except ε (Finset β)} : xs.Perm ys → Collects f xs outcome →
      Collects f ys outcome

variable {f : α → Except ε (Finset β)} {P : α → β → Prop} {xs : List α}

theorem collectSet_ok (works : ∀ x ∈ xs, ∃ found, f x = .ok found ∧ ∀ b, b ∈ found ↔ P x b) :
    ∃ found, collectSet f xs = .ok found ∧ ∀ b, b ∈ found ↔ ∃ x ∈ xs, P x b := by
  induction xs with
  | nil => exact ⟨∅, rfl, by simp⟩
  | cons x xs ih =>
      obtain ⟨first, here, mem⟩ := works x List.mem_cons_self
      obtain ⟨rest, collected, mem'⟩ := ih fun y later => works y (List.mem_cons_of_mem x later)
      refine ⟨first ∪ rest, ?_, fun b => ?_⟩
      · rw [collectSet, here, collected]
        rfl
      · rw [Finset.mem_union, mem b, mem' b, List.exists_mem_cons_iff]

/-- What a parallel stream collects, whatever the order. -/
theorem Collects.mem {outcome : Except ε (Finset β)} (collects : Collects f xs outcome)
    (works : ∀ x ∈ xs, ∃ found, f x = .ok found ∧ ∀ b, b ∈ found ↔ P x b) :
    ∃ found, outcome = .ok found ∧ ∀ b, b ∈ found ↔ ∃ x ∈ xs, P x b := by
  induction collects with
  | empty => exact ⟨∅, rfl, by simp⟩
  | element x =>
      obtain ⟨found, here, mem⟩ := works x List.mem_cons_self
      exact ⟨found, here, by simpa using mem⟩
  | merge _ _ ih ih' =>
      obtain ⟨a, same, mem⟩ := ih fun x here => works x (List.mem_append_left _ here)
      obtain ⟨b, same', mem'⟩ := ih' fun x here => works x (List.mem_append_right _ here)
      cases same
      cases same'
      refine ⟨_, rfl, fun z => ?_⟩
      rw [Finset.mem_union, mem z, mem' z]
      simp [or_and_right, exists_or]
  | fail _ _ ih =>
      obtain ⟨_, same, -⟩ := ih fun x here => works x (List.mem_append_left _ here)
      cases same
  | reorder perm _ ih =>
      obtain ⟨found, same, mem⟩ := ih fun x here => works x (perm.mem_iff.mp here)
      exact ⟨found, same, fun b => by simp only [mem b, perm.mem_iff]⟩

/-- The sequential order is one of those that a parallel stream may take. -/
theorem collects_sequential (works : ∀ x ∈ xs, ∃ found, f x = .ok found ∧ ∀ b, b ∈ found ↔ P x b) :
    Collects f xs (collectSet f xs) := by
  induction xs with
  | nil => exact .empty
  | cons x xs ih =>
      have later : ∀ y ∈ xs, ∃ found, f y = .ok found ∧ ∀ b, b ∈ found ↔ P y b :=
        fun y mem => works y (List.mem_cons_of_mem x mem)
      obtain ⟨first, here, -⟩ := works x List.mem_cons_self
      obtain ⟨rest, collected, -⟩ := collectSet_ok later
      have single : Collects f [x] (.ok first) := here ▸ .element x
      have others := ih later
      rw [collected] at others
      rw [collectSet, here, collected]
      exact .merge single others

end Collect

section Group

variable {α κ : Type} [DecidableEq κ]

/-- A map from the keys to the lists of their elements, where neither the order of the keys nor that of
the elements is known: `groupingBy` and `groupingByConcurrent`. -/
structure Grouping (key : α → κ) (elements : List α) (entries : List (κ × List α)) : Prop where
  keys : (entries.map Prod.fst).Perm (elements.map key).dedup
  members : ∀ entry ∈ entries, entry.2.Perm (elements.filter (key · = entry.1))

theorem grouping_groupBy (order : IterationOrder κ) (key : α → κ) (elements : List α) :
    Grouping key elements (groupBy order key elements) where
  keys := by
    rw [groupBy, List.map_map]
    simpa [Function.comp_def] using order.perm (elements.map key).dedup
  members entry mem := (mem_groupBy.mp mem).2 ▸ List.Perm.refl _

/-- The elements whose key passes a test. -/
theorem Grouping.mem_flatMap {key : α → κ} {elements : List α} {entries : List (κ × List α)}
    (grouping : Grouping key elements entries) (p : κ → Bool) (x : α) :
    x ∈ (entries.filter fun entry => p entry.1).flatMap Prod.snd ↔
      x ∈ elements ∧ p (key x) = true := by
  simp only [List.mem_flatMap, List.mem_filter]
  constructor
  · rintro ⟨entry, ⟨mem, passes⟩, member⟩
    have found := (grouping.members entry mem).mem_iff.mp member
    rw [List.mem_filter, decide_eq_true_iff] at found
    exact ⟨found.1, found.2 ▸ passes⟩
  · rintro ⟨mem, passes⟩
    have listed : key x ∈ entries.map Prod.fst := by
      rw [grouping.keys.mem_iff, List.mem_dedup]
      exact List.mem_map_of_mem mem
    obtain ⟨entry, here, same⟩ := List.mem_map.mp listed
    refine ⟨entry, ⟨here, same ▸ passes⟩, (grouping.members entry here).mem_iff.mpr ?_⟩
    rw [List.mem_filter, decide_eq_true_iff]
    exact ⟨mem, same.symm⟩

end Group

/-- `reduce(f)`. An empty stream has no result. -/
def reduce {α : Type} (f : α → α → α) : List α → Option α
  | [] => none
  | x :: xs => some (xs.foldl f x)

theorem reduce_add {xs : List ℤ} (some' : xs ≠ []) : reduce (· + ·) xs = some xs.sum := by
  obtain ⟨x, xs, rfl⟩ := List.exists_cons_of_ne_nil some'
  rw [reduce, List.sum_eq_foldl, List.foldl_cons, zero_add]

section Reduce

variable {α : Type} {f : α → α → α} {xs ys : List α}

/-- The same on a parallel stream: parts of it are combined on their own. -/
inductive Reduces (f : α → α → α) : List α → Option α → Prop
  | empty : Reduces f [] none
  | element (x : α) : Reduces f [x] (some x)
  | merge {xs ys : List α} {a b : Option α} : Reduces f xs a → Reduces f ys b →
      Reduces f (xs ++ ys) (a.merge f b)

theorem reduce_append [Std.Associative f] (xs ys : List α) :
    reduce f (xs ++ ys) = (reduce f xs).merge f (reduce f ys) := by
  cases xs with
  | nil => rw [List.nil_append, reduce, Option.merge_none_left]
  | cons x xs =>
      cases ys with
      | nil => rw [List.append_nil, reduce, reduce, Option.merge_none_right]
      | cons y ys =>
          rw [List.cons_append, reduce, reduce, reduce, Option.merge_some_some, List.foldl_append,
            List.foldl_cons, List.foldl_assoc]

/-- The parts do not matter. -/
theorem Reduces.eq_reduce [Std.Associative f] {a : Option α} (reduces : Reduces f xs a) :
    a = reduce f xs := by
  induction reduces with
  | empty => rfl
  | element x => rfl
  | merge _ _ ih ih' => rw [reduce_append, ih, ih']

/-- The elements one after the other are one way of taking parts. -/
theorem reduces_reduce (f : α → α → α) (xs : List α) : Reduces f xs (reduce f xs) := by
  induction xs using List.reverseRecOn with
  | nil => exact .empty
  | append_singleton xs x ih =>
      have last := ih.merge (.element x)
      cases xs with
      | nil => exact last
      | cons y xs =>
          rw [reduce, Option.merge_some_some] at last
          rw [List.cons_append, reduce, List.foldl_append]
          exact last

theorem reduce_perm [Std.Associative f] [Std.Commutative f] (perm : xs.Perm ys) :
    reduce f xs = reduce f ys := by
  induction perm with
  | nil => rfl
  | cons x _ ih => rw [← List.singleton_append, reduce_append, ih, ← reduce_append, List.singleton_append]
  | swap x y xs =>
      have swapped : f y x = f x y := Std.Commutative.comm y x
      rw [reduce, reduce, List.foldl_cons, List.foldl_cons, swapped]
  | trans _ _ ih ih' => rw [ih, ih']

theorem reduce_max [Max α] (xs : List α) : reduce max xs = xs.max? := by
  cases xs <;> rfl

end Reduce

/-- `array[index]`. The message is that of an `ArrayIndexOutOfBoundsException`. -/
def arrayGet (array : List ℤ) (index : ℤ) : Except String ℤ :=
  if 0 ≤ index then
    match array[index.toNat]? with
    | some value => .ok value
    | none =>
        let length := array.length
        .error s!"Index {index} out of bounds for length {length}"
  else
    let length := array.length
    .error s!"Index {index} out of bounds for length {length}"

theorem arrayGet_ok {array : List ℤ} {i : ℕ} (inside : i < array.length) :
    arrayGet array i = .ok array[i] := by
  rw [arrayGet, if_pos (Int.natCast_nonneg i), Int.toNat_natCast, List.getElem?_eq_getElem inside]

end JavaStreams
