import Renaissance.ScalaSat.FixedIntDoublePriorityQueue

/-!
# What the operations of the priority queue do

`Represents q C g` says that the queue holds the numbers in `C`, and that the score of each number is the
one that `g` gives, whether or not it is in the queue.
-/

namespace Renaissance.CafeSat.FixedIntDoublePriorityQueue

open JavaDouble (double)

variable {q : FixedIntDoublePriorityQueue} {S T C D : Set ℕ} {g : ℕ → ℚ} {i j n el : ℕ} {score : ℚ}

theorem Stored.union (stored : Stored q S C g) (other : Stored q T D g) :
    Stored q (S ∪ T) (C ∪ D) g where
  position i inside := by
    rcases inside with inside | inside
    · exact ⟨.inl (stored.position i inside).1, (stored.position i inside).2⟩
    · exact ⟨.inr (other.position i inside).1, (other.position i inside).2⟩
  element el member := by
    rcases member with member | member
    · exact ⟨.inl (stored.element el member).1, (stored.element el member).2⟩
    · exact ⟨.inr (other.element el member).1, (other.element el member).2⟩

theorem Stored.single (stored : Stored q S C g) (inside : i ∈ S) :
    Stored q {i} {q.heapElements i} g where
  position k same := by
    rw [Set.mem_singleton_iff] at same
    subst same
    exact ⟨rfl, (stored.position k inside).2⟩
  element el same := by
    rw [Set.mem_singleton_iff] at same
    subst same
    rw [(stored.position i inside).2.1]
    exact ⟨rfl, rfl⟩

theorem Stored.injective (stored : Stored q S C g) (hi : i ∈ S) (hj : j ∈ S)
    (same : q.heapElements i = q.heapElements j) : i = j := by
  rw [← (stored.position i hi).2.1, same, (stored.position j hj).2.1]

/-- Writing a position as it is. -/
theorem Stored.put_self (stored : Stored q S C g) (inside : i ∈ S) :
    q.put i (q.heapScores i) (q.heapElements i) = q := by
  have index : Function.update q.index (q.heapElements i) i = q.index := by
    rw [Function.update_eq_self_iff]
    exact (stored.position i inside).2.1.symm
  simp only [put, Function.update_eq_self, index]

/-- Two positions change places. -/
theorem Stored.exchange (stored : Stored q S C g) (hi : i ∈ S) (hj : j ∈ S) (different : j ≠ i) :
    Stored ((q.put i (q.heapScores j) (q.heapElements j)).put j (q.heapScores i) (q.heapElements i)) S C g := by
  refine Stored.move ?_ hi hj different
  rw [stored.put_self hi]
  exact stored

/-- The element at a position gets another score. -/
theorem Stored.rescore (stored : Stored q S C g) (score : ℚ) (member : el ∈ C) :
    Stored (q.put (q.index el) score el) S C (Function.update g el score) := by
  have ⟨inside, here⟩ := stored.element el member
  have index : Function.update q.index el (q.index el) = q.index := Function.update_eq_self _ _
  have elements : Function.update q.heapElements (q.index el) el = q.heapElements := by
    rw [Function.update_eq_self_iff]
    exact here.symm
  refine ⟨fun k position => ?_, fun k known => ?_⟩
  · have ⟨mem, same, value⟩ := stored.position k position
    simp only [put, index, elements]
    refine ⟨mem, same, ?_⟩
    by_cases atElement : k = q.index el
    · subst atElement
      rw [Function.update_self, here, Function.update_self]
    · have other : q.heapElements k ≠ el := fun equal => atElement (by rw [← equal, same])
      rw [Function.update_of_ne atElement, Function.update_of_ne other]
      exact value
  · simp only [put, index, elements]
    exact stored.element k known

theorem Stored.congr_score (stored : Stored q S C g) {g' : ℕ → ℚ} (same : ∀ el ∈ C, g' el = g el) :
    Stored q S C g' where
  position i inside := by
    have ⟨member, index, score⟩ := stored.position i inside
    exact ⟨member, index, score.trans (same _ member).symm⟩
  element := stored.element

/-- The queue holds the numbers in `C`, the scores of all are known. -/
structure Represents (q : FixedIntDoublePriorityQueue) (C : Set ℕ) (g : ℕ → ℚ) : Prop where
  size_le : q.size ≤ q.maxSize
  below : ∀ el ∈ C, el < q.maxSize
  heap : Stored q (Set.Icc 1 q.size) C g
  rest : Stored q (Set.Ioc q.size q.maxSize) {el | el < q.maxSize ∧ el ∉ C} g

theorem initial_represents (maxSize : ℕ) :
    Represents (initial maxSize) {el | el < maxSize} fun _ => 0 where
  size_le := le_refl _
  below el member := member
  heap := {
    position i inside := by
      have ⟨low, high⟩ := inside
      simp only [initial] at high ⊢
      refine ⟨?_, ?_, trivial⟩
      · show i - 1 < maxSize
        omega
      · omega
    element el member := by
      rw [Set.mem_ofPred_eq] at member
      refine ⟨⟨?_, ?_⟩, ?_⟩ <;> simp only [initial] <;> omega }
  rest := {
    position i inside := absurd inside.1 (Nat.not_lt.mpr inside.2)
    element el member := absurd member.1 member.2 }

theorem Represents.index_iff (represents : Represents q C g) (inside : el < q.maxSize) :
    q.index el ≤ q.size ↔ el ∈ C := by
  by_cases member : el ∈ C
  · exact iff_of_true (represents.heap.element el member).1.2 member
  · have position := (represents.rest.element el ⟨inside, member⟩).1.1
    exact iff_of_false (Nat.not_le.mpr position) member

theorem Represents.isEmpty_iff (represents : Represents q C g) : q.isEmpty = true ↔ C = ∅ := by
  rw [isEmpty, decide_eq_true_iff, Set.eq_empty_iff_forall_notMem]
  constructor
  · intro empty el member
    have ⟨low, high⟩ := (represents.heap.element el member).1
    omega
  · intro none
    by_contra positive
    exact none _ (represents.heap.position 1 ⟨le_refl 1, by omega⟩).1

/-- The last element of the heap becomes the first one behind it. -/
theorem Represents.shrink (represents : Represents q C g) (positive : 1 ≤ q.size) :
    Represents { q with size := q.size - 1 } (C \ {q.heapElements q.size}) g where
  size_le := (Nat.sub_le _ _).trans represents.size_le
  below el member := represents.below el member.1
  heap := by
    have last : q.size ∈ Set.Icc 1 q.size := ⟨positive, le_refl _⟩
    have positions : Set.Icc 1 q.size \ {q.size} = Set.Icc 1 (q.size - 1) := by
      ext k
      simp only [Set.mem_sdiff, Set.mem_Icc, Set.mem_singleton_iff]
      omega
    exact (positions ▸ represents.heap.remove last).congr (fun _ _ => rfl) (fun _ _ => rfl) fun _ _ => rfl
  rest := by
    have last : q.size ∈ Set.Icc 1 q.size := ⟨positive, le_refl _⟩
    have member := (represents.heap.position q.size last).1
    have inside := represents.below _ member
    have size_le := represents.size_le
    have positions : Set.Ioc q.size q.maxSize ∪ {q.size} = Set.Ioc (q.size - 1) q.maxSize := by
      ext k
      simp only [Set.mem_union, Set.mem_Ioc, Set.mem_singleton_iff]
      omega
    have elements : {el | el < q.maxSize ∧ el ∉ C} ∪ {q.heapElements q.size} =
        {el | el < q.maxSize ∧ el ∉ C \ {q.heapElements q.size}} := by
      ext k
      simp only [Set.mem_union, Set.mem_ofPred_eq, Set.mem_singleton_iff, Set.mem_sdiff]
      by_cases same : k = q.heapElements q.size
      · subst same
        simp [inside]
      · simp [same]
    have both := represents.rest.union (represents.heap.single last)
    rw [positions, elements] at both
    exact both.congr (fun _ _ => rfl) (fun _ _ => rfl) fun _ _ => rfl

/-- A sift within a queue whose other positions are in order. -/
theorem represents_of_sift {q q' : FixedIntDoublePriorityQueue} (size_le : q.size ≤ q.maxSize)
    (below : ∀ el ∈ C, el < q.maxSize)
    (rest : Stored q (Set.Ioc q.size q.maxSize) {el | el < q.maxSize ∧ el ∉ C} g)
    (sifted : Kept q q' C g ∧ Stored q' (Set.Icc 1 q.size) C g) : Represents q' C g := by
  obtain ⟨kept, heap⟩ := sifted
  have others := kept.others _ _ ?_ ?_ rest
  · rw [← kept.size] at heap others size_le
    rw [← kept.maxSize] at others size_le below
    exact ⟨size_le, below, heap, others⟩
  · exact Set.disjoint_left.mpr fun k behind within => absurd within.2 (Nat.not_le.mpr behind.1)
  · exact Set.disjoint_left.mpr fun k foreign member => foreign.2 member

theorem incScore_represents (represents : Represents q C g) (inside : el < q.maxSize) {offset : ℚ}
    (nonneg : 0 ≤ offset) :
    ∃ q', q.incScore el offset = some (q', double (g el + offset)) ∧ q'.maxSize = q.maxSize ∧
      Represents q' C (Function.update g el (double (g el + offset))) := by
  by_cases member : el ∈ C
  · have position := (represents.index_iff inside).mpr member
    have ⟨within, here⟩ := represents.heap.element el member
    have value := (represents.heap.position _ within).2.2
    rw [here] at value
    have hole : Hole q (double (g el + offset)) el C (Function.update g el (double (g el + offset)))
        (q.index el) := ⟨within, represents.heap.rescore _ member⟩
    have sifted := siftUpFrom_stored hole
    refine ⟨_, by simp [incScore, nonneg, position, value, siftUp, here], sifted.1.maxSize, ?_⟩
    refine represents_of_sift represents.size_le represents.below ?_ sifted
    refine represents.rest.congr_score fun other foreign => Function.update_of_ne ?_ _ _
    exact fun same => foreign.2 (same ▸ member)
  · have position := (not_congr (represents.index_iff inside)).mpr member
    have ⟨within, here⟩ := represents.rest.element el ⟨inside, member⟩
    have value := (represents.rest.position _ within).2.2
    rw [here] at value
    have scored := represents.rest.rescore (double (g el + offset)) ⟨inside, member⟩
    refine ⟨{ q with heapScores := Function.update q.heapScores (q.index el) (double (g el + offset)) },
      by simp [incScore, nonneg, position, value], rfl, represents.size_le, represents.below, ?_, ?_⟩
    · refine (represents.heap.congr_score fun other known => Function.update_of_ne ?_ _ _).congr
        (fun k heap => Function.update_of_ne ?_ _ _) (fun _ _ => rfl) fun _ _ => rfl
      · exact fun same => member (same ▸ known)
      · have := heap.2
        omega
    · refine scored.congr (fun _ _ => rfl) (fun k behind => ?_) fun k known => ?_
      · by_cases same : k = q.index el
        · subst same
          simp [put, here]
        · simp [put, Function.update_of_ne same]
      · by_cases same : k = el
        · subst same
          simp [put]
        · simp [put]

/-- The scores are other ones then. -/
theorem rescaleScores_represents (represents : Represents q C g) (factor : ℚ) :
    ∃ g', Represents (q.rescaleScores factor) C g' := by
  refine ⟨fun el => (q.rescaleScores factor).heapScores (q.index el), represents.size_le, represents.below,
    ⟨fun i inside => ?_, represents.heap.element⟩, ⟨fun i inside => ?_, represents.rest.element⟩⟩
  · have ⟨member, index, _⟩ := represents.heap.position i inside
    exact ⟨member, index, by rw [show q.index ((q.rescaleScores factor).heapElements i) = i from index]⟩
  · have ⟨member, index, _⟩ := represents.rest.position i inside
    exact ⟨member, index, by rw [show q.index ((q.rescaleScores factor).heapElements i) = i from index]⟩

/-- A position of the heap and the last one change places, and the heap ends before it. -/
def exchangeLast (q : FixedIntDoublePriorityQueue) (i : ℕ) : FixedIntDoublePriorityQueue :=
  { (q.put i (q.heapScores q.size) (q.heapElements q.size)).put q.size (q.heapScores i) (q.heapElements i)
    with size := q.size - 1 }

theorem Represents.exchangeLast (represents : Represents q C g) (hi : i ∈ Set.Icc 1 q.size)
    (notLast : q.size ≠ i) : Represents (q.exchangeLast i) (C \ {q.heapElements i}) g := by
  have last : q.size ∈ Set.Icc 1 q.size := ⟨hi.1.trans hi.2, le_refl _⟩
  have exchanged := represents.heap.exchange hi last notLast
  have rest : Stored ((q.put i (q.heapScores q.size) (q.heapElements q.size)).put q.size (q.heapScores i)
      (q.heapElements i)) (Set.Ioc q.size q.maxSize) {el | el < q.maxSize ∧ el ∉ C} g := by
    have foreign : ∀ k ∈ Set.Icc 1 q.size, q.heapElements k ∉ {el | el < q.maxSize ∧ el ∉ C} :=
      fun k inside known => known.2 (represents.heap.position k inside).1
    refine (represents.rest.put_other ?_ (foreign _ last)).put_other ?_ (foreign _ hi)
    · exact fun behind => absurd hi.2 (Nat.not_le.mpr behind.1)
    · exact fun behind => absurd behind.1 (lt_irrefl _)
  have swapped : Represents ((q.put i (q.heapScores q.size) (q.heapElements q.size)).put q.size
      (q.heapScores i) (q.heapElements i)) C g :=
    ⟨represents.size_le, represents.below, exchanged, rest⟩
  have shrunk := swapped.shrink last.1
  simp only [put, Function.update_self] at shrunk
  exact shrunk

/-- What `deleteMax` calls `siftDown` on. -/
def beforeSiftDown (q : FixedIntDoublePriorityQueue) : FixedIntDoublePriorityQueue where
  maxSize := q.maxSize
  size := q.size - 1
  heapScores := Function.update (Function.update q.heapScores 0 (q.heapScores 1)) q.size (q.heapScores 1)
  heapElements := Function.update (Function.update (Function.update q.heapElements 0 (q.heapElements 1)) 1
    (q.heapElements q.size)) q.size (q.heapElements 1)
  index := Function.update (Function.update q.index (q.heapElements q.size) 1) (q.heapElements 1) q.size

theorem deleteMax_eq (some : q.size ≠ 0) (several : q.size ≠ 1) : q.deleteMax.1 =
    (beforeSiftDown q).siftDownFrom (q.heapScores q.size) (q.heapElements q.size) 1 := by
  have last : (beforeSiftDown q).heapElements 1 = q.heapElements q.size := by
    simp [beforeSiftDown, Function.update_of_ne (Ne.symm several)]
  rw [← last]
  simp [deleteMax, several, beforeSiftDown, siftDown, save, put, Function.update_of_ne some]

theorem deleteMax_represents (represents : Represents q C g) (some : q.size ≠ 0) :
    q.deleteMax.2 = q.max ∧ q.max ∈ C ∧ q.deleteMax.1.maxSize = q.maxSize ∧
      Represents q.deleteMax.1 (C \ {q.max}) g := by
  have first : 1 ∈ Set.Icc 1 q.size := ⟨le_refl 1, by omega⟩
  have member := (represents.heap.position 1 first).1
  by_cases single : q.size = 1
  · have shrunk := represents.shrink (by omega)
    simp only [deleteMax, single, if_true, max]
    rw [single] at shrunk
    exact ⟨trivial, member, trivial, shrunk⟩
  · have exchanged := represents.exchangeLast first single
    refine ⟨by simp [deleteMax, single, max], member, ?_⟩
    rw [deleteMax_eq some single]
    -- from position `1` to the last but one, it is the queue whose first and last places were exchanged
    have hole : Hole (beforeSiftDown q) (q.heapScores q.size) (q.heapElements q.size) (C \ {q.max}) g 1 := by
      refine ⟨⟨le_refl 1, ?_⟩, exchanged.heap.congr (fun k inside => ?_) (fun k inside => ?_) fun k known => ?_⟩
      · show 1 ≤ q.size - 1
        omega
      · have ⟨low, high⟩ : 1 ≤ k ∧ k ≤ q.size - 1 := inside
        simp only [beforeSiftDown, exchangeLast, put, Function.update_apply]
        split_ifs <;> first | rfl | omega
      · have ⟨low, high⟩ : 1 ≤ k ∧ k ≤ q.size - 1 := inside
        simp only [beforeSiftDown, exchangeLast, put, Function.update_apply]
        split_ifs <;> first | rfl | omega
      · have other : k ≠ q.heapElements 1 := known.2
        simp only [beforeSiftDown, exchangeLast, put, Function.update_apply]
        split_ifs <;> rfl
    have rest : Stored (beforeSiftDown q) (Set.Ioc (q.size - 1) q.maxSize)
        {el | el < q.maxSize ∧ el ∉ C \ {q.max}} g := by
      refine exchanged.rest.congr (fun k inside => ?_) (fun k inside => ?_) fun k known => rfl
      · have low : q.size - 1 < k := inside.1
        simp only [beforeSiftDown, exchangeLast, put, Function.update_apply]
        split_ifs <;> first | rfl | omega
      · have low : q.size - 1 < k := inside.1
        simp only [beforeSiftDown, exchangeLast, put, Function.update_apply]
        split_ifs <;> first | rfl | omega
    have sifted := siftDownFrom_stored hole
    have size_le : q.size - 1 ≤ q.maxSize := exchanged.size_le
    exact ⟨sifted.1.maxSize, represents_of_sift (q := beforeSiftDown q) size_le exchanged.below rest sifted⟩

theorem positions_union_next (n : ℕ) : Set.Icc 1 n ∪ {n + 1} = Set.Icc 1 (n + 1) := by
  ext k
  simp only [Set.mem_union, Set.mem_Icc, Set.mem_singleton_iff]
  omega

theorem positions_behind_next (n m : ℕ) : Set.Ioc n m \ {n + 1} = Set.Ioc (n + 1) m := by
  ext k
  simp only [Set.mem_sdiff, Set.mem_Ioc, Set.mem_singleton_iff]
  omega

/-- The element at the first position behind the heap comes into it. -/
theorem Represents.grow (represents : Represents q C g) (more : q.size < q.maxSize) :
    Represents { q with size := q.size + 1 } (C ∪ {q.heapElements (q.size + 1)}) g := by
  have next : q.size + 1 ∈ Set.Ioc q.size q.maxSize := ⟨Nat.lt_succ_self _, more⟩
  have ⟨inside, foreign⟩ := (represents.rest.position _ next).1
  have others : {el | el < q.maxSize ∧ el ∉ C} \ {q.heapElements (q.size + 1)} =
      {el | el < q.maxSize ∧ el ∉ C ∪ {q.heapElements (q.size + 1)}} := by
    ext k
    simp only [Set.mem_sdiff, Set.mem_union, Set.mem_ofPred_eq, not_or, and_assoc]
  have heap := represents.heap.union (represents.rest.single next)
  have rest := represents.rest.remove next
  rw [positions_union_next] at heap
  rw [positions_behind_next, others] at rest
  refine ⟨more, fun el member => ?_, heap.congr (fun _ _ => rfl) (fun _ _ => rfl) fun _ _ => rfl,
    rest.congr (fun _ _ => rfl) (fun _ _ => rfl) fun _ _ => rfl⟩
  rcases member with member | same
  · exact represents.below el member
  · rw [Set.mem_singleton_iff] at same
    exact same ▸ inside

/-- What `insert` calls `siftUp` on if the element is not right behind the heap. -/
def beforeSiftUp (q : FixedIntDoublePriorityQueue) (el : ℕ) : FixedIntDoublePriorityQueue :=
  { q with
    size := q.size + 1
    heapScores := Function.update q.heapScores 0 (q.heapScores (q.size + 1))
    heapElements := Function.update (Function.update q.heapElements 0 (q.heapElements (q.size + 1)))
      (q.size + 1) el }

theorem insert_eq_behind (represents : Represents q C g) (inside : el < q.maxSize) (new : el ∉ C)
    (behind : q.size + 1 < q.index el) :
    q.insert el = ((beforeSiftUp q el).siftUpFrom (g el) el (q.size + 1)).put (q.index el)
      (((beforeSiftUp q el).siftUpFrom (g el) el (q.size + 1)).heapScores 0)
      (((beforeSiftUp q el).siftUpFrom (g el) el (q.size + 1)).heapElements 0) := by
  have ⟨position, here⟩ := represents.rest.element el ⟨inside, new⟩
  have value := (represents.rest.position _ position).2.2
  rw [here] at value
  have notNext : q.index el ≠ q.size + 1 := by omega
  have notZero : q.index el ≠ 0 := by omega
  simp only [insert, notNext, if_false, behind, if_true, save, siftUp, Function.update_of_ne notZero,
    Function.update_self, here, value]
  rfl

/-- The element that was right behind the heap goes to the place that became free. -/
theorem represents_of_displaced {leaf : ℕ} (below : ∀ el ∈ C, el < q.maxSize)
    (heap : Stored q (Set.Icc 1 q.size) C g)
    (rest : Stored q (Set.Ioc q.size q.maxSize \ {i}) ({el | el < q.maxSize ∧ el ∉ C} \ {leaf}) g)
    (behind : i ∈ Set.Ioc q.size q.maxSize) (inside : leaf < q.maxSize) (new : leaf ∉ C) :
    Represents (q.put i (g leaf) leaf) C g where
  size_le := behind.1.le.trans behind.2
  below := below
  heap := heap.put_other (fun within => absurd within.2 (Nat.not_le.mpr behind.1)) new
  rest := by
    have placed := rest.put_new (i := i) (fun other => other.2 rfl) (fun other => other.2 rfl)
      (Eq.refl (g leaf))
    have known : leaf ∈ {el | el < q.maxSize ∧ el ∉ C} := ⟨inside, new⟩
    rwa [Set.sdiff_union_of_subset (Set.singleton_subset_iff.mpr behind),
      Set.sdiff_union_of_subset (Set.singleton_subset_iff.mpr known)] at placed

theorem insert_eq_next (next : q.index el = q.size + 1) (here : q.heapElements (q.size + 1) = el) :
    q.insert el = siftUpFrom (q.heapScores (q.size + 1)) el { q with size := q.size + 1 } (q.size + 1) := by
  simp only [insert, next, if_true, siftUp, here]

theorem insert_represents_next (represents : Represents q C g) (more : q.size < q.maxSize)
    (next : q.index el = q.size + 1) (here : q.heapElements (q.size + 1) = el) :
    (q.insert el).maxSize = q.maxSize ∧ Represents (q.insert el) (C ∪ {el}) g := by
  have grown := represents.grow more
  rw [here] at grown
  have last : q.size + 1 ∈ Set.Icc 1 (q.size + 1) := ⟨by omega, le_refl _⟩
  have hole : Hole { q with size := q.size + 1 } (q.heapScores (q.size + 1)) el (C ∪ {el}) g
      (q.size + 1) := by
    have self := grown.heap.put_self last
    simp only [here] at self
    refine ⟨last, ?_⟩
    rw [self]
    exact grown.heap
  have sifted := siftUpFrom_stored hole
  rw [insert_eq_next next here]
  exact ⟨sifted.1.maxSize, represents_of_sift (q := { q with size := q.size + 1 }) grown.size_le
    grown.below grown.rest sifted⟩

theorem hole_beforeSiftUp (represents : Represents q C g) (new : el ∉ C) :
    Hole (beforeSiftUp q el) (g el) el (C ∪ {el}) g (q.size + 1) := by
  have placed := represents.heap.put_new (i := q.size + 1) (fun last => by have := last.2; omega) new
    (Eq.refl (g el))
  rw [positions_union_next] at placed
  refine ⟨⟨by omega, le_refl _⟩, placed.congr (fun k low => ?_) (fun k low => ?_) fun k known => rfl⟩
  · have positive := low.1
    simp only [beforeSiftUp, put, Function.update_apply]
    split_ifs <;> first | rfl | omega
  · have positive := low.1
    simp only [beforeSiftUp, put, Function.update_apply]
    split_ifs <;> first | rfl | omega

theorem insert_represents_behind (represents : Represents q C g) (inside : el < q.maxSize) (new : el ∉ C)
    (behind : q.size + 1 < q.index el) :
    (q.insert el).maxSize = q.maxSize ∧ Represents (q.insert el) (C ∪ {el}) g := by
  have ⟨position, here⟩ := represents.rest.element el ⟨inside, new⟩
  have next : q.size + 1 ∈ Set.Ioc q.size q.maxSize := ⟨Nat.lt_succ_self _, behind.le.trans position.2⟩
  have ⟨⟨leafBelow, leafNew⟩, leafIndex, leafScore⟩ := represents.rest.position _ next
  have leafOther : q.heapElements (q.size + 1) ≠ el := by
    intro same
    rw [same] at leafIndex
    omega
  have ⟨kept, heap⟩ := siftUpFrom_stored (hole_beforeSiftUp represents new)
  -- what is neither the new leaf nor the old one stays behind the heap
  have others : Stored (beforeSiftUp q el) (Set.Ioc (q.size + 1) q.maxSize \ {q.index el})
      ({k | k < q.maxSize ∧ k ∉ C ∪ {el}} \ {q.heapElements (q.size + 1)}) g := by
    have removed := (represents.rest.remove next).remove (i := q.index el) ⟨position, behind.ne'⟩
    rw [here] at removed
    have elements : ({k | k < q.maxSize ∧ k ∉ C} \ {q.heapElements (q.size + 1)}) \ {el} =
        {k | k < q.maxSize ∧ k ∉ C ∪ {el}} \ {q.heapElements (q.size + 1)} := by
      ext k
      simp only [Set.mem_sdiff, Set.mem_union, Set.mem_ofPred_eq, Set.mem_singleton_iff, not_or]
      tauto
    rw [positions_behind_next, elements] at removed
    refine removed.congr (fun k other => ?_) (fun k other => ?_) fun k known => rfl
    · have low : q.size + 1 < k := other.1.1
      simp only [beforeSiftUp, Function.update_apply]
      split_ifs <;> first | rfl | omega
    · have low : q.size + 1 < k := other.1.1
      simp only [beforeSiftUp, Function.update_apply]
      split_ifs <;> first | rfl | omega
  -- `insert` saves the displaced element at position `0`, which sifting leaves alone
  have rest := kept.others _ _ ?_ ?_ others
  · have zeroScore : ((beforeSiftUp q el).siftUpFrom (g el) el (q.size + 1)).heapScores 0 =
        g (q.heapElements (q.size + 1)) := by
      rw [kept.zeroScore, ← leafScore]
      simp [beforeSiftUp]
    have zeroElement : ((beforeSiftUp q el).siftUpFrom (g el) el (q.size + 1)).heapElements 0 =
        q.heapElements (q.size + 1) := by
      rw [kept.zeroElement]
      simp [beforeSiftUp]
    have size : ((beforeSiftUp q el).siftUpFrom (g el) el (q.size + 1)).size = q.size + 1 := kept.size
    have maxSize : ((beforeSiftUp q el).siftUpFrom (g el) el (q.size + 1)).maxSize = q.maxSize :=
      kept.maxSize
    rw [insert_eq_behind represents inside new behind, zeroScore, zeroElement]
    refine ⟨maxSize, represents_of_displaced ?_ (size.symm ▸ heap) ?_ ?_ ?_ ?_⟩
    · rw [maxSize]
      rintro k (known | same)
      · exact represents.below k known
      · exact (Set.mem_singleton_iff.mp same).symm ▸ inside
    · rw [size, maxSize]
      exact rest
    · rw [size, maxSize]
      exact ⟨behind, position.2⟩
    · rw [maxSize]
      exact leafBelow
    · rintro (known | same)
      · exact leafNew known
      · exact leafOther same
  · refine Set.disjoint_left.mpr fun k other within => ?_
    have low : q.size + 1 < k := other.1.1
    have high : k ≤ q.size + 1 := within.2
    omega
  · exact Set.disjoint_left.mpr fun k other known => other.1.2 known

theorem insert_represents (represents : Represents q C g) (inside : el < q.maxSize) :
    (q.insert el).maxSize = q.maxSize ∧ Represents (q.insert el) (C ∪ {el}) g := by
  by_cases member : el ∈ C
  · have position := (represents.index_iff inside).mpr member
    have same : q.insert el = q := by
      simp only [insert]
      rw [if_neg (by omega), if_neg (by omega)]
    rw [same, Set.union_singleton, Set.insert_eq_of_mem member]
    exact ⟨rfl, represents⟩
  · have ⟨⟨low, high⟩, here⟩ := represents.rest.element el ⟨inside, member⟩
    -- the element is right behind the heap, or another one is and has to make room
    rcases (Nat.succ_le_of_lt low).eq_or_lt with next | behind
    · rw [← next] at here
      exact insert_represents_next represents (low.trans_le high) next.symm here
    · exact insert_represents_behind represents inside member behind

/-- What `remove` sifts if the element is not the last one of the heap. -/
def beforeSift (q : FixedIntDoublePriorityQueue) (pos : ℕ) : FixedIntDoublePriorityQueue :=
  { q with
    size := q.size - 1
    heapScores := Function.update q.heapScores 0 (q.heapScores pos)
    heapElements := Function.update q.heapElements pos (q.heapElements q.size) }

/-- The last element goes up or down from the place that became free. -/
def siftLast (q : FixedIntDoublePriorityQueue) (pos : ℕ) : FixedIntDoublePriorityQueue :=
  if (beforeSift q pos).heapScores (pos / 2) < q.heapScores q.size then
    (beforeSift q pos).siftUpFrom (q.heapScores q.size) (q.heapElements q.size) pos
  else (beforeSift q pos).siftDownFrom (q.heapScores q.size) (q.heapElements q.size) pos

theorem remove_eq (some' : q.size ≠ 0) (within : q.index el ≤ q.size) (notLast : q.index el ≠ q.size) :
    q.remove el = some ((siftLast q (q.index el)).put ((siftLast q (q.index el)).size + 1)
      ((siftLast q (q.index el)).heapScores 0) el) := by
  simp only [remove, Nat.not_lt.mpr within, if_false, notLast, Function.update_of_ne some', siftLast,
    siftUp, siftDown, Function.update_self]
  rfl

theorem hole_beforeSift (represents : Represents q C g) (hi : i ∈ Set.Icc 1 q.size)
    (notLast : q.size ≠ i) :
    Hole (beforeSift q i) (q.heapScores q.size) (q.heapElements q.size) (C \ {q.heapElements i}) g i := by
  have exchanged := represents.exchangeLast hi notLast
  have ⟨positive, high⟩ := hi
  refine ⟨⟨positive, ?_⟩, exchanged.heap.congr (fun k inside => ?_) (fun k inside => ?_) fun k known => ?_⟩
  · show i ≤ q.size - 1
    omega
  · have low : 1 ≤ k := inside.1
    have before : k ≤ q.size - 1 := inside.2
    simp only [beforeSift, exchangeLast, put, Function.update_apply]
    split_ifs <;> first | rfl | omega
  · have low : 1 ≤ k := inside.1
    have before : k ≤ q.size - 1 := inside.2
    simp only [beforeSift, exchangeLast, put, Function.update_apply]
    split_ifs <;> first | rfl | omega
  · have other : k ≠ q.heapElements i := known.2
    simp only [beforeSift, exchangeLast, put, Function.update_apply]
    split_ifs <;> rfl

theorem siftLast_stored (represents : Represents q C g) (hi : i ∈ Set.Icc 1 q.size)
    (notLast : q.size ≠ i) : Kept (beforeSift q i) (siftLast q i) (C \ {q.heapElements i}) g ∧
      Stored (siftLast q i) (Set.Icc 1 (q.size - 1)) (C \ {q.heapElements i}) g := by
  have hole := hole_beforeSift represents hi notLast
  unfold siftLast
  split
  · exact siftUpFrom_stored hole
  · exact siftDownFrom_stored hole

theorem remove_represents (represents : Represents q C g) (member : el ∈ C) :
    ∃ q', q.remove el = some q' ∧ q'.maxSize = q.maxSize ∧ Represents q' (C \ {el}) g := by
  have ⟨position, here⟩ := represents.heap.element el member
  have value := (represents.heap.position _ position).2.2
  rw [here] at value
  have ⟨low, high⟩ := position
  by_cases last : q.index el = q.size
  · have shrunk := represents.shrink (by omega)
    rw [← last, here, last] at shrunk
    exact ⟨{ q with size := q.size - 1 }, by simp [remove, last], rfl, shrunk⟩
  · have sifted := siftLast_stored represents position (Ne.symm last)
    rw [here] at sifted
    obtain ⟨kept, heap⟩ := sifted
    have size : (siftLast q (q.index el)).size = q.size - 1 := kept.size
    have maxSize : (siftLast q (q.index el)).maxSize = q.maxSize := kept.maxSize
    -- `remove` has saved the score at position `0`
    have zeroScore : (siftLast q (q.index el)).heapScores 0 = g el := by
      rw [kept.zeroScore, ← value]
      simp [beforeSift]
    have others : Stored (beforeSift q (q.index el)) (Set.Ioc q.size q.maxSize)
        {k | k < q.maxSize ∧ k ∉ C} g := by
      refine represents.rest.congr (fun k behind => ?_) (fun k behind => ?_) fun _ _ => rfl
      · have behind := behind.1
        exact Function.update_of_ne (by omega) _ _
      · have behind := behind.1
        exact Function.update_of_ne (by omega) _ _
    have rest := kept.others _ _ ?_ ?_ others
    · have next : (siftLast q (q.index el)).size + 1 = q.size := by omega
      refine ⟨_, remove_eq (by omega) high last, maxSize, ?_⟩
      rw [next, zeroScore]
      refine represents_of_displaced ?_ (size.symm ▸ heap) ?_ ?_ ?_ fun known => known.2 rfl
      · rw [maxSize]
        exact fun k known => represents.below k known.1
      · have positions : Set.Ioc (q.size - 1) q.maxSize \ {q.size} = Set.Ioc q.size q.maxSize := by
          ext k
          simp only [Set.mem_sdiff, Set.mem_Ioc, Set.mem_singleton_iff]
          omega
        have elements : {k | k < q.maxSize ∧ k ∉ C \ {el}} \ {el} = {k | k < q.maxSize ∧ k ∉ C} := by
          ext k
          simp only [Set.mem_sdiff, Set.mem_ofPred_eq, Set.mem_singleton_iff]
          by_cases same : k = el
          · subst same
            simp [member]
          · simp [same]
        rw [size, maxSize, positions, elements]
        exact rest
      · rw [size, maxSize]
        exact ⟨by omega, represents.size_le⟩
      · rw [maxSize]
        exact represents.below el member
    · refine Set.disjoint_left.mpr fun k behind within => ?_
      have low : q.size < k := behind.1
      have high : k ≤ q.size - 1 := within.2
      omega
    · exact Set.disjoint_left.mpr fun k foreign known => foreign.2 known.1

end Renaissance.CafeSat.FixedIntDoublePriorityQueue
