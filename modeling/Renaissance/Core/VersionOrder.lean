import Mathlib.Algebra.Order.Ring.Int
import Mathlib.Order.Interval.Set.OrdConnected
import Renaissance.Core.BenchmarkSuite

/-!
# The order of versions

`compareTo_orders`: the versions are totally ordered by `compareTo`, in the lexicographic order of their
components, and a benchmark is compatible with an interval of them.
-/

namespace Renaissance.Core

/-- A comparison with the signs of a total order. -/
structure Compares {α : Type} (lt : α → α → Prop) (cmp : α → α → ℤ) : Prop where
  zero_iff : ∀ x y, cmp x y = 0 ↔ x = y
  antisymmetric : ∀ x y, cmp y x = -cmp x y
  total : ∀ x y, cmp x y ≤ 0 ∨ cmp y x ≤ 0
  transitive : ∀ x y z, cmp x y ≤ 0 → cmp y z ≤ 0 → cmp x z ≤ 0
  negative_iff : ∀ x y, cmp x y < 0 ↔ lt x y

/-- The signs of a comparison that is negative where a linear order says so. -/
theorem compares_of_neg_iff {α : Type} [LinearOrder α] {cmp : α → α → ℤ}
    (negative : ∀ x y, cmp x y < 0 ↔ x < y) (turned : ∀ x y, cmp y x = -cmp x y) :
    Compares (· < ·) cmp := by
  have nonpositive : ∀ x y, cmp x y ≤ 0 ↔ x ≤ y := by
    intro x y
    rw [← not_lt, ← not_lt, ← negative y x, turned x y, neg_lt_zero]
  refine ⟨fun x y => ?_, turned, fun x y => ?_, fun x y z below below' => ?_, negative⟩
  · rw [le_antisymm_iff, nonpositive, ← neg_nonpos, ← turned x y, nonpositive, ← le_antisymm_iff]
  · rw [nonpositive, nonpositive]
    exact le_total x y
  · rw [nonpositive] at below below' ⊢
    exact below.trans below'

theorem compareComponents_compares : Compares (List.Lex (· < ·)) compareComponents :=
  compares_of_neg_iff compareComponents_neg_iff fun xs ys => (neg_compareComponents xs ys).symm

namespace Version

instance : LinearOrder Version where
  __ := LinearOrder.lift' Version.components components_injective
  lt this that := this < that

theorem compareTo_compares : Compares (· < ·) compareTo :=
  compares_of_neg_iff compareTo_neg_iff fun this that =>
    (neg_compareComponents this.components that.components).symm

/-- The versions between two bounds, each of which may be missing. -/
def interval : Option Version → Option Version → Set Version
  | none, none => Set.univ
  | some least, none => Set.Ici least
  | none, some most => Set.Iic most
  | some least, some most => Set.Icc least most

theorem mem_interval {v : Version} {least most : Option Version} :
    v ∈ interval least most ↔ (∀ that, least = some that → that ≤ v) ∧
      ∀ that, most = some that → v ≤ that := by
  cases least with
  | none => cases most <;> simp [interval]
  | some least => cases most <;> simp [interval]

theorem ordConnected_interval (least most : Option Version) : (interval least most).OrdConnected := by
  cases least with
  | none =>
      cases most with
      | none => exact Set.ordConnected_univ
      | some most => exact Set.ordConnected_Iic
  | some least =>
      cases most with
      | none => exact Set.ordConnected_Ici
      | some most => exact Set.ordConnected_Icc

end Version

/-- The order of the components, in which a proper prefix is smaller. For a benchmark whose bounds can be
read, the compatible versions are an interval. -/
theorem compareTo_orders {parseInt : String → Option ℤ} {descriptor : BenchmarkDescriptor}
    {least most : Option Version} (isLeast : descriptor.jvmVersionMin parseInt = .ok least)
    (isMost : descriptor.jvmVersionMax parseInt = .ok most) :
    Compares (List.Lex (· < ·)) compareComponents ∧
      (∀ xs y ys, compareComponents xs (xs ++ y :: ys) < 0) ∧
      Compares (fun this that : Version => List.Lex (· < ·) this.components that.components)
        Version.compareTo ∧
      (∀ jvmVersion, ∃ isCompatible,
        BenchmarkSuite.isBenchmarkCompatible parseInt jvmVersion descriptor = .ok isCompatible) ∧
      {jvmVersion | BenchmarkSuite.isBenchmarkCompatible parseInt jvmVersion descriptor = .ok true} =
        Version.interval least most ∧
      (Version.interval least most).OrdConnected := by
  have decided : ∀ jvmVersion,
      BenchmarkSuite.isBenchmarkCompatible parseInt jvmVersion descriptor =
        .ok (decide (0 ≤ jvmVersion.compareToOptional least ∧
          jvmVersion.compareToOptional most ≤ 0)) := by
    intro jvmVersion
    rw [BenchmarkSuite.isBenchmarkCompatible, isLeast, isMost]
    rfl
  refine ⟨compareComponents_compares, fun xs y ys => ?_, Version.compareTo_compares,
    fun jvmVersion => ⟨_, decided jvmVersion⟩, ?_, Version.ordConnected_interval least most⟩
  · have smaller : List.Lex (· < ·) (xs ++ []) (xs ++ y :: ys) :=
      List.Lex.append_left (· < ·) List.Lex.nil xs
    rwa [compareComponents_neg_iff, ← List.append_nil xs, List.append_assoc]
  · ext jvmVersion
    rw [Set.mem_ofPred_eq, decided, Except.ok.injEq, decide_eq_true_iff, compareToOptional_nonneg_iff,
      compareToOptional_nonpos_iff, Version.mem_interval]
    simp only [not_lt]

/-- A benchmark that needs version 11. -/
def elevenAndLater : BenchmarkDescriptor where
  benchmarkName := "als"
  benchmarkSettings := [("benchmark.als.jvm_version_min", "11")]
  parameterOverrides := []

theorem compareTo_orders_elevenAndLater :
    {jvmVersion | BenchmarkSuite.isBenchmarkCompatible (fun text => if text = "11" then some 11 else none)
      jvmVersion elevenAndLater = .ok true} = Set.Ici ⟨[11], by decide⟩ := by
  have isLeast : elevenAndLater.jvmVersionMin (fun text => if text = "11" then some 11 else none) =
      .ok (some ⟨[11], by decide⟩) := rfl
  have isMost : elevenAndLater.jvmVersionMax (fun text => if text = "11" then some 11 else none) =
      .ok none := rfl
  exact (compareTo_orders isLeast isMost).2.2.2.2.1

end Renaissance.Core
