import Mathlib.Data.List.Lex
import Renaissance.Lib.JavaString

/-!
# Versions

`Version` of the core: numbers separated by dots. `compareTo_neg_iff` and `compareTo_pos_iff` say that
`compareTo` is the lexicographic order of the components.
-/

namespace Renaissance.Core

/-- A version whose numbers are not negative. -/
structure Version where
  components : List ℤ
  nonnegative : ∀ c ∈ components, 0 ≤ c

/-- `Integer.compare`. -/
def compare (x y : ℤ) : ℤ :=
  if x < y then -1 else if x = y then 0 else 1

/-- The first components that differ decide, or else the numbers of components. -/
def compareComponents (these those : List ℤ) : ℤ :=
  match (these.zip those).find? fun pair => pair.1 ≠ pair.2 with
  | some (thisComponent, thatComponent) => compare thisComponent thatComponent
  | none => compare these.length those.length

namespace Version

-- `Integer.parseInt`, of which nothing is used
variable (parseInt : String → Option ℤ)

/-- The message is that of an `IllegalArgumentException`. -/
def parse (version : String) : Except String Version :=
  match (JavaString.split '.' version.toList).mapM parseInt with
  | none => .error "illegal version format"
  | some components =>
      if nonnegative : ∀ c ∈ components, 0 ≤ c then .ok ⟨components, nonnegative⟩
      else .error "illegal version format"

instance : ToString Version where
  toString version := ".".intercalate (version.components.map toString)

def compareTo (this that : Version) : ℤ :=
  compareComponents this.components that.components

/-- A version that is missing compares as equal. -/
def compareToOptional (this : Version) (maybeThat : Option Version) : ℤ :=
  (maybeThat.map this.compareTo).getD 0

/-- The lexicographic order of the components. -/
instance : LT Version where
  lt this that := List.Lex (· < ·) this.components that.components

end Version

theorem compare_neg_iff {x y : ℤ} : compare x y < 0 ↔ x < y := by
  unfold compare
  split_ifs <;> omega

theorem neg_compare (x y : ℤ) : -compare x y = compare y x := by
  unfold compare
  split_ifs <;> omega

theorem compareComponents_cons (x y : ℤ) (xs ys : List ℤ) :
    compareComponents (x :: xs) (y :: ys) =
      if x = y then compareComponents xs ys else compare x y := by
  unfold compareComponents
  rw [List.zip_cons_cons, List.find?_cons]
  by_cases same : x = y <;> simp [same, compare]

@[simp] theorem compareComponents_self (xs : List ℤ) : compareComponents xs xs = 0 := by
  induction xs with
  | nil => rfl
  | cons x xs ih => rw [compareComponents_cons, if_pos rfl, ih]

theorem neg_compareComponents (xs ys : List ℤ) :
    -compareComponents xs ys = compareComponents ys xs := by
  induction xs generalizing ys with
  | nil => simp [compareComponents, neg_compare]
  | cons x xs ih =>
      cases ys with
      | nil => simp [compareComponents, neg_compare]
      | cons y ys =>
          rw [compareComponents_cons, compareComponents_cons, apply_ite Neg.neg, ih, neg_compare]
          simp only [eq_comm]

theorem compareComponents_neg_iff (xs ys : List ℤ) :
    compareComponents xs ys < 0 ↔ List.Lex (· < ·) xs ys := by
  induction xs generalizing ys with
  | nil => cases ys <;> simp [compareComponents, compare_neg_iff]
  | cons x xs ih =>
      cases ys with
      | nil => simp [compareComponents, compare_neg_iff]; omega
      | cons y ys =>
          rw [compareComponents_cons, List.cons_lex_cons_iff]
          by_cases same : x = y
          · rw [if_pos same, ih]
            simp [same]
          · rw [if_neg same, compare_neg_iff]
            simp [same]

namespace Version

theorem components_injective : Function.Injective Version.components := by
  rintro ⟨xs, _⟩ ⟨ys, _⟩ same
  cases same
  rfl

theorem compareTo_neg_iff (this that : Version) : compareTo this that < 0 ↔ this < that :=
  compareComponents_neg_iff this.components that.components

theorem compareTo_pos_iff (this that : Version) : 0 < compareTo this that ↔ that < this := by
  rw [← compareTo_neg_iff that this, compareTo, compareTo, ← neg_compareComponents]
  omega

end Version

end Renaissance.Core
