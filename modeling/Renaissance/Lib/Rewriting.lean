import Mathlib.Logic.Relation
import Mathlib.Order.Basic

/-!
# Rewriting

* `Normalizes`: what any sequence of steps comes to, if it comes to an end.
* `untilFixed`: a loop that rewrites until nothing changes. `untilFixed_returns` says that it ends, and
  `Normalizes.untilFixed_eq` what it returns, whichever of the possible steps it takes.
-/

namespace Rewriting

variable {α : Type}

/-- No step changes the normal form, and what has no further step is its own. -/
structure Normalizes (step : α → α → Prop) (normal : α → α) : Prop where
  keeps : ∀ a b, step a b → normal b = normal a
  final : ∀ a, (∀ b, ¬step a b) → normal a = a

section Loop

variable [DecidableEq α] (f : α → α)

/-- `do { last = result; result = f(result); } while (last != result)`, for a number of rounds. -/
def untilFixed : ℕ → α → Option α
  | 0, _ => none
  | rounds + 1, last =>
      let result := f last
      if last = result then some result else untilFixed rounds result

variable {f}

/-- The loop ends if a round that changes the value lowers its size, and what a round keeps holds of the
result. -/
theorem untilFixed_returns (inv : α → Prop) (size : α → ℕ) (kept : ∀ a, inv a → inv (f a))
    (lower : ∀ a, size (f a) < size a ∨ f a = a) {rounds : ℕ} {a : α} (start : inv a) (enough : size a < rounds) :
    ∃ b, untilFixed f rounds a = some b ∧ inv b ∧ f b = b := by
  induction rounds generalizing a with
  | zero => exact absurd enough (Nat.not_lt_zero _)
  | succ rounds ih =>
      rw [untilFixed]
      rcases lower a with less | same
      · have changes : a ≠ f a := fun same => Nat.ne_of_lt less (congrArg size same.symm)
        rw [if_neg changes]
        exact ih (kept a start) (Nat.lt_of_lt_of_le less (Nat.le_of_lt_succ enough))
      · rw [if_pos same.symm, same]
        exact ⟨a, rfl, start, same⟩

end Loop

variable {step : α → α → Prop} {normal : α → α} {a b : α}

theorem Normalizes.keeps_all (normalizes : Normalizes step normal)
    (steps : Relation.ReflTransGen step a b) : normal b = normal a := by
  induction steps with
  | refl => rfl
  | tail _ last ih => rw [normalizes.keeps _ _ last, ih]

/-- All sequences of steps that come to an end have the same end. -/
theorem Normalizes.eq_of_final (normalizes : Normalizes step normal)
    (steps : Relation.ReflTransGen step a b) (final : ∀ c, ¬step b c) : b = normal a := by
  rw [← normalizes.keeps_all steps, normalizes.final b final]

theorem wellFounded_of_decreases {size : α → ℕ} (decreases : ∀ a b, step a b → size b < size a) :
    WellFounded fun b a => step a b :=
  Subrelation.wf (fun {b a} moves => decreases a b moves) (measure size).wf

/-- A loop that takes a step wherever there is one returns the normal form. -/
theorem Normalizes.untilFixed_eq [DecidableEq α] (normalizes : Normalizes step normal) {size : α → ℕ}
    (decreases : ∀ a b, step a b → size b < size a) {f : α → α}
    (steps : ∀ a, step a (f a) ∨ f a = a ∧ ∀ b, ¬step a b) {rounds : ℕ} (enough : size a < rounds) :
    untilFixed f rounds a = some (normal a) := by
  induction rounds generalizing a with
  | zero => exact absurd enough (Nat.not_lt_zero _)
  | succ rounds ih =>
      rw [untilFixed]
      rcases steps a with moves | ⟨same, final⟩
      · have less := decreases a (f a) moves
        have changes : a ≠ f a := fun same => Nat.ne_of_lt less (congrArg size same.symm)
        rw [if_neg changes, ih (Nat.lt_of_lt_of_le less (Nat.le_of_lt_succ enough)),
          normalizes.keeps a (f a) moves]
      · rw [if_pos same.symm, same, normalizes.final a final]

end Rewriting
