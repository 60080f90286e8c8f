import Mathlib.Data.List.Basic

/-!
# Openings that are closed exactly once

`ClosedOnce opens closes ends t` says of a trace `t`: after each event that opens a key there is
exactly one event that closes the key, before the next event that ends the scope.

Results:
* `closedOnce_append_left`: what opens nothing may be put before a trace;
* `closedOnce_append_right`: what neither opens nor closes may be put after it;
* `closedOnce_filter`: events with no part in the pairs may be left out.
-/

namespace Pairing

variable {τ κ : Type} [DecidableEq κ] (opens closes : τ → Option κ) (ends : τ → Bool)

/-- How often the key is closed before the scope ends. -/
def timesClosed (k : κ) (t : List τ) : Nat :=
  (t.takeWhile fun e => !ends e).countP fun e => closes e = some k

def ClosedOnce : List τ → Prop
  | [] => True
  | e :: t => (∀ k ∈ opens e, timesClosed closes ends k t = 1) ∧ ClosedOnce t

instance decidableClosedOnce : (t : List τ) → Decidable (ClosedOnce opens closes ends t)
  | [] => isTrue trivial
  | e :: t =>
      have : Decidable (∀ k ∈ opens e, timesClosed closes ends k t = 1) :=
        match opens e with
        | none => isTrue (by simp)
        | some k => decidable_of_iff (timesClosed closes ends k t = 1) (by simp)
      have := decidableClosedOnce t
      inferInstanceAs (Decidable (_ ∧ _))

variable {opens closes ends}

@[simp] theorem timesClosed_nil (k : κ) : timesClosed closes ends k [] = 0 := rfl

theorem timesClosed_cons (k : κ) (e : τ) (t : List τ) :
    timesClosed closes ends k (e :: t) =
      if ends e then 0 else (if closes e = some k then 1 else 0) + timesClosed closes ends k t := by
  by_cases ended : ends e <;> by_cases closed : closes e = some k <;>
    simp [timesClosed, ended, closed, Nat.add_comm]

theorem timesClosed_append_inert {k : κ} {t post : List τ} (inert : ∀ e ∈ post, closes e ≠ some k) :
    timesClosed closes ends k (t ++ post) = timesClosed closes ends k t := by
  induction t with
  | nil =>
      refine List.countP_eq_zero.mpr fun e he => ?_
      simpa using inert e ((List.takeWhile_prefix _).subset he)
  | cons e t ih => rw [List.cons_append, timesClosed_cons, timesClosed_cons, ih]

theorem closedOnce_append_left {pre t : List τ} (silent : ∀ e ∈ pre, opens e = none) :
    ClosedOnce opens closes ends (pre ++ t) ↔ ClosedOnce opens closes ends t := by
  induction pre with
  | nil => rfl
  | cons e pre ih =>
      rw [List.cons_append, ClosedOnce, ih fun e' he' => silent e' (by simp [he'])]
      simp [silent e]

theorem closedOnce_append_right {t post : List τ}
    (inert : ∀ e ∈ post, opens e = none ∧ closes e = none) :
    ClosedOnce opens closes ends (t ++ post) ↔ ClosedOnce opens closes ends t := by
  induction t with
  | nil =>
      have alone : ClosedOnce opens closes ends (post ++ []) ↔ ClosedOnce opens closes ends [] :=
        closedOnce_append_left fun e he => (inert e he).1
      rwa [List.append_nil] at alone
  | cons e t ih =>
      have same : ∀ k, timesClosed closes ends k (t ++ post) = timesClosed closes ends k t := fun k =>
        timesClosed_append_inert fun e he => by simp [(inert e he).2]
      simp only [List.cons_append, ClosedOnce, ih, same]

section Filter

variable {p : τ → Bool}
  (irrelevant : ∀ e, p e = false → opens e = none ∧ closes e = none ∧ ends e = false)
include irrelevant

theorem timesClosed_filter (k : κ) (t : List τ) :
    timesClosed closes ends k (t.filter p) = timesClosed closes ends k t := by
  induction t with
  | nil => rfl
  | cons e t ih =>
      cases relevant : p e with
      | true => rw [List.filter_cons_of_pos relevant, timesClosed_cons, timesClosed_cons, ih]
      | false =>
          obtain ⟨-, closesNone, inScope⟩ := irrelevant e relevant
          rw [List.filter_cons_of_neg (by simp [relevant]), ih, timesClosed_cons]
          simp [closesNone, inScope]

theorem closedOnce_filter (t : List τ) :
    ClosedOnce opens closes ends (t.filter p) ↔ ClosedOnce opens closes ends t := by
  induction t with
  | nil => rfl
  | cons e t ih =>
      cases relevant : p e with
      | true =>
          rw [List.filter_cons_of_pos relevant, ClosedOnce, ClosedOnce, ih]
          simp only [timesClosed_filter irrelevant]
      | false =>
          obtain ⟨opensNone, -, -⟩ := irrelevant e relevant
          rw [List.filter_cons_of_neg (by simp [relevant]), ih, ClosedOnce]
          simp [opensNone]

end Filter

end Pairing
