import Mathlib.Tactic.Common
import Mathlib.Data.Nat.Notation

/-!
# While loops

`loop cond body fuel s` runs `while (cond) body` from `s`. It is `none` if the body throws, or if there
are more than `fuel` rounds. `loop_returns` is the rule of total correctness: an invariant, and a measure
that each round lowers.
-/

namespace WhileLoop

variable {σ : Type} {cond : σ → Bool} {body : σ → Option σ}

def loop (cond : σ → Bool) (body : σ → Option σ) : ℕ → σ → Option σ
  | 0, s => if cond s then none else some s
  | fuel + 1, s => if cond s then (body s).bind (loop cond body fuel) else some s

theorem loop_of_not {fuel : ℕ} {s : σ} (stops : cond s = false) : loop cond body fuel s = some s := by
  cases fuel <;> simp [loop, stops]

theorem loop_succ {fuel : ℕ} {s s' : σ} (goes : cond s = true) (round : body s = some s') :
    loop cond body (fuel + 1) s = loop cond body fuel s' := by
  simp [loop, goes, round]

theorem loop_returns (cond : σ → Bool) (body : σ → Option σ) (inv : σ → Prop) (measure : σ → ℕ)
    (step : ∀ s, inv s → cond s = true → ∃ s', body s = some s' ∧ inv s' ∧ measure s' < measure s)
    {fuel : ℕ} {s : σ} (start : inv s) (enough : measure s ≤ fuel) :
    ∃ s', loop cond body fuel s = some s' ∧ inv s' ∧ cond s' = false := by
  induction fuel generalizing s with
  | zero =>
      cases goes : cond s with
      | false => exact ⟨s, loop_of_not goes, start, goes⟩
      | true =>
          obtain ⟨_, _, _, lower⟩ := step s start goes
          omega
  | succ fuel ih =>
      cases goes : cond s with
      | false => exact ⟨s, loop_of_not goes, start, goes⟩
      | true =>
          obtain ⟨next, round, kept, lower⟩ := step s start goes
          obtain ⟨s', result, done⟩ := ih kept (by omega)
          exact ⟨s', (loop_succ goes round).trans result, done⟩

end WhileLoop
