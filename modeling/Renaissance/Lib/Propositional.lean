import Mathlib.Data.List.Basic

/-!
# Propositional formulas

Formulas with disjunctions and conjunctions of any length over a type of variables, and what it means
that a function decides them: it returns an assignment that satisfies the formula, or nothing if none
does.
-/

namespace Propositional

variable {ν : Type}

inductive Formula (ν : Type)
  | var (v : ν)
  | not (f : Formula ν)
  | or (fs : List (Formula ν))
  | and (fs : List (Formula ν))

namespace Formula

mutual

def eval (model : ν → Bool) : Formula ν → Bool
  | var v => model v
  | not f => !f.eval model
  | or fs => evalAny model fs
  | and fs => evalAll model fs

def evalAny (model : ν → Bool) : List (Formula ν) → Bool
  | [] => false
  | f :: fs => f.eval model || evalAny model fs

def evalAll (model : ν → Bool) : List (Formula ν) → Bool
  | [] => true
  | f :: fs => f.eval model && evalAll model fs

end

variable {model : ν → Bool}

theorem eval_or {fs : List (Formula ν)} : (or fs).eval model ↔ ∃ f ∈ fs, f.eval model := by
  rw [eval]
  induction fs with
  | nil => simp [evalAny]
  | cons f fs ih => rw [evalAny, Bool.or_eq_true, ih, List.exists_mem_cons_iff]

theorem eval_and {fs : List (Formula ν)} : (and fs).eval model ↔ ∀ f ∈ fs, f.eval model := by
  rw [eval]
  induction fs with
  | nil => simp [evalAll]
  | cons f fs ih => rw [evalAll, Bool.and_eq_true, ih, List.forall_mem_cons]

/-- A clause of two negated variables. -/
theorem eval_not_both {v w : ν} :
    (or [not (var v), not (var w)]).eval model ↔ ¬ (model v ∧ model w) := by
  cases hv : model v <;> cases hw : model w <;> simp [eval, evalAny, hv, hw]

end Formula

/-- The function returns a satisfying assignment if there is one. -/
structure Decides (solve : Formula ν → Option (ν → Bool)) : Prop where
  sound : ∀ f model, solve f = some model → f.eval model
  complete : ∀ f, solve f = none → ∀ model, ¬ f.eval model

open Classical in
/-- A function that decides, by choice. -/
noncomputable def decider (f : Formula ν) : Option (ν → Bool) :=
  if satisfiable : ∃ model, f.eval model then some (choose satisfiable) else none

theorem decider_decides : Decides (@decider ν) where
  sound f model found := by
    unfold decider at found
    split at found
    next satisfiable =>
      cases found
      exact Classical.choose_spec satisfiable
    next => cases found
  complete f nothing model satisfies := by
    unfold decider at nothing
    rw [dif_pos ⟨model, satisfies⟩] at nothing
    cases nothing

end Propositional
