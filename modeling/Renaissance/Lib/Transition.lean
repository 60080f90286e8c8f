import Mathlib.Algebra.BigOperators.Fin

/-!
# Systems that take turns

`step a s` is the state after the action `a`, or `none` where `a` has to wait. An action names who
moves and what it draws, so a list of actions is a schedule, and the reachable states are the ones
that some schedule leads to.

* `Reachable.invariant`: what holds at first and is kept by every step holds in every reachable state;
* `inevitable_of_measure`: if some action can move until `Q` holds and each step lowers a measure,
  then every run comes to a state of `Q`;
* `sum_update_add`, `sum_set_add`: what one process contributes to a sum over all of them;
* `coe_set_add`: one process is exchanged for another one.
-/

namespace Transition

variable {α σ : Type} (step : α → σ → Option σ)

/-- The state that a schedule leads to. -/
def run : List α → σ → Option σ
  | [], s => some s
  | a :: schedule, s => (step a s).bind (run schedule)

def Reachable (init s : σ) : Prop :=
  ∃ schedule, run step schedule init = some s

/-- Every run from the state comes to a state of `Q`: it cannot get stuck before and cannot go on for
ever without. -/
inductive Inevitable (Q : σ → Prop) : σ → Prop
  | now {s : σ} : Q s → Inevitable Q s
  | later {s : σ} : (∃ a s', step a s = some s') →
      (∀ a s', step a s = some s' → Inevitable Q s') → Inevitable Q s

variable {step} {init s s' : σ}

theorem run_append (first rest : List α) (s : σ) :
    run step (first ++ rest) s = (run step first s).bind (run step rest) := by
  induction first generalizing s with
  | nil => rfl
  | cons a first ih =>
      rw [List.cons_append, run, run]
      cases step a s with
      | none => rfl
      | some s' => exact ih s'

theorem Reachable.start : Reachable step init init :=
  ⟨[], rfl⟩

theorem Reachable.next (reachable : Reachable step init s) {a : α} (moves : step a s = some s') :
    Reachable step init s' := by
  obtain ⟨schedule, leads⟩ := reachable
  refine ⟨schedule ++ [a], ?_⟩
  rw [run_append, leads, Option.bind_some, run, moves]
  rfl

/-- An invariant of the steps, carried along a schedule. -/
theorem run_invariant {I : σ → Prop} (keeps : ∀ a s s', I s → step a s = some s' → I s') :
    ∀ (schedule : List α) {s s' : σ}, I s → run step schedule s = some s' → I s'
  | [], s, s', holds, leads => by
      cases leads
      exact holds
  | a :: schedule, s, s', holds, leads => by
      obtain ⟨s₁, moves, rest⟩ := Option.bind_eq_some_iff.mp leads
      exact run_invariant keeps schedule (keeps a s s₁ holds moves) rest

theorem Reachable.invariant {I : σ → Prop} (reachable : Reachable step init s) (start : I init)
    (keeps : ∀ a s s', I s → step a s = some s' → I s') : I s := by
  obtain ⟨schedule, leads⟩ := reachable
  exact run_invariant keeps schedule start leads

/-- Some run comes to what is inevitable. -/
theorem Inevitable.reachable {Q : σ → Prop} (inevitable : Inevitable step Q s) :
    ∃ s', Reachable step s s' ∧ Q s' := by
  induction inevitable with
  | now there => exact ⟨_, .start, there⟩
  | later progress _ ih =>
      obtain ⟨a, s₁, moves⟩ := progress
      obtain ⟨s', ⟨schedule, leads⟩, there⟩ := ih a s₁ moves
      exact ⟨s', ⟨a :: schedule, by rw [run, moves]; exact leads⟩, there⟩

theorem inevitable_of_wellFounded {β : Type} {less : β → β → Prop} (wf : WellFounded less)
    {I Q : σ → Prop} (measure : σ → β) (keeps : ∀ a s s', I s → step a s = some s' → I s')
    (progress : ∀ s, I s → ¬ Q s → ∃ a s', step a s = some s')
    (lowers : ∀ a s s', I s → step a s = some s' → less (measure s') (measure s))
    (holds : I s) : Inevitable step Q s := by
  induction h : measure s using wf.induction generalizing s with
  | _ m ih =>
      by_cases there : Q s
      · exact .now there
      · refine .later (progress s holds there) fun a s' moves => ?_
        have lower := lowers a s s' holds moves
        exact ih (measure s') (h ▸ lower) (keeps a s s' holds moves) rfl

theorem inevitable_of_measure {I Q : σ → Prop} (measure : σ → ℕ)
    (keeps : ∀ a s s', I s → step a s = some s' → I s')
    (progress : ∀ s, I s → ¬ Q s → ∃ a s', step a s = some s')
    (lowers : ∀ a s s', I s → step a s = some s' → measure s' < measure s)
    (holds : I s) : Inevitable step Q s :=
  inevitable_of_wellFounded Nat.lt_wfRel.wf measure keeps progress lowers holds

theorem sum_update_add {n : ℕ} (w : α → ℕ) (f : Fin n → α) (i : Fin n) (a : α) :
    ∑ j, w (Function.update f i a j) + w (f i) = ∑ j, w (f j) + w a := by
  have others : ∑ j ∈ Finset.univ.erase i, w (Function.update f i a j) =
      ∑ j ∈ Finset.univ.erase i, w (f j) := by
    refine Finset.sum_congr rfl fun j other => ?_
    rw [Function.update_of_ne (Finset.ne_of_mem_erase other)]
  rw [← Finset.add_sum_erase _ (fun j => w (Function.update f i a j)) (Finset.mem_univ i),
    ← Finset.add_sum_erase _ (fun j => w (f j)) (Finset.mem_univ i), others, Function.update_self]
  omega

theorem sum_set_add {xs : List α} {i : ℕ} {a : α} (found : xs[i]? = some a) (w : α → ℕ) (b : α) :
    ((xs.set i b).map w).sum + w a = (xs.map w).sum + w b := by
  induction xs generalizing i with
  | nil => cases found
  | cons x xs ih =>
      cases i with
      | zero =>
          cases found
          simp only [List.set_cons_zero, List.map_cons, List.sum_cons]
          omega
      | succ i =>
          have rest := ih found
          simp only [List.set_cons_succ, List.map_cons, List.sum_cons]
          omega

theorem coe_set_add {xs : List α} {i : ℕ} {a : α} (found : xs[i]? = some a) (b : α) :
    (xs.set i b : Multiset α) + {a} = (xs : Multiset α) + {b} := by
  induction xs generalizing i with
  | nil => cases found
  | cons x xs ih =>
      cases i with
      | zero =>
          cases found
          rw [List.set_cons_zero, ← Multiset.cons_coe, ← Multiset.cons_coe, ← Multiset.singleton_add,
            ← Multiset.singleton_add, add_right_comm, add_comm ({b} : Multiset α), add_right_comm]
      | succ i =>
          rw [List.set_cons_succ, ← Multiset.cons_coe, ← Multiset.cons_coe, Multiset.cons_add,
            Multiset.cons_add, ih found]

end Transition
