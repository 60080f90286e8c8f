import Mathlib.Data.List.Basic
import Mathlib.Data.List.Nodup

/-!
# Clauses over numbered variables

A literal is a number: `2 * v` is the variable `v` and `2 * v + 1` is its negation. A clause is a list of
literals, of which one must hold.
-/

namespace Clauses

/-- The other literal of the same variable. -/
def neg (lit : ℕ) : ℕ :=
  if lit % 2 = 0 then lit + 1 else lit - 1

@[simp] theorem var_neg (lit : ℕ) : neg lit / 2 = lit / 2 := by
  unfold neg
  split_ifs <;> omega

@[simp] theorem neg_twice (lit : ℕ) : neg (neg lit) = lit := by
  unfold neg
  split_ifs <;> omega

theorem neg_ne (lit : ℕ) : neg lit ≠ lit := by
  unfold neg
  split_ifs <;> omega

theorem neg_mod (lit : ℕ) : (neg lit % 2 = 0) ↔ ¬ lit % 2 = 0 := by
  unfold neg
  split_ifs <;> omega

theorem eq_or_eq_neg {k lit : ℕ} (same : k / 2 = lit / 2) : k = lit ∨ k = neg lit := by
  unfold neg
  split_ifs <;> omega

/-- What an assignment makes of a literal. -/
def holds (σ : ℕ → Bool) (lit : ℕ) : Prop :=
  σ (lit / 2) = decide (lit % 2 = 0)

variable {σ : ℕ → Bool} {F G : List (List ℕ)} {c d : List ℕ} {lit : ℕ}

@[simp] theorem holds_neg : holds σ (neg lit) ↔ ¬ holds σ lit := by
  rw [holds, var_neg, holds, decide_eq_decide.mpr (neg_mod lit), decide_not]
  cases σ (lit / 2) <;> cases decide (lit % 2 = 0) <;> simp

def Sat (σ : ℕ → Bool) (c : List ℕ) : Prop :=
  ∃ lit ∈ c, holds σ lit

def Models (σ : ℕ → Bool) (F : List (List ℕ)) : Prop :=
  ∀ c ∈ F, Sat σ c

def Entails (F : List (List ℕ)) (c : List ℕ) : Prop :=
  ∀ σ, Models σ F → Sat σ c

theorem Sat.mono (sat : Sat σ c) (more : c ⊆ d) : Sat σ d := by
  obtain ⟨lit, member, holds⟩ := sat
  exact ⟨lit, more member, holds⟩

theorem Entails.mono (entails : Entails F c) (more : c ⊆ d) : Entails F d :=
  fun σ models => (entails σ models).mono more

theorem entails_of_mem (member : c ∈ F) : Entails F c :=
  fun _ models => models c member

theorem sat_singleton : Sat σ [lit] ↔ holds σ lit := by
  simp [Sat]

/-- A literal and its negation. -/
theorem sat_of_both (first : lit ∈ c) (second : neg lit ∈ c) : Sat σ c := by
  by_cases sat : holds σ lit
  · exact ⟨lit, first, sat⟩
  · exact ⟨neg lit, second, holds_neg.mpr sat⟩

theorem models_append : Models σ (F ++ G) ↔ Models σ F ∧ Models σ G :=
  List.forall_mem_append

/-- Clauses that follow from the others may be added. -/
theorem models_append_of_entails (entails : ∀ c ∈ G, Entails F c) :
    Models σ (G ++ F) ↔ Models σ F := by
  rw [models_append]
  exact ⟨And.right, fun models => ⟨fun c member => entails c member σ models, models⟩⟩

end Clauses
