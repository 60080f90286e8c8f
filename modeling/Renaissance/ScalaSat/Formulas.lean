import Mathlib.Data.List.Basic
import Renaissance.Lib.Rewriting

/-!
# Formulas

The propositional formulas of `cafesat.asts`, their meaning, and `simplify`. A variable is known by its
name. Quantifiers and predicates with arguments, which the interface of the solver cannot build, are left
out.
-/

namespace Renaissance.CafeSat

inductive Formula (ν : Type)
  | var (name : ν)
  | protected true
  | protected false
  | not (f : Formula ν)
  | and (fs : List (Formula ν))
  | or (fs : List (Formula ν))
  | implies (f₁ f₂ : Formula ν)
  | iff (f₁ f₂ : Formula ν)
  | ifThenElse (f₁ f₂ f₃ : Formula ν)

namespace Formula

variable {ν : Type}

/-- Induction over the subformulas. -/
@[elab_as_elim, induction_eliminator]
theorem induction {motive : Formula ν → Prop} (var : ∀ name, motive (.var name)) (true : motive .true)
    (false : motive .false) (not : ∀ f, motive f → motive (.not f))
    (and : ∀ fs, (∀ f ∈ fs, motive f) → motive (.and fs)) (or : ∀ fs, (∀ f ∈ fs, motive f) → motive (.or fs))
    (implies : ∀ f₁ f₂, motive f₁ → motive f₂ → motive (.implies f₁ f₂))
    (iff : ∀ f₁ f₂, motive f₁ → motive f₂ → motive (.iff f₁ f₂))
    (ifThenElse : ∀ f₁ f₂ f₃, motive f₁ → motive f₂ → motive f₃ → motive (.ifThenElse f₁ f₂ f₃))
    (f : Formula ν) : motive f :=
  @Formula.rec ν motive (fun fs => ∀ f ∈ fs, motive f) var true false not and or implies iff ifThenElse
    (List.forall_mem_nil _) (fun _ _ here there => List.forall_mem_cons.mpr ⟨here, there⟩) f

section Equality

variable [DecidableEq ν]

mutual

def same : Formula ν → Formula ν → Bool
  | var v, var w => v = w
  | .true, .true => true
  | .false, .false => true
  | not f, not g => same f g
  | and fs, and gs => sameAll fs gs
  | or fs, or gs => sameAll fs gs
  | implies f₁ f₂, implies g₁ g₂ => same f₁ g₁ && same f₂ g₂
  | iff f₁ f₂, iff g₁ g₂ => same f₁ g₁ && same f₂ g₂
  | ifThenElse f₁ f₂ f₃, ifThenElse g₁ g₂ g₃ => same f₁ g₁ && same f₂ g₂ && same f₃ g₃
  | _, _ => false

def sameAll : List (Formula ν) → List (Formula ν) → Bool
  | [], [] => true
  | f :: fs, g :: gs => same f g && sameAll fs gs
  | _, _ => false

end

theorem sameAll_iff {fs gs : List (Formula ν)} (each : ∀ f ∈ fs, ∀ g, same f g ↔ f = g) :
    sameAll fs gs ↔ fs = gs := by
  induction fs generalizing gs with
  | nil => cases gs <;> simp [sameAll]
  | cons f fs ih =>
      obtain ⟨here, there⟩ := List.forall_mem_cons.mp each
      cases gs with
      | nil => simp [sameAll]
      | cons g gs => rw [sameAll, Bool.and_eq_true, here, ih there, List.cons.injEq]

theorem same_iff (f g : Formula ν) : same f g ↔ f = g := by
  induction f generalizing g with
  | var v => cases g <;> simp [same]
  | true => cases g <;> simp [same]
  | false => cases g <;> simp [same]
  | not f ih => cases g <;> simp [same, ih]
  | and fs ih => cases g <;> simp [same, sameAll_iff ih]
  | or fs ih => cases g <;> simp [same, sameAll_iff ih]
  | implies f₁ f₂ ih₁ ih₂ => cases g <;> simp [same, ih₁, ih₂]
  | iff f₁ f₂ ih₁ ih₂ => cases g <;> simp [same, ih₁, ih₂]
  | ifThenElse f₁ f₂ f₃ ih₁ ih₂ ih₃ => cases g <;> simp [same, ih₁, ih₂, ih₃, and_assoc]

instance : DecidableEq (Formula ν) := fun f g =>
  decidable_of_iff (same f g) (same_iff f g)

end Equality

section Meaning

variable {σ : ν → Bool}

mutual

def eval (σ : ν → Bool) : Formula ν → Bool
  | var v => σ v
  | .true => true
  | .false => false
  | not f => !f.eval σ
  | and fs => evalAll σ fs
  | or fs => evalAny σ fs
  | implies f₁ f₂ => !f₁.eval σ || f₂.eval σ
  | iff f₁ f₂ => f₁.eval σ == f₂.eval σ
  | ifThenElse f₁ f₂ f₃ => bif f₁.eval σ then f₂.eval σ else f₃.eval σ

def evalAll (σ : ν → Bool) : List (Formula ν) → Bool
  | [] => true
  | f :: fs => f.eval σ && evalAll σ fs

def evalAny (σ : ν → Bool) : List (Formula ν) → Bool
  | [] => false
  | f :: fs => f.eval σ || evalAny σ fs

end

@[simp] theorem eval_var {v : ν} : (var v).eval σ = σ v := rfl
@[simp] theorem eval_true : (.true : Formula ν).eval σ = true := rfl
@[simp] theorem eval_false : (.false : Formula ν).eval σ = false := rfl
@[simp] theorem eval_not {f : Formula ν} : (not f).eval σ = !f.eval σ := rfl

@[simp] theorem eval_and {fs : List (Formula ν)} : (and fs).eval σ = fs.all (eval σ) := by
  show evalAll σ fs = fs.all (eval σ)
  induction fs with
  | nil => rfl
  | cons f fs ih => rw [evalAll, List.all_cons, ih]

@[simp] theorem eval_or {fs : List (Formula ν)} : (or fs).eval σ = fs.any (eval σ) := by
  show evalAny σ fs = fs.any (eval σ)
  induction fs with
  | nil => rfl
  | cons f fs ih => rw [evalAny, List.any_cons, ih]

@[simp] theorem eval_implies {f₁ f₂ : Formula ν} :
    (implies f₁ f₂).eval σ = (!f₁.eval σ || f₂.eval σ) := rfl

@[simp] theorem eval_iff {f₁ f₂ : Formula ν} : (iff f₁ f₂).eval σ = (f₁.eval σ == f₂.eval σ) := rfl

@[simp] theorem eval_ifThenElse {f₁ f₂ f₃ : Formula ν} :
    (ifThenElse f₁ f₂ f₃).eval σ = bif f₁.eval σ then f₂.eval σ else f₃.eval σ := rfl

end Meaning

section Simplify

def isTrue : Formula ν → Bool
  | .true => true
  | _ => false

def isFalse : Formula ν → Bool
  | .false => true
  | _ => false

def isNot : Formula ν → Bool
  | not _ => true
  | _ => false

/-- The formula without its negation, or with one. -/
def flipNot : Formula ν → Formula ν
  | not f => f
  | f => not f

/-- The members, and those of the conjunctions among them. -/
def flattenAnd (fs : List (Formula ν)) : List (Formula ν) :=
  fs.flatMap fun
    | and fs₂ => fs₂
    | f₂ => [f₂]

def flattenOr (fs : List (Formula ν)) : List (Formula ν) :=
  fs.flatMap fun
    | or fs₂ => fs₂
    | f₂ => [f₂]

/-- `nbr`, the members that are not negations. -/
def nbr (fs : List (Formula ν)) : ℕ :=
  fs.length - fs.countP isNot

def simplifyOneNot : Formula ν → Formula ν
  | not f => f
  | .true => .false
  | .false => .true
  | and fs => if nbr fs ≤ fs.countP isNot then or (fs.map flipNot) else not (and fs)
  | or fs => if nbr fs ≤ fs.countP isNot then and (fs.map flipNot) else not (or fs)
  | f => not f

def simplifyOneAnd : List (Formula ν) → Formula ν
  | [] => .true
  | [f] => f
  | fs =>
      if fs.any isFalse then .false
      else if fs.any isTrue then and (fs.filter fun f => !f.isTrue)
      else
        let nfs := flattenAnd fs
        if nbr nfs + 1 < nfs.countP isNot then not (or (nfs.map flipNot)) else and nfs

def simplifyOneOr : List (Formula ν) → Formula ν
  | [] => .false
  | [f] => f
  | [f₁, not f₂] => implies f₂ f₁
  | [not f₁, f₂] => implies f₁ f₂
  | fs =>
      if fs.any isTrue then .true
      else if fs.any isFalse then or (fs.filter fun f => !f.isFalse)
      else
        let nfs := flattenOr fs
        if nbr nfs + 1 < nfs.countP isNot then not (and (nfs.map flipNot)) else or nfs

def simplifyOneIfThenElse : Formula ν → Formula ν → Formula ν → Formula ν
  | .true, f, _ => f
  | .false, _, f => f
  | _, .true, .true => .true
  | _, .false, .false => .false
  | f₁, f₂, f₃ => ifThenElse f₁ f₂ f₃

def simplifyOneImplies : Formula ν → Formula ν → Formula ν
  | .false, _ => .true
  | _, .true => .true
  | f, .false => not f
  | .true, f => f
  | not f₁, f₂ => or [f₁, f₂]
  | f₁, f₂ => implies f₁ f₂

def simplifyOneIff : Formula ν → Formula ν → Formula ν
  | .false, .true => .false
  | .false, .false => .true
  | .false, f => not f
  | .true, .true => .true
  | .true, .false => .false
  | .true, f => f
  | f, .false => not f
  | f, .true => f
  | f₁, f₂ => iff f₁ f₂

def simplifyOne : Formula ν → Formula ν
  | not f => simplifyOneNot f
  | and fs => simplifyOneAnd fs
  | or fs => simplifyOneOr fs
  | implies f₁ f₂ => simplifyOneImplies f₁ f₂
  | iff f₁ f₂ => simplifyOneIff f₁ f₂
  | ifThenElse f₁ f₂ f₃ => simplifyOneIfThenElse f₁ f₂ f₃
  | f => f

mutual

def mapPostorder (ff : Formula ν → Formula ν) : Formula ν → Formula ν
  | var v => ff (var v)
  | .true => ff .true
  | .false => ff .false
  | not f => ff (not (mapPostorder ff f))
  | and fs => ff (and (mapPostorderAll ff fs))
  | or fs => ff (or (mapPostorderAll ff fs))
  | implies f₁ f₂ => ff (implies (mapPostorder ff f₁) (mapPostorder ff f₂))
  | iff f₁ f₂ => ff (iff (mapPostorder ff f₁) (mapPostorder ff f₂))
  | ifThenElse f₁ f₂ f₃ =>
      ff (ifThenElse (mapPostorder ff f₁) (mapPostorder ff f₂) (mapPostorder ff f₃))

def mapPostorderAll (ff : Formula ν → Formula ν) : List (Formula ν) → List (Formula ν)
  | [] => []
  | f :: fs => mapPostorder ff f :: mapPostorderAll ff fs

end

/-- `fix` of `cafesat.common.Math`, with at most the given number of rounds. -/
def fix {α : Type} [DecidableEq α] (f : α → α) (rounds : ℕ) (t : α) : Option α :=
  Rewriting.untilFixed f rounds t

def simplify [DecidableEq ν] (rounds : ℕ) (formula : Formula ν) : Option (Formula ν) :=
  fix (mapPostorder simplifyOne) rounds formula

end Simplify

end Formula

end Renaissance.CafeSat
