import Mathlib.Algebra.BigOperators.Group.List.Basic
import Renaissance.ScalaSat.Formulas

/-!
# Simplified formulas

`Rewrite` lists what `simplifyOne` can do to a formula. Each rule keeps the meaning and lowers the weight, so
`simplify` ends, and no rule applies to any subformula of its result (`simplify_returns`).
-/

namespace Renaissance.CafeSat.Formula

variable {ν : Type} {σ : ν → Bool} {f g : Formula ν} {fs : List (Formula ν)}

def isConstant (f : Formula ν) : Bool :=
  f.isTrue || f.isFalse

def isAnd : Formula ν → Bool
  | and _ => true
  | _ => false

def isOr : Formula ν → Bool
  | or _ => true
  | _ => false

/-- No rule applies at the root. -/
def Simple : Formula ν → Prop
  | not (and fs) => fs.countP isNot < nbr fs
  | not (or fs) => fs.countP isNot < nbr fs
  | not f => f.isConstant = false ∧ f.isNot = false
  | and fs => 2 ≤ fs.length ∧ (∀ f ∈ fs, f.isConstant = false ∧ f.isAnd = false) ∧ fs.countP isNot ≤ nbr fs + 1
  | or fs => 2 ≤ fs.length ∧ (∀ f ∈ fs, f.isConstant = false ∧ f.isOr = false) ∧ fs.countP isNot ≤ nbr fs + 1 ∧
      (fs.length = 2 → ∀ f ∈ fs, f.isNot = false)
  | implies f₁ f₂ => f₁.isConstant = false ∧ f₂.isConstant = false ∧ f₁.isNot = false
  | iff f₁ f₂ => f₁.isConstant = false ∧ f₂.isConstant = false
  | ifThenElse f₁ f₂ f₃ => f₁.isConstant = false ∧ ¬ (f₂.isTrue ∧ f₃.isTrue) ∧ ¬ (f₂.isFalse ∧ f₃.isFalse)
  | _ => True

inductive Rewrite : Formula ν → Formula ν → Prop
  | notNot (f : Formula ν) : Rewrite (not (not f)) f
  | notTrue : Rewrite (not .true) .false
  | notFalse : Rewrite (not .false) .true
  | notAnd (fs : List (Formula ν)) (many : nbr fs ≤ fs.countP isNot) :
      Rewrite (not (and fs)) (or (fs.map flipNot))
  | notOr (fs : List (Formula ν)) (many : nbr fs ≤ fs.countP isNot) :
      Rewrite (not (or fs)) (and (fs.map flipNot))
  | andNil : Rewrite (and []) .true
  | andOne (f : Formula ν) : Rewrite (and [f]) f
  | andFalse (fs : List (Formula ν)) (member : .false ∈ fs) : Rewrite (and fs) .false
  | andTrue (fs : List (Formula ν)) (member : .true ∈ fs) :
      Rewrite (and fs) (and (fs.filter fun f => !f.isTrue))
  | andFlat (fs : List (Formula ν)) (nested : ∃ gs, and gs ∈ fs) : Rewrite (and fs) (and (flattenAnd fs))
  | andNegations (fs : List (Formula ν)) (many : nbr (flattenAnd fs) + 1 < (flattenAnd fs).countP isNot) :
      Rewrite (and fs) (not (or ((flattenAnd fs).map flipNot)))
  | orNil : Rewrite (or []) .false
  | orOne (f : Formula ν) : Rewrite (or [f]) f
  | orRight (f₁ f₂ : Formula ν) : Rewrite (or [f₁, not f₂]) (implies f₂ f₁)
  | orLeft (f₁ f₂ : Formula ν) : Rewrite (or [not f₁, f₂]) (implies f₁ f₂)
  | orTrue (fs : List (Formula ν)) (member : .true ∈ fs) : Rewrite (or fs) .true
  | orFalse (fs : List (Formula ν)) (member : .false ∈ fs) :
      Rewrite (or fs) (or (fs.filter fun f => !f.isFalse))
  | orFlat (fs : List (Formula ν)) (nested : ∃ gs, or gs ∈ fs) : Rewrite (or fs) (or (flattenOr fs))
  | orNegations (fs : List (Formula ν)) (many : nbr (flattenOr fs) + 1 < (flattenOr fs).countP isNot) :
      Rewrite (or fs) (not (and ((flattenOr fs).map flipNot)))
  | ifTrue (f₂ f₃ : Formula ν) : Rewrite (ifThenElse .true f₂ f₃) f₂
  | ifFalse (f₂ f₃ : Formula ν) : Rewrite (ifThenElse .false f₂ f₃) f₃
  | bothTrue (f₁ : Formula ν) : Rewrite (ifThenElse f₁ .true .true) .true
  | bothFalse (f₁ : Formula ν) : Rewrite (ifThenElse f₁ .false .false) .false
  | falseImplies (f₂ : Formula ν) : Rewrite (implies .false f₂) .true
  | impliesTrue (f₁ : Formula ν) : Rewrite (implies f₁ .true) .true
  | impliesFalse (f₁ : Formula ν) : Rewrite (implies f₁ .false) (not f₁)
  | trueImplies (f₂ : Formula ν) : Rewrite (implies .true f₂) f₂
  | notImplies (f₁ f₂ : Formula ν) : Rewrite (implies (not f₁) f₂) (or [f₁, f₂])
  | falseIffTrue : Rewrite (iff .false .true) .false
  | falseIffFalse : Rewrite (iff .false .false) .true
  | falseIff (f₂ : Formula ν) : Rewrite (iff .false f₂) (not f₂)
  | trueIff (f₂ : Formula ν) : Rewrite (iff .true f₂) f₂
  | iffFalse (f₁ : Formula ν) : Rewrite (iff f₁ .false) (not f₁)
  | iffTrue (f₁ : Formula ν) : Rewrite (iff f₁ .true) f₁

section Rules

theorem isTrue_iff : f.isTrue ↔ f = .true := by
  cases f <;> simp [isTrue]

theorem isFalse_iff : f.isFalse ↔ f = .false := by
  cases f <;> simp [isFalse]

theorem isConstant_eq_false : f.isConstant = false ↔ f ≠ .true ∧ f ≠ .false := by
  rw [isConstant, Bool.or_eq_false_iff, Bool.eq_false_iff, Bool.eq_false_iff, Ne, Ne, isTrue_iff, isFalse_iff]

theorem isAnd_iff : f.isAnd ↔ ∃ gs, f = and gs := by
  cases f <;> simp [isAnd]

theorem isOr_iff : f.isOr ↔ ∃ gs, f = or gs := by
  cases f <;> simp [isOr]

theorem flattenAnd_of_none (flat : ¬ ∃ gs, and gs ∈ fs) : flattenAnd fs = fs := by
  induction fs with
  | nil => rfl
  | cons f fs ih =>
      have there : ¬ ∃ gs, and gs ∈ fs := fun ⟨gs, member⟩ => flat ⟨gs, List.mem_cons_of_mem _ member⟩
      cases f with
      | and gs => exact absurd ⟨gs, List.mem_cons_self⟩ flat
      | _ => exact congrArg _ (ih there)

theorem flattenOr_of_none (flat : ¬ ∃ gs, or gs ∈ fs) : flattenOr fs = fs := by
  induction fs with
  | nil => rfl
  | cons f fs ih =>
      have there : ¬ ∃ gs, or gs ∈ fs := fun ⟨gs, member⟩ => flat ⟨gs, List.mem_cons_of_mem _ member⟩
      cases f with
      | or gs => exact absurd ⟨gs, List.mem_cons_self⟩ flat
      | _ => exact congrArg _ (ih there)

theorem any_isTrue : fs.any isTrue ↔ .true ∈ fs := by
  simp [List.any_eq_true, isTrue_iff]

theorem any_isFalse : fs.any isFalse ↔ .false ∈ fs := by
  simp [List.any_eq_true, isFalse_iff]

theorem not_constant_of_mem (noTrue : ¬ fs.any isTrue) (noFalse : ¬ fs.any isFalse) (member : f ∈ fs) :
    f.isConstant = false := by
  rw [any_isTrue] at noTrue
  rw [any_isFalse] at noFalse
  rw [isConstant_eq_false]
  exact ⟨fun same => noTrue (same ▸ member), fun same => noFalse (same ▸ member)⟩

theorem simplifyOneNot_cases (f : Formula ν) :
    Rewrite (not f) (simplifyOneNot f) ∨ simplifyOneNot f = not f ∧ Simple (not f) := by
  cases f with
  | not f => exact .inl (.notNot f)
  | true => exact .inl .notTrue
  | false => exact .inl .notFalse
  | and fs =>
      rw [simplifyOneNot]
      split
      next many => exact .inl (.notAnd fs many)
      next few => exact .inr ⟨rfl, Nat.lt_of_not_le few⟩
  | or fs =>
      rw [simplifyOneNot]
      split
      next many => exact .inl (.notOr fs many)
      next few => exact .inr ⟨rfl, Nat.lt_of_not_le few⟩
  | _ => exact .inr ⟨rfl, rfl, rfl⟩

theorem simplifyOneAnd_cases (fs : List (Formula ν)) :
    Rewrite (and fs) (simplifyOneAnd fs) ∨ simplifyOneAnd fs = and fs ∧ Simple (and fs) := by
  unfold simplifyOneAnd
  split
  next => exact .inl .andNil
  next f => exact .inl (.andOne f)
  next notNil notOne =>
    dsimp only
    -- the order of the tests is that of the source
    split_ifs with someFalse someTrue many
    · exact .inl (.andFalse fs (any_isFalse.mp someFalse))
    · exact .inl (.andTrue fs (any_isTrue.mp someTrue))
    · exact .inl (.andNegations fs many)
    · by_cases nested : ∃ gs, and gs ∈ fs
      · exact .inl (.andFlat fs nested)
      · rw [flattenAnd_of_none nested] at many ⊢
        refine .inr ⟨rfl, ?_, fun f member => ⟨not_constant_of_mem someTrue someFalse member, ?_⟩,
          Nat.le_of_not_lt many⟩
        · match fs, notNil, notOne with
          | [], notNil, _ => exact absurd rfl notNil
          | [f], _, notOne => exact absurd rfl (notOne f)
          | _ :: _ :: _, _, _ => simp
        · rw [Bool.eq_false_iff, Ne, isAnd_iff]
          exact fun ⟨gs, same⟩ => nested ⟨gs, same ▸ member⟩

theorem simplifyOneOr_cases (fs : List (Formula ν)) :
    Rewrite (or fs) (simplifyOneOr fs) ∨ simplifyOneOr fs = or fs ∧ Simple (or fs) := by
  unfold simplifyOneOr
  split
  next => exact .inl .orNil
  next f => exact .inl (.orOne f)
  next f₁ f₂ => exact .inl (.orRight f₁ f₂)
  next f₁ f₂ _ => exact .inl (.orLeft f₁ f₂)
  next notNil notOne notRight notLeft =>
    dsimp only
    split_ifs with someTrue someFalse many
    · exact .inl (.orTrue fs (any_isTrue.mp someTrue))
    · exact .inl (.orFalse fs (any_isFalse.mp someFalse))
    · exact .inl (.orNegations fs many)
    · by_cases nested : ∃ gs, or gs ∈ fs
      · exact .inl (.orFlat fs nested)
      · rw [flattenOr_of_none nested] at many ⊢
        refine .inr ⟨rfl, ?_, fun f member => ⟨not_constant_of_mem someTrue someFalse member, ?_⟩,
          Nat.le_of_not_lt many, ?_⟩
        · match fs, notNil, notOne with
          | [], notNil, _ => exact absurd rfl notNil
          | [f], _, notOne => exact absurd rfl (notOne f)
          | _ :: _ :: _, _, _ => simp
        · rw [Bool.eq_false_iff, Ne, isOr_iff]
          exact fun ⟨gs, same⟩ => nested ⟨gs, same ▸ member⟩
        · intro two f member
          match fs, two, member with
          | [f₁, f₂], _, member =>
              cases f with
              | not f' =>
                  rcases List.mem_pair.mp member with same | same
                  · exact absurd (same ▸ rfl) (notLeft f' f₂)
                  · exact absurd (same ▸ rfl) (notRight f₁ f')
              | _ => rfl

theorem simplifyOneImplies_cases (f₁ f₂ : Formula ν) :
    Rewrite (implies f₁ f₂) (simplifyOneImplies f₁ f₂) ∨
      simplifyOneImplies f₁ f₂ = implies f₁ f₂ ∧ Simple (implies f₁ f₂) := by
  unfold simplifyOneImplies
  split
  next => exact .inl (.falseImplies f₂)
  next => exact .inl (.impliesTrue f₁)
  next => exact .inl (.impliesFalse f₁)
  next => exact .inl (.trueImplies f₂)
  next f₁ _ _ => exact .inl (.notImplies f₁ f₂)
  next notFalse₁ notTrue₁ noNot notTrue₂ notFalse₂ =>
    refine .inr ⟨rfl, isConstant_eq_false.mpr ⟨notTrue₁, notFalse₁⟩,
      isConstant_eq_false.mpr ⟨notTrue₂, notFalse₂⟩, ?_⟩
    cases f₁ with
    | not f => exact absurd rfl (noNot f)
    | _ => rfl

theorem simplifyOneIff_cases (f₁ f₂ : Formula ν) :
    Rewrite (iff f₁ f₂) (simplifyOneIff f₁ f₂) ∨ simplifyOneIff f₁ f₂ = iff f₁ f₂ ∧ Simple (iff f₁ f₂) := by
  unfold simplifyOneIff
  split
  next => exact .inl .falseIffTrue
  next => exact .inl .falseIffFalse
  next => exact .inl (.falseIff f₂)
  next => exact .inl (.trueIff .true)
  next => exact .inl (.trueIff .false)
  next => exact .inl (.trueIff f₂)
  next => exact .inl (.iffFalse f₁)
  next => exact .inl (.iffTrue f₁)
  next notFalse₁ notTrue₁ notFalse₂ notTrue₂ _ _ _ _ =>
    exact .inr ⟨rfl, isConstant_eq_false.mpr ⟨notTrue₁, notFalse₁⟩,
      isConstant_eq_false.mpr ⟨notTrue₂, notFalse₂⟩⟩

theorem simplifyOneIfThenElse_cases (f₁ f₂ f₃ : Formula ν) :
    Rewrite (ifThenElse f₁ f₂ f₃) (simplifyOneIfThenElse f₁ f₂ f₃) ∨
      simplifyOneIfThenElse f₁ f₂ f₃ = ifThenElse f₁ f₂ f₃ ∧ Simple (ifThenElse f₁ f₂ f₃) := by
  unfold simplifyOneIfThenElse
  split
  next => exact .inl (.ifTrue f₂ f₃)
  next => exact .inl (.ifFalse f₂ f₃)
  next => exact .inl (.bothTrue f₁)
  next => exact .inl (.bothFalse f₁)
  next notTrue notFalse notBothTrue notBothFalse =>
    refine .inr ⟨rfl, isConstant_eq_false.mpr ⟨notTrue, notFalse⟩, ?_, ?_⟩
    · rw [isTrue_iff, isTrue_iff]
      rintro ⟨rfl, rfl⟩
      exact notBothTrue rfl rfl
    · rw [isFalse_iff, isFalse_iff]
      rintro ⟨rfl, rfl⟩
      exact notBothFalse rfl rfl

/-- Either `simplifyOne` applies a rule, or there is none. -/
theorem simplifyOne_cases (f : Formula ν) : Rewrite f (simplifyOne f) ∨ simplifyOne f = f ∧ Simple f := by
  cases f with
  | not f => exact simplifyOneNot_cases f
  | and fs => exact simplifyOneAnd_cases fs
  | or fs => exact simplifyOneOr_cases fs
  | implies f₁ f₂ => exact simplifyOneImplies_cases f₁ f₂
  | iff f₁ f₂ => exact simplifyOneIff_cases f₁ f₂
  | ifThenElse f₁ f₂ f₃ => exact simplifyOneIfThenElse_cases f₁ f₂ f₃
  | _ => exact .inr ⟨rfl, trivial⟩

end Rules

section Meaning

@[simp] theorem eval_flipNot : (flipNot f).eval σ = !f.eval σ := by
  cases f <;> simp [flipNot]

theorem all_flipNot : (fs.map flipNot).all (eval σ) = !fs.any (eval σ) := by
  induction fs with
  | nil => rfl
  | cons f fs ih => rw [List.map_cons, List.all_cons, List.any_cons, ih, eval_flipNot, Bool.not_or]

theorem any_flipNot : (fs.map flipNot).any (eval σ) = !fs.all (eval σ) := by
  induction fs with
  | nil => rfl
  | cons f fs ih => rw [List.map_cons, List.all_cons, List.any_cons, ih, eval_flipNot, Bool.not_and]

theorem all_flattenAnd : (flattenAnd fs).all (eval σ) = fs.all (eval σ) := by
  rw [flattenAnd, List.all_flatMap]
  congr 1
  funext f
  cases f <;> simp

theorem any_flattenOr : (flattenOr fs).any (eval σ) = fs.any (eval σ) := by
  rw [flattenOr, List.any_flatMap]
  congr 1
  funext f
  cases f <;> simp

theorem all_filter_isTrue : (fs.filter fun f => !f.isTrue).all (eval σ) = fs.all (eval σ) := by
  rw [List.all_filter]
  congr 1
  funext f
  cases f <;> simp [isTrue]

theorem any_filter_isFalse : (fs.filter fun f => !f.isFalse).any (eval σ) = fs.any (eval σ) := by
  rw [List.any_filter]
  congr 1
  funext f
  cases f <;> simp [isFalse]

/-- A rule keeps the meaning. -/
theorem Rewrite.eval_eq (rewrite : Rewrite f g) : g.eval σ = f.eval σ := by
  cases rewrite with
  | notAnd fs _ => rw [eval_or, any_flipNot, eval_not, eval_and]
  | notOr fs _ => rw [eval_and, all_flipNot, eval_not, eval_or]
  | andFalse fs member =>
      rw [eval_and, eval_false, eq_comm, List.all_eq_false]
      exact ⟨.false, member, by simp⟩
  | andTrue fs _ => rw [eval_and, eval_and, all_filter_isTrue]
  | andFlat fs _ => rw [eval_and, eval_and, all_flattenAnd]
  | andNegations fs _ => rw [eval_not, eval_or, any_flipNot, Bool.not_not, eval_and, all_flattenAnd]
  | orTrue fs member =>
      rw [eval_or, eval_true, eq_comm, List.any_eq_true]
      exact ⟨.true, member, eval_true⟩
  | orFalse fs _ => rw [eval_or, eval_or, any_filter_isFalse]
  | orFlat fs _ => rw [eval_or, eval_or, any_flattenOr]
  | orNegations fs _ => rw [eval_not, eval_and, all_flipNot, Bool.not_not, eval_or, any_flattenOr]
  | orRight f₁ f₂ => simp [Bool.or_comm]
  | _ => simp

@[simp] theorem mapPostorderAll_eq {ff : Formula ν → Formula ν} :
    mapPostorderAll ff fs = fs.map (mapPostorder ff) := by
  induction fs with
  | nil => rw [mapPostorderAll, List.map_nil]
  | cons f fs ih => rw [mapPostorderAll, List.map_cons, ih]

theorem eval_mapPostorder {ff : Formula ν → Formula ν} (keeps : ∀ f, (ff f).eval σ = f.eval σ) (f : Formula ν) :
    (mapPostorder ff f).eval σ = f.eval σ := by
  induction f with
  | var v => rw [mapPostorder, keeps]
  | true => rw [mapPostorder, keeps]
  | false => rw [mapPostorder, keeps]
  | not f ih => rw [mapPostorder, keeps, eval_not, ih, eval_not]
  | and fs ih =>
      rw [mapPostorder, keeps, eval_and, mapPostorderAll_eq, List.all_map, eval_and, Bool.eq_iff_iff,
        List.all_eq_true, List.all_eq_true]
      exact forall₂_congr fun f member => by rw [Function.comp_apply, ih f member]
  | or fs ih =>
      rw [mapPostorder, keeps, eval_or, mapPostorderAll_eq, List.any_map, eval_or, Bool.eq_iff_iff,
        List.any_eq_true, List.any_eq_true]
      exact exists_congr fun f => and_congr_right fun member => by rw [Function.comp_apply, ih f member]
  | implies f₁ f₂ ih₁ ih₂ => rw [mapPostorder, keeps, eval_implies, ih₁, ih₂, eval_implies]
  | iff f₁ f₂ ih₁ ih₂ => rw [mapPostorder, keeps, eval_iff, ih₁, ih₂, eval_iff]
  | ifThenElse f₁ f₂ f₃ ih₁ ih₂ ih₃ =>
      rw [mapPostorder, keeps, eval_ifThenElse, ih₁, ih₂, ih₃, eval_ifThenElse]

theorem eval_simplifyOne (f : Formula ν) : (simplifyOne f).eval σ = f.eval σ := by
  rcases simplifyOne_cases f with rewrite | ⟨same, _⟩
  · exact rewrite.eval_eq
  · rw [same]

end Meaning

section Termination

mutual

/-- A measure that each rule lowers. -/
def weight : Formula ν → ℕ
  | var _ => 1
  | .true => 1
  | .false => 1
  | not f => 1 + f.weight
  | and fs => 2 + weights fs
  | or fs => 2 + weights fs
  | implies f₁ f₂ => 2 + f₁.weight + f₂.weight
  | iff f₁ f₂ => 2 + f₁.weight + f₂.weight
  | ifThenElse f₁ f₂ f₃ => 2 + f₁.weight + f₂.weight + f₃.weight

def weights : List (Formula ν) → ℕ
  | [] => 0
  | f :: fs => f.weight + weights fs

end

theorem weights_append {gs : List (Formula ν)} : weights (fs ++ gs) = weights fs + weights gs := by
  induction fs with
  | nil => rw [List.nil_append, weights, Nat.zero_add]
  | cons f fs ih => rw [List.cons_append, weights, weights, ih, Nat.add_assoc]

theorem weight_pos (f : Formula ν) : 0 < f.weight := by
  cases f <;> simp only [weight] <;> omega

theorem weight_flipNot : (flipNot f).weight + (if f.isNot then 2 else 0) = f.weight + 1 := by
  cases f <;> simp only [flipNot, isNot, weight] <;> simp <;> omega

theorem weights_flipNot (fs : List (Formula ν)) :
    weights (fs.map flipNot) + fs.countP isNot = weights fs + nbr fs := by
  have count : fs.countP isNot ≤ fs.length := List.countP_le_length
  -- without subtraction the induction goes through
  suffices weights (fs.map flipNot) + 2 * fs.countP isNot = weights fs + fs.length by
    rw [nbr]
    omega
  clear count
  induction fs with
  | nil => rfl
  | cons f fs ih =>
      have here := weight_flipNot (f := f)
      rw [List.map_cons, weights, weights, List.countP_cons, List.length_cons]
      split at here <;> rename_i isNot <;> simp only [isNot, if_true, if_false, Bool.false_eq_true] <;> omega

/-- Flattening takes the weight of a conjunction away for each that is a member. -/
theorem weights_flattenAnd (fs : List (Formula ν)) :
    weights (flattenAnd fs) + 2 * fs.countP isAnd = weights fs := by
  induction fs with
  | nil => rfl
  | cons f fs ih =>
      have split : flattenAnd (f :: fs) = flattenAnd [f] ++ flattenAnd fs := by simp [flattenAnd]
      rw [split, weights_append, weights, List.countP_cons, ← ih]
      cases f <;> simp only [flattenAnd, isAnd, weight, weights, List.flatMap_cons, List.flatMap_nil,
        List.append_nil, if_true, if_false, Bool.false_eq_true] <;> omega

theorem weights_flattenOr (fs : List (Formula ν)) :
    weights (flattenOr fs) + 2 * fs.countP isOr = weights fs := by
  induction fs with
  | nil => rfl
  | cons f fs ih =>
      have split : flattenOr (f :: fs) = flattenOr [f] ++ flattenOr fs := by simp [flattenOr]
      rw [split, weights_append, weights, List.countP_cons, ← ih]
      cases f <;> simp only [flattenOr, isOr, weight, weights, List.flatMap_cons, List.flatMap_nil,
        List.append_nil, if_true, if_false, Bool.false_eq_true] <;> omega

theorem weights_filter_lt {p : Formula ν → Bool} (member : f ∈ fs) (out : p f = false) :
    weights (fs.filter p) < weights fs := by
  have le : ∀ fs : List (Formula ν), weights (fs.filter p) ≤ weights fs := by
    intro fs
    induction fs with
    | nil => exact Nat.le_refl _
    | cons f fs ih =>
        rw [List.filter_cons]
        split <;> simp only [weights] <;> omega
  obtain ⟨front, back, rfl⟩ := List.append_of_mem member
  have positive := weight_pos f
  have left := le front
  have right := le back
  rw [List.filter_append, List.filter_cons, out, weights_append, weights_append, weights]
  simp only [if_false, Bool.false_eq_true]
  omega

theorem Rewrite.weight_lt (rewrite : Rewrite f g) : g.weight < f.weight := by
  cases rewrite with
  | notAnd fs many =>
      have flipped := weights_flipNot fs
      simp only [weight]
      omega
  | notOr fs many =>
      have flipped := weights_flipNot fs
      simp only [weight]
      omega
  | andTrue fs member =>
      have less := weights_filter_lt (p := fun f => !f.isTrue) member rfl
      simp only [weight]
      omega
  | andFlat fs nested =>
      obtain ⟨gs, member⟩ := nested
      have flat := weights_flattenAnd fs
      have positive : 0 < fs.countP isAnd := List.countP_pos_iff.mpr ⟨_, member, rfl⟩
      simp only [weight]
      omega
  -- more negations than others: flipping them all pays for the new negation
  | andNegations fs many =>
      have flat := weights_flattenAnd fs
      have flipped := weights_flipNot (flattenAnd fs)
      simp only [weight]
      omega
  | orFalse fs member =>
      have less := weights_filter_lt (p := fun f => !f.isFalse) member rfl
      simp only [weight]
      omega
  | orFlat fs nested =>
      obtain ⟨gs, member⟩ := nested
      have flat := weights_flattenOr fs
      have positive : 0 < fs.countP isOr := List.countP_pos_iff.mpr ⟨_, member, rfl⟩
      simp only [weight]
      omega
  | orNegations fs many =>
      have flat := weights_flattenOr fs
      have flipped := weights_flipNot (flattenOr fs)
      simp only [weight]
      omega
  | _ => simp only [weight, weights]; omega

end Termination

section NormalForm

def children : Formula ν → List (Formula ν)
  | not f => [f]
  | and fs => fs
  | or fs => fs
  | implies f₁ f₂ => [f₁, f₂]
  | iff f₁ f₂ => [f₁, f₂]
  | ifThenElse f₁ f₂ f₃ => [f₁, f₂, f₃]
  | _ => []

/-- The property holds of all subformulas. -/
inductive Everywhere (p : Formula ν → Prop) : Formula ν → Prop
  | intro {f : Formula ν} (here : p f) (there : ∀ g ∈ f.children, Everywhere p g) : Everywhere p f

/-- What a transformation of the members of a list comes to, if it lowers the weight of those it changes. -/
theorem map_cases {p : Formula ν → Prop} {m : Formula ν → Formula ν}
    (each : ∀ f ∈ fs, (m f).weight < f.weight ∨ m f = f ∧ p f) :
    weights (fs.map m) < weights fs ∨ fs.map m = fs ∧ ∀ f ∈ fs, p f := by
  induction fs with
  | nil => exact .inr ⟨rfl, List.forall_mem_nil _⟩
  | cons f fs ih =>
      obtain ⟨here, there⟩ := List.forall_mem_cons.mp each
      simp only [List.map_cons, weights]
      rcases here with less | ⟨same, holds⟩
      · rcases ih there with less' | ⟨same', _⟩
        · exact .inl (by omega)
        · exact .inl (by rw [same']; omega)
      · rcases ih there with less' | ⟨same', holds'⟩
        · exact .inl (by rw [same]; omega)
        · exact .inr ⟨by rw [same, same'], List.forall_mem_cons.mpr ⟨holds, holds'⟩⟩

/-- `simplifyOne` at the root, after the members. -/
theorem simplifyOne_after (below : g.weight < f.weight ∨ g = f ∧ ∀ c ∈ f.children, Everywhere Simple c) :
    (simplifyOne g).weight < f.weight ∨ simplifyOne g = f ∧ Everywhere Simple f := by
  rcases simplifyOne_cases g with rewrite | ⟨unchanged, simple⟩
  · have less := rewrite.weight_lt
    rcases below with less' | ⟨rfl, _⟩
    · exact .inl (Nat.lt_trans less less')
    · exact .inl less
  · rw [unchanged]
    rcases below with less | ⟨rfl, there⟩
    · exact .inl less
    · exact .inr ⟨rfl, .intro simple there⟩

/-- A round of `simplify` lowers the weight, unless there is no rule for any subformula. -/
def Progresses (f : Formula ν) : Prop :=
  (mapPostorder simplifyOne f).weight < f.weight ∨ mapPostorder simplifyOne f = f ∧ Everywhere Simple f

theorem progresses (f : Formula ν) : Progresses f := by
  induction f with
  | var v => exact simplifyOne_after (.inr ⟨rfl, List.forall_mem_nil _⟩)
  | true => exact simplifyOne_after (.inr ⟨rfl, List.forall_mem_nil _⟩)
  | false => exact simplifyOne_after (.inr ⟨rfl, List.forall_mem_nil _⟩)
  | not f ih =>
      rw [Progresses, mapPostorder]
      refine simplifyOne_after ?_
      rcases ih with less | ⟨same, simple⟩
      · exact .inl (by simp only [weight]; omega)
      · exact .inr ⟨by rw [same], List.forall_mem_singleton.mpr simple⟩
  | and fs ih =>
      rw [Progresses, mapPostorder, mapPostorderAll_eq]
      refine simplifyOne_after ?_
      rcases map_cases ih with less | ⟨same, simple⟩
      · exact .inl (by simp only [weight]; omega)
      · exact .inr ⟨by rw [same], simple⟩
  | or fs ih =>
      rw [Progresses, mapPostorder, mapPostorderAll_eq]
      refine simplifyOne_after ?_
      rcases map_cases ih with less | ⟨same, simple⟩
      · exact .inl (by simp only [weight]; omega)
      · exact .inr ⟨by rw [same], simple⟩
  | implies f₁ f₂ ih₁ ih₂ =>
      rw [Progresses, mapPostorder]
      refine simplifyOne_after ?_
      have members : ∀ f ∈ [f₁, f₂], Progresses f :=
        List.forall_mem_cons.mpr ⟨ih₁, List.forall_mem_singleton.mpr ih₂⟩
      rcases map_cases members with less | ⟨same, simple⟩
      · exact .inl (by simp only [weight, weights, List.map_cons, List.map_nil] at less ⊢; omega)
      · injection same with same₁ same
        injection same with same₂
        exact .inr ⟨by rw [same₁, same₂], simple⟩
  | iff f₁ f₂ ih₁ ih₂ =>
      rw [Progresses, mapPostorder]
      refine simplifyOne_after ?_
      have members : ∀ f ∈ [f₁, f₂], Progresses f :=
        List.forall_mem_cons.mpr ⟨ih₁, List.forall_mem_singleton.mpr ih₂⟩
      rcases map_cases members with less | ⟨same, simple⟩
      · exact .inl (by simp only [weight, weights, List.map_cons, List.map_nil] at less ⊢; omega)
      · injection same with same₁ same
        injection same with same₂
        exact .inr ⟨by rw [same₁, same₂], simple⟩
  | ifThenElse f₁ f₂ f₃ ih₁ ih₂ ih₃ =>
      rw [Progresses, mapPostorder]
      refine simplifyOne_after ?_
      have members : ∀ f ∈ [f₁, f₂, f₃], Progresses f :=
        List.forall_mem_cons.mpr ⟨ih₁, List.forall_mem_cons.mpr ⟨ih₂, List.forall_mem_singleton.mpr ih₃⟩⟩
      rcases map_cases members with less | ⟨same, simple⟩
      · exact .inl (by simp only [weight, weights, List.map_cons, List.map_nil] at less ⊢; omega)
      · injection same with same₁ same
        injection same with same₂ same
        injection same with same₃
        exact .inr ⟨by rw [same₁, same₂, same₃], simple⟩

end NormalForm

section Result

variable [DecidableEq ν] {rounds : ℕ}

/-- What a round keeps holds of the simplified formula. There are at most as many rounds as the weight of the
formula: the last round changes nothing, and no formula has weight 0. -/
theorem simplify_keeps (inv : Formula ν → Prop) (kept : ∀ g, inv g → inv (mapPostorder simplifyOne g))
    (start : inv f)
    (enough : f.weight ≤ rounds) :
    ∃ g, simplify rounds f = some g ∧ inv g ∧ mapPostorder simplifyOne g = g ∧ Everywhere Simple g := by
  have lower : ∀ g : Formula ν,
      (mapPostorder simplifyOne g).weight - 1 < g.weight - 1 ∨ mapPostorder simplifyOne g = g := by
    intro g
    have positive := weight_pos (mapPostorder simplifyOne g)
    rcases progresses g with less | ⟨same, _⟩
    · exact .inl (by omega)
    · exact .inr same
  have positive := weight_pos f
  obtain ⟨g, result, holds, fixed⟩ :=
    Rewriting.untilFixed_returns inv (fun g => g.weight - 1) kept lower start (by omega : f.weight - 1 < rounds)
  refine ⟨g, result, holds, fixed, ?_⟩
  rcases progresses g with less | ⟨_, simple⟩
  · exact absurd (congrArg weight fixed) (Nat.ne_of_lt less)
  · exact simple

/-- `simplify` ends with an equivalent formula that no rule applies to, and another round leaves it as it is. -/
theorem simplify_returns (enough : f.weight ≤ rounds) :
    ∃ g, simplify rounds f = some g ∧ (∀ σ, g.eval σ = f.eval σ) ∧ Everywhere Simple g ∧
      simplify 1 g = some g := by
  obtain ⟨g, result, equivalent, fixed, simple⟩ := simplify_keeps (fun g => ∀ σ, g.eval σ = f.eval σ)
    (fun g same σ => (eval_mapPostorder eval_simplifyOne g).trans (same σ)) (fun _ => rfl) enough
  refine ⟨g, result, equivalent, simple, ?_⟩
  rw [simplify, fix, Rewriting.untilFixed, fixed, if_pos rfl]

theorem simplify_returns_four : ∃ g : Formula ℕ,
    simplify 20 (or [.false, and [not (var 0), not (var 1), not (var 2)]]) = some g ∧
      (∀ σ, g.eval σ = (or [.false, and [not (var 0), not (var 1), not (var 2)]]).eval σ) ∧
      Everywhere Simple g ∧ simplify 1 g = some g :=
  simplify_returns (by decide)

end Result

section Nodes

variable {p : Formula ν → Prop}

theorem everywhere_iff : Everywhere p f ↔ p f ∧ ∀ g ∈ f.children, Everywhere p g :=
  ⟨fun ⟨here, there⟩ => ⟨here, there⟩, fun ⟨here, there⟩ => .intro here there⟩

theorem Everywhere.mono {q : Formula ν → Prop} (all : Everywhere p f) (each : ∀ f, p f → q f) :
    Everywhere q f := by
  induction all with
  | intro here _ ih => exact .intro (each _ here) ih

@[simp] theorem everywhere_not : Everywhere p (not f) ↔ p (not f) ∧ Everywhere p f := by
  rw [everywhere_iff, children, List.forall_mem_singleton]

@[simp] theorem everywhere_and : Everywhere p (and fs) ↔ p (and fs) ∧ ∀ f ∈ fs, Everywhere p f := by
  rw [everywhere_iff, children]

@[simp] theorem everywhere_or : Everywhere p (or fs) ↔ p (or fs) ∧ ∀ f ∈ fs, Everywhere p f := by
  rw [everywhere_iff, children]

@[simp] theorem everywhere_implies :
    Everywhere p (implies f g) ↔ p (implies f g) ∧ Everywhere p f ∧ Everywhere p g := by
  rw [everywhere_iff, children, List.forall_mem_cons, List.forall_mem_singleton]

@[simp] theorem everywhere_iff_node :
    Everywhere p (iff f g) ↔ p (iff f g) ∧ Everywhere p f ∧ Everywhere p g := by
  rw [everywhere_iff, children, List.forall_mem_cons, List.forall_mem_singleton]

@[simp] theorem everywhere_ifThenElse {f₁ f₂ f₃ : Formula ν} : Everywhere p (ifThenElse f₁ f₂ f₃) ↔
    p (ifThenElse f₁ f₂ f₃) ∧ Everywhere p f₁ ∧ Everywhere p f₂ ∧ Everywhere p f₃ := by
  rw [everywhere_iff, children, List.forall_mem_cons, List.forall_mem_cons, List.forall_mem_singleton]

/-- A property of nodes that every connective but `ifThenElse` has. -/
structure Harmless (p : Formula ν → Prop) : Prop where
  true : p .true
  false : p .false
  not : ∀ f, p (not f)
  and : ∀ fs, p (and fs)
  or : ∀ fs, p (or fs)
  implies : ∀ f₁ f₂, p (implies f₁ f₂)
  iff : ∀ f₁ f₂, p (iff f₁ f₂)
  ifThenElse : ∀ f₁ f₂ f₃ g₁ g₂ g₃, p (ifThenElse f₁ f₂ f₃) → p (ifThenElse g₁ g₂ g₃)

theorem mem_flattenAnd (member : g ∈ flattenAnd fs) : g ∈ fs ∨ ∃ gs, and gs ∈ fs ∧ g ∈ gs := by
  obtain ⟨f, inside, member⟩ := List.mem_flatMap.mp member
  cases f with
  | and gs => exact .inr ⟨gs, inside, member⟩
  | _ => exact .inl (List.mem_singleton.mp member ▸ inside)

theorem mem_flattenOr (member : g ∈ flattenOr fs) : g ∈ fs ∨ ∃ gs, or gs ∈ fs ∧ g ∈ gs := by
  obtain ⟨f, inside, member⟩ := List.mem_flatMap.mp member
  cases f with
  | or gs => exact .inr ⟨gs, inside, member⟩
  | _ => exact .inl (List.mem_singleton.mp member ▸ inside)

theorem everywhere_flattenAnd (all : ∀ f ∈ fs, Everywhere p f) : ∀ f ∈ flattenAnd fs, Everywhere p f := by
  intro f member
  rcases mem_flattenAnd member with inside | ⟨gs, inside, member⟩
  · exact all f inside
  · exact (everywhere_and.mp (all _ inside)).2 f member

theorem everywhere_flattenOr (all : ∀ f ∈ fs, Everywhere p f) : ∀ f ∈ flattenOr fs, Everywhere p f := by
  intro f member
  rcases mem_flattenOr member with inside | ⟨gs, inside, member⟩
  · exact all f inside
  · exact (everywhere_or.mp (all _ inside)).2 f member

theorem everywhere_flipNot (not : ∀ f, p (not f)) (all : ∀ f ∈ fs, Everywhere p f) :
    ∀ f ∈ fs.map flipNot, Everywhere p f := by
  refine List.forall_mem_map.mpr fun f member => ?_
  have holds := all f member
  cases f with
  | not f => exact (everywhere_not.mp holds).2
  | _ => exact everywhere_not.mpr ⟨not _, holds⟩

theorem Rewrite.everywhere (harmless : Harmless p) (rewrite : Rewrite f g) (all : Everywhere p f) :
    Everywhere p g := by
  have leaves : ∀ f : Formula ν, f.children = [] → p f → Everywhere p f := fun f none here =>
    .intro here (none ▸ List.forall_mem_nil _)
  have isTrue := leaves .true rfl harmless.true
  have isFalse := leaves .false rfl harmless.false
  cases rewrite with
  | notAnd fs _ =>
      rw [everywhere_not, everywhere_and] at all
      exact everywhere_or.mpr ⟨harmless.or _, everywhere_flipNot harmless.not all.2.2⟩
  | notOr fs _ =>
      rw [everywhere_not, everywhere_or] at all
      exact everywhere_and.mpr ⟨harmless.and _, everywhere_flipNot harmless.not all.2.2⟩
  | andTrue fs _ =>
      refine everywhere_and.mpr ⟨harmless.and _, fun f member => ?_⟩
      exact (everywhere_and.mp all).2 f (List.mem_of_mem_filter member)
  | andFlat fs _ => exact everywhere_and.mpr ⟨harmless.and _, everywhere_flattenAnd (everywhere_and.mp all).2⟩
  | andNegations fs _ =>
      have flat := everywhere_flattenAnd (everywhere_and.mp all).2
      exact everywhere_not.mpr
        ⟨harmless.not _, everywhere_or.mpr ⟨harmless.or _, everywhere_flipNot harmless.not flat⟩⟩
  | orFalse fs _ =>
      refine everywhere_or.mpr ⟨harmless.or _, fun f member => ?_⟩
      exact (everywhere_or.mp all).2 f (List.mem_of_mem_filter member)
  | orFlat fs _ => exact everywhere_or.mpr ⟨harmless.or _, everywhere_flattenOr (everywhere_or.mp all).2⟩
  | orNegations fs _ =>
      have flat := everywhere_flattenOr (everywhere_or.mp all).2
      exact everywhere_not.mpr
        ⟨harmless.not _, everywhere_and.mpr ⟨harmless.and _, everywhere_flipNot harmless.not flat⟩⟩
  | _ => simp_all [harmless.not, harmless.or, harmless.implies]

theorem everywhere_mapPostorder (harmless : Harmless p) {f : Formula ν} (all : Everywhere p f) :
    Everywhere p (mapPostorder simplifyOne f) := by
  -- the members are transformed first, then the node
  have root : ∀ g : Formula ν, Everywhere p g → Everywhere p (simplifyOne g) := by
    intro g holds
    rcases simplifyOne_cases g with rewrite | ⟨same, _⟩
    · exact rewrite.everywhere harmless holds
    · rwa [same]
  induction f with
  | var v => exact root _ all
  | true => exact root _ all
  | false => exact root _ all
  | not f ih =>
      rw [mapPostorder]
      rw [everywhere_not] at all
      exact root _ (everywhere_not.mpr ⟨harmless.not _, ih all.2⟩)
  | and fs ih =>
      rw [mapPostorder, mapPostorderAll_eq]
      rw [everywhere_and] at all
      exact root _ (everywhere_and.mpr ⟨harmless.and _,
        List.forall_mem_map.mpr fun f member => ih f member (all.2 f member)⟩)
  | or fs ih =>
      rw [mapPostorder, mapPostorderAll_eq]
      rw [everywhere_or] at all
      exact root _ (everywhere_or.mpr ⟨harmless.or _,
        List.forall_mem_map.mpr fun f member => ih f member (all.2 f member)⟩)
  | implies f₁ f₂ ih₁ ih₂ =>
      rw [mapPostorder]
      rw [everywhere_implies] at all
      exact root _ (everywhere_implies.mpr ⟨harmless.implies _ _, ih₁ all.2.1, ih₂ all.2.2⟩)
  | iff f₁ f₂ ih₁ ih₂ =>
      rw [mapPostorder]
      rw [everywhere_iff_node] at all
      exact root _ (everywhere_iff_node.mpr ⟨harmless.iff _ _, ih₁ all.2.1, ih₂ all.2.2⟩)
  | ifThenElse f₁ f₂ f₃ ih₁ ih₂ ih₃ =>
      rw [mapPostorder]
      rw [everywhere_ifThenElse] at all
      refine root _ (everywhere_ifThenElse.mpr ⟨?_, ih₁ all.2.1, ih₂ all.2.2.1, ih₃ all.2.2.2⟩)
      exact harmless.ifThenElse _ _ _ _ _ _ all.1

end Nodes

section Encodable

def isIfThenElse : Formula ν → Bool
  | ifThenElse _ _ _ => true
  | _ => false

/-- Nodes that `ConjunctiveNormalForm` can handle. -/
def Encodable (f : Formula ν) : Prop :=
  f.isConstant = false ∧ f.isIfThenElse = false

theorem harmless_isIfThenElse : Harmless fun f : Formula ν => f.isIfThenElse = false where
  true := rfl
  false := rfl
  not _ := rfl
  and _ := rfl
  or _ := rfl
  implies _ _ := rfl
  iff _ _ := rfl
  ifThenElse _ _ _ _ _ _ is := nomatch is

/-- In a simplified formula constants are only below an `ifThenElse`. -/
theorem encodable_of_simple (simple : Everywhere Simple f)
    (noIf : Everywhere (fun g => g.isIfThenElse = false) f)
    (notConstant : f.isConstant = false) : Everywhere Encodable f := by
  induction simple with
  | @intro f here _ ih =>
      obtain ⟨notIf, below⟩ := everywhere_iff.mp noIf
      refine .intro ⟨notConstant, notIf⟩ fun g member => ih g member (below g member) ?_
      cases f with
      | not f =>
          obtain rfl := List.mem_singleton.mp member
          cases g <;> first | rfl | exact here.1
      | and fs => exact (here.2.1 g member).1
      | or fs => exact (here.2.1 g member).1
      | implies f₁ f₂ =>
          rcases List.mem_pair.mp member with rfl | rfl
          · exact here.1
          · exact here.2.1
      | iff f₁ f₂ =>
          rcases List.mem_pair.mp member with rfl | rfl
          · exact here.1
          · exact here.2
      | ifThenElse f₁ f₂ f₃ => cases notIf
      | _ => cases member

end Encodable

section Variables

/-- The variable is somewhere in the formula. -/
def Occurs (v : ν) (f : Formula ν) : Prop :=
  ¬ Everywhere (· ≠ var v) f

theorem harmless_ne_var (v : ν) : Harmless (· ≠ var v) where
  true := nofun
  false := nofun
  not _ := nofun
  and _ := nofun
  or _ := nofun
  implies _ _ := nofun
  iff _ _ := nofun
  ifThenElse _ _ _ _ _ _ _ := nofun

/-- Neither a constant nor an empty connective, which is one. -/
def Proper (f : Formula ν) : Prop :=
  f.isConstant = false ∧ f ≠ and [] ∧ f ≠ or []

theorem proper_not : Proper (not f) := ⟨rfl, nofun, nofun⟩

theorem proper_and : Proper (and fs) ↔ fs ≠ [] := by
  simp [Proper, isConstant, isTrue, isFalse]

theorem proper_or : Proper (or fs) ↔ fs ≠ [] := by
  simp [Proper, isConstant, isTrue, isFalse]

theorem proper_implies {f₁ f₂ : Formula ν} : Proper (implies f₁ f₂) := ⟨rfl, nofun, nofun⟩

theorem not_proper_true : ¬ Everywhere Proper (.true : Formula ν) := fun proper => by
  cases (everywhere_iff.mp proper).1.1

theorem not_proper_false : ¬ Everywhere Proper (.false : Formula ν) := fun proper => by
  cases (everywhere_iff.mp proper).1.1

theorem exists_mem_flattenAnd (member : f ∈ fs) (proper : Everywhere Proper f) : ∃ g, g ∈ flattenAnd fs := by
  have node := (everywhere_iff.mp proper).1
  cases f with
  | and gs =>
      obtain ⟨g, inside⟩ := List.exists_mem_of_ne_nil gs (proper_and.mp node)
      exact ⟨g, List.mem_flatMap.mpr ⟨_, member, inside⟩⟩
  | _ => exact ⟨_, List.mem_flatMap.mpr ⟨_, member, List.mem_singleton_self _⟩⟩

theorem exists_mem_flattenOr (member : f ∈ fs) (proper : Everywhere Proper f) : ∃ g, g ∈ flattenOr fs := by
  have node := (everywhere_iff.mp proper).1
  cases f with
  | or gs =>
      obtain ⟨g, inside⟩ := List.exists_mem_of_ne_nil gs (proper_or.mp node)
      exact ⟨g, List.mem_flatMap.mpr ⟨_, member, inside⟩⟩
  | _ => exact ⟨_, List.mem_flatMap.mpr ⟨_, member, List.mem_singleton_self _⟩⟩

theorem proper_flattenAnd (proper : Everywhere Proper (and fs)) :
    flattenAnd fs ≠ [] ∧ ∀ f ∈ flattenAnd fs, Everywhere Proper f := by
  rw [everywhere_and, proper_and] at proper
  obtain ⟨f, member⟩ := List.exists_mem_of_ne_nil fs proper.1
  obtain ⟨g, inside⟩ := exists_mem_flattenAnd member (proper.2 f member)
  exact ⟨List.ne_nil_of_mem inside, everywhere_flattenAnd proper.2⟩

theorem proper_flattenOr (proper : Everywhere Proper (or fs)) :
    flattenOr fs ≠ [] ∧ ∀ f ∈ flattenOr fs, Everywhere Proper f := by
  rw [everywhere_or, proper_or] at proper
  obtain ⟨f, member⟩ := List.exists_mem_of_ne_nil fs proper.1
  obtain ⟨g, inside⟩ := exists_mem_flattenOr member (proper.2 f member)
  exact ⟨List.ne_nil_of_mem inside, everywhere_flattenOr proper.2⟩

/-- A rule that applies to a formula without constants makes none. -/
theorem Rewrite.proper (rewrite : Rewrite f g) (proper : Everywhere Proper f) : Everywhere Proper g := by
  cases rewrite with
  | notAnd fs _ =>
      rw [everywhere_not, everywhere_and, proper_and] at proper
      refine everywhere_or.mpr ⟨proper_or.mpr ?_, everywhere_flipNot (fun _ => proper_not) proper.2.2⟩
      simpa using proper.2.1
  | notOr fs _ =>
      rw [everywhere_not, everywhere_or, proper_or] at proper
      refine everywhere_and.mpr ⟨proper_and.mpr ?_, everywhere_flipNot (fun _ => proper_not) proper.2.2⟩
      simpa using proper.2.1
  | andTrue fs member => exact absurd ((everywhere_and.mp proper).2 _ member) not_proper_true
  | andFalse fs member => exact absurd ((everywhere_and.mp proper).2 _ member) not_proper_false
  | andFlat fs _ =>
      obtain ⟨some, all⟩ := proper_flattenAnd proper
      exact everywhere_and.mpr ⟨proper_and.mpr some, all⟩
  | andNegations fs _ =>
      obtain ⟨some, all⟩ := proper_flattenAnd proper
      refine everywhere_not.mpr
        ⟨proper_not, everywhere_or.mpr ⟨proper_or.mpr ?_, everywhere_flipNot (fun _ => proper_not) all⟩⟩
      simpa using some
  | orTrue fs member => exact absurd ((everywhere_or.mp proper).2 _ member) not_proper_true
  | orFalse fs member => exact absurd ((everywhere_or.mp proper).2 _ member) not_proper_false
  | orFlat fs _ =>
      obtain ⟨some, all⟩ := proper_flattenOr proper
      exact everywhere_or.mpr ⟨proper_or.mpr some, all⟩
  | orNegations fs _ =>
      obtain ⟨some, all⟩ := proper_flattenOr proper
      refine everywhere_not.mpr
        ⟨proper_not, everywhere_and.mpr ⟨proper_and.mpr ?_, everywhere_flipNot (fun _ => proper_not) all⟩⟩
      simpa using some
  | _ => simp_all [not_proper_true, not_proper_false, proper_implies, proper_or, proper_and]

variable {v : ν}

theorem absent_of_flipNot (absent : Everywhere (· ≠ var v) (flipNot f)) : Everywhere (· ≠ var v) f := by
  cases f with
  | not f => exact everywhere_not.mpr ⟨nofun, absent⟩
  | _ => exact (everywhere_not.mp absent).2

theorem absent_of_map_flipNot (absent : ∀ f ∈ fs.map flipNot, Everywhere (· ≠ var v) f) :
    ∀ f ∈ fs, Everywhere (· ≠ var v) f :=
  fun _ member => absent_of_flipNot (absent _ (List.mem_map_of_mem member))

theorem absent_of_flattenAnd (absent : ∀ f ∈ flattenAnd fs, Everywhere (· ≠ var v) f) :
    ∀ f ∈ fs, Everywhere (· ≠ var v) f := by
  intro f member
  cases f with
  | and gs =>
      exact everywhere_and.mpr ⟨nofun, fun g inside => absent g (List.mem_flatMap.mpr ⟨_, member, inside⟩)⟩
  | _ => exact absent _ (List.mem_flatMap.mpr ⟨_, member, List.mem_singleton_self _⟩)

theorem absent_of_flattenOr (absent : ∀ f ∈ flattenOr fs, Everywhere (· ≠ var v) f) :
    ∀ f ∈ fs, Everywhere (· ≠ var v) f := by
  intro f member
  cases f with
  | or gs =>
      exact everywhere_or.mpr ⟨nofun, fun g inside => absent g (List.mem_flatMap.mpr ⟨_, member, inside⟩)⟩
  | _ => exact absent _ (List.mem_flatMap.mpr ⟨_, member, List.mem_singleton_self _⟩)

/-- Without constants no rule makes a variable disappear. -/
theorem Rewrite.absent (rewrite : Rewrite f g) (proper : Everywhere Proper f)
    (absent : Everywhere (· ≠ var v) g) :
    Everywhere (· ≠ var v) f := by
  cases rewrite with
  | notAnd fs _ =>
      exact everywhere_not.mpr
        ⟨nofun, everywhere_and.mpr ⟨nofun, absent_of_map_flipNot (everywhere_or.mp absent).2⟩⟩
  | notOr fs _ =>
      exact everywhere_not.mpr
        ⟨nofun, everywhere_or.mpr ⟨nofun, absent_of_map_flipNot (everywhere_and.mp absent).2⟩⟩
  -- only the rules for constants forget a part of the formula
  | andTrue fs member => exact absurd ((everywhere_and.mp proper).2 _ member) not_proper_true
  | andFalse fs member => exact absurd ((everywhere_and.mp proper).2 _ member) not_proper_false
  | andFlat fs _ => exact everywhere_and.mpr ⟨nofun, absent_of_flattenAnd (everywhere_and.mp absent).2⟩
  | andNegations fs _ =>
      rw [everywhere_not, everywhere_or] at absent
      exact everywhere_and.mpr ⟨nofun, absent_of_flattenAnd (absent_of_map_flipNot absent.2.2)⟩
  | orTrue fs member => exact absurd ((everywhere_or.mp proper).2 _ member) not_proper_true
  | orFalse fs member => exact absurd ((everywhere_or.mp proper).2 _ member) not_proper_false
  | orFlat fs _ => exact everywhere_or.mpr ⟨nofun, absent_of_flattenOr (everywhere_or.mp absent).2⟩
  | orNegations fs _ =>
      rw [everywhere_not, everywhere_and] at absent
      exact everywhere_or.mpr ⟨nofun, absent_of_flattenOr (absent_of_map_flipNot absent.2.2)⟩
  | _ => simp_all [not_proper_true, not_proper_false, proper_or, proper_and]

/-- What a transformation does to a formula without constants. -/
def KeepsVariables (f g : Formula ν) : Prop :=
  Everywhere Proper f → Everywhere Proper g ∧ ∀ v, Everywhere (· ≠ var v) g → Everywhere (· ≠ var v) f

theorem keepsVariables_simplifyOne {g : Formula ν} (keeps : KeepsVariables f g) :
    KeepsVariables f (simplifyOne g) := by
  intro proper
  obtain ⟨proper', absent⟩ := keeps proper
  rcases simplifyOne_cases g with rewrite | ⟨same, _⟩
  · exact ⟨rewrite.proper proper', fun v missing => absent v (rewrite.absent proper' missing)⟩
  · rw [same]
    exact ⟨proper', absent⟩

theorem keepsVariables_mapPostorder (f : Formula ν) : KeepsVariables f (mapPostorder simplifyOne f) := by
  induction f with
  | var v => exact keepsVariables_simplifyOne fun proper => ⟨proper, fun _ => id⟩
  | true => exact keepsVariables_simplifyOne fun proper => ⟨proper, fun _ => id⟩
  | false => exact keepsVariables_simplifyOne fun proper => ⟨proper, fun _ => id⟩
  | not f ih =>
      rw [mapPostorder]
      refine keepsVariables_simplifyOne fun proper => ?_
      rw [everywhere_not] at proper
      obtain ⟨proper', absent⟩ := ih proper.2
      refine ⟨everywhere_not.mpr ⟨proper_not, proper'⟩, fun v missing => ?_⟩
      exact everywhere_not.mpr ⟨nofun, absent v (everywhere_not.mp missing).2⟩
  | and fs ih =>
      rw [mapPostorder, mapPostorderAll_eq]
      refine keepsVariables_simplifyOne fun proper => ?_
      rw [everywhere_and, proper_and] at proper
      refine ⟨everywhere_and.mpr
        ⟨proper_and.mpr (by simpa using proper.1), List.forall_mem_map.mpr fun f member => ?_⟩,
        fun v missing => everywhere_and.mpr ⟨nofun, fun f member => ?_⟩⟩
      · exact (ih f member (proper.2 f member)).1
      · exact (ih f member (proper.2 f member)).2 v
          ((everywhere_and.mp missing).2 _ (List.mem_map_of_mem member))
  | or fs ih =>
      rw [mapPostorder, mapPostorderAll_eq]
      refine keepsVariables_simplifyOne fun proper => ?_
      rw [everywhere_or, proper_or] at proper
      refine ⟨everywhere_or.mpr
        ⟨proper_or.mpr (by simpa using proper.1), List.forall_mem_map.mpr fun f member => ?_⟩,
        fun v missing => everywhere_or.mpr ⟨nofun, fun f member => ?_⟩⟩
      · exact (ih f member (proper.2 f member)).1
      · exact (ih f member (proper.2 f member)).2 v
          ((everywhere_or.mp missing).2 _ (List.mem_map_of_mem member))
  | implies f₁ f₂ ih₁ ih₂ =>
      rw [mapPostorder]
      refine keepsVariables_simplifyOne fun proper => ?_
      rw [everywhere_implies] at proper
      obtain ⟨proper₁, absent₁⟩ := ih₁ proper.2.1
      obtain ⟨proper₂, absent₂⟩ := ih₂ proper.2.2
      refine ⟨everywhere_implies.mpr ⟨⟨rfl, nofun, nofun⟩, proper₁, proper₂⟩, fun v missing => ?_⟩
      obtain ⟨_, missing₁, missing₂⟩ := everywhere_implies.mp missing
      exact everywhere_implies.mpr ⟨nofun, absent₁ v missing₁, absent₂ v missing₂⟩
  | iff f₁ f₂ ih₁ ih₂ =>
      rw [mapPostorder]
      refine keepsVariables_simplifyOne fun proper => ?_
      rw [everywhere_iff_node] at proper
      obtain ⟨proper₁, absent₁⟩ := ih₁ proper.2.1
      obtain ⟨proper₂, absent₂⟩ := ih₂ proper.2.2
      refine ⟨everywhere_iff_node.mpr ⟨⟨rfl, nofun, nofun⟩, proper₁, proper₂⟩, fun v missing => ?_⟩
      obtain ⟨_, missing₁, missing₂⟩ := everywhere_iff_node.mp missing
      exact everywhere_iff_node.mpr ⟨nofun, absent₁ v missing₁, absent₂ v missing₂⟩
  | ifThenElse f₁ f₂ f₃ ih₁ ih₂ ih₃ =>
      rw [mapPostorder]
      refine keepsVariables_simplifyOne fun proper => ?_
      rw [everywhere_ifThenElse] at proper
      obtain ⟨proper₁, absent₁⟩ := ih₁ proper.2.1
      obtain ⟨proper₂, absent₂⟩ := ih₂ proper.2.2.1
      obtain ⟨proper₃, absent₃⟩ := ih₃ proper.2.2.2
      refine ⟨everywhere_ifThenElse.mpr ⟨⟨rfl, nofun, nofun⟩, proper₁, proper₂, proper₃⟩, fun v missing => ?_⟩
      obtain ⟨_, missing₁, missing₂, missing₃⟩ := everywhere_ifThenElse.mp missing
      exact everywhere_ifThenElse.mpr ⟨nofun, absent₁ v missing₁, absent₂ v missing₂, absent₃ v missing₃⟩

end Variables

end Renaissance.CafeSat.Formula
