import Renaissance.ScalaSat.SatSessions
import Renaissance.ScalaSat.Simplification

/-!
# Conjunctive normal form

`ConjunctiveNormalForm` gives every subformula a number and constrains it to the value of the subformula.
`apply_returns`: the clauses have a model that agrees with an assignment exactly if the assignment satisfies
the formula.
-/

namespace Renaissance.CafeSat.ConjunctiveNormalForm

open JavaCollections Formula

variable {ν : Type}

/-- The numbers up to `count` are in use. -/
structure State (ν : Type) where
  count : ℕ
  constraints : List (List Literal)
  varToLiteral : List (ν × ℕ)

def State.initial : State ν where
  count := 0
  constraints := []
  varToLiteral := []

/-- `PropLiteralID.next`, which returns the number `count`. -/
def State.next (s : State ν) : State ν :=
  { s with count := s.count + 1 }

def State.constrain (s : State ν) (constraints : List (List Literal)) : State ν :=
  { s with constraints := s.constraints ++ constraints }

def notConstraints (repr fRepr : ℕ) : List (List Literal) :=
  [[⟨repr, false⟩, ⟨fRepr, false⟩], [⟨repr, true⟩, ⟨fRepr, true⟩]]

def andConstraints (repr : ℕ) (fsRepr : List ℕ) : List (List Literal) :=
  fsRepr.map (fun fRepr => [⟨repr, false⟩, ⟨fRepr, true⟩]) ++
    [⟨repr, true⟩ :: fsRepr.map fun fRepr => ⟨fRepr, false⟩]

def orConstraints (repr : ℕ) (fsRepr : List ℕ) : List (List Literal) :=
  fsRepr.map (fun fRepr => [⟨repr, true⟩, ⟨fRepr, false⟩]) ++
    [⟨repr, false⟩ :: fsRepr.map fun fRepr => ⟨fRepr, true⟩]

def impliesConstraints (repr f₁Repr f₂Repr : ℕ) : List (List Literal) :=
  [[⟨repr, false⟩, ⟨f₁Repr, false⟩, ⟨f₂Repr, true⟩], [⟨repr, true⟩, ⟨f₁Repr, true⟩],
    [⟨repr, true⟩, ⟨f₂Repr, false⟩]]

def iffConstraints (repr f₁Repr f₂Repr : ℕ) : List (List Literal) :=
  [[⟨repr, false⟩, ⟨f₁Repr, false⟩, ⟨f₂Repr, true⟩], [⟨repr, false⟩, ⟨f₁Repr, true⟩, ⟨f₂Repr, false⟩],
    [⟨repr, true⟩, ⟨f₁Repr, false⟩, ⟨f₂Repr, false⟩], [⟨repr, true⟩, ⟨f₁Repr, true⟩, ⟨f₂Repr, true⟩]]

section Formed

variable {s : State ν} {constraints : List (List Literal)}

/-- Clauses that the solver accepts. -/
def Accepted (count : ℕ) (constraints : List (List Literal)) : Prop :=
  ∀ c ∈ constraints, c ≠ [] ∧ ∀ lit ∈ c, lit.id < count

structure Formed (s : State ν) : Prop where
  constraints : Accepted s.count s.constraints
  inside : ∀ p ∈ s.varToLiteral, p.2 < s.count

theorem initial_formed : Formed (State.initial : State ν) :=
  ⟨List.forall_mem_nil _, List.forall_mem_nil _⟩

theorem Formed.next (formed : Formed s) : Formed s.next where
  constraints c member :=
    ⟨(formed.constraints c member).1, fun lit inClause =>
      ((formed.constraints c member).2 lit inClause).trans (Nat.lt_succ_self _)⟩
  inside p member := (formed.inside p member).trans (Nat.lt_succ_self _)

theorem Formed.constrain (formed : Formed s) (accepted : Accepted s.count constraints) :
    Formed (s.constrain constraints) where
  constraints := List.forall_mem_append.mpr ⟨formed.constraints, accepted⟩
  inside := formed.inside

end Formed

variable [DecidableEq ν]

mutual

/-- `rec`: the number of the formula. The other formulas are an error. -/
def encode : Formula ν → State ν → Option (ℕ × State ν)
  | .not f, s => do
      let (fRepr, s) ← encode f s
      pure (s.count, s.next.constrain (notConstraints s.count fRepr))
  | .and fs, s => do
      let repr := s.count
      let (fsRepr, s) ← encodeAll fs s.next
      pure (repr, s.constrain (andConstraints repr fsRepr))
  | .or fs, s => do
      let repr := s.count
      let (fsRepr, s) ← encodeAll fs s.next
      pure (repr, s.constrain (orConstraints repr fsRepr))
  | .implies f₁ f₂, s => do
      let repr := s.count
      let (f₁Repr, s) ← encode f₁ s.next
      let (f₂Repr, s) ← encode f₂ s
      pure (repr, s.constrain (impliesConstraints repr f₁Repr f₂Repr))
  | .iff f₁ f₂, s => do
      let repr := s.count
      let (f₁Repr, s) ← encode f₁ s.next
      let (f₂Repr, s) ← encode f₂ s
      pure (repr, s.constrain (iffConstraints repr f₁Repr f₂Repr))
  | .var p, s =>
      match s.varToLiteral.lookup p with
      | some repr => some (repr, s)
      | none => some (s.count, { s.next with varToLiteral := (p, s.count) :: s.varToLiteral })
  | _, _ => none

def encodeAll : List (Formula ν) → State ν → Option (List ℕ × State ν)
  | [], s => some ([], s)
  | f :: fs, s => do
      let (fRepr, s) ← encode f s
      let (fsRepr, s) ← encodeAll fs s
      pure (fRepr :: fsRepr, s)

end

/-- Literals are compared by identity, so the set of the constraints has them all. -/
def apply (order : IterationOrder (List Literal)) (formula : Formula ν) :
    Option (List (List Literal) × ℕ × List (ν × ℕ)) := do
  let (repr, s) ← encode formula .initial
  pure (order.arrange (s.constrain [[⟨repr, true⟩]]).constraints, s.count, s.varToLiteral)

section Constraints

variable {τ : ℕ → Bool} {repr : ℕ}

theorem satisfiesAll_append {F G : List (List Literal)} :
    SatisfiesAll τ (F ++ G) ↔ SatisfiesAll τ F ∧ SatisfiesAll τ G := by
  simp only [SatisfiesAll, List.forall_mem_append]

theorem satisfiesAll_not {a : ℕ} : SatisfiesAll τ (notConstraints repr a) ↔ τ repr = !τ a := by
  cases here : τ repr <;> cases there : τ a <;> simp [SatisfiesAll, notConstraints, Literal.Holds, here, there]

theorem satisfiesAll_implies {a b : ℕ} :
    SatisfiesAll τ (impliesConstraints repr a b) ↔ τ repr = (!τ a || τ b) := by
  cases here : τ repr <;> cases left : τ a <;> cases right : τ b <;>
    simp [SatisfiesAll, impliesConstraints, Literal.Holds, here, left, right]

theorem satisfiesAll_iff {a b : ℕ} : SatisfiesAll τ (iffConstraints repr a b) ↔ τ repr = (τ a == τ b) := by
  cases here : τ repr <;> cases left : τ a <;> cases right : τ b <;>
    simp [SatisfiesAll, iffConstraints, Literal.Holds, here, left, right]

theorem satisfiesAll_singleton {c : List Literal} : SatisfiesAll τ [c] ↔ ∃ lit ∈ c, lit.Holds τ :=
  List.forall_mem_singleton

theorem satisfiesAll_map {rs : List ℕ} {clause : ℕ → List Literal} :
    SatisfiesAll τ (rs.map clause) ↔ ∀ r ∈ rs, ∃ lit ∈ clause r, lit.Holds τ :=
  List.forall_mem_map

theorem satisfiesAll_and {rs : List ℕ} : SatisfiesAll τ (andConstraints repr rs) ↔ τ repr = rs.all τ := by
  rw [andConstraints, satisfiesAll_append, satisfiesAll_map, satisfiesAll_singleton]
  cases here : τ repr <;> simp [Literal.Holds, here]

theorem satisfiesAll_or {rs : List ℕ} : SatisfiesAll τ (orConstraints repr rs) ↔ τ repr = rs.any τ := by
  rw [orConstraints, satisfiesAll_append, satisfiesAll_map, satisfiesAll_singleton]
  cases here : τ repr <;> simp [Literal.Holds, here]

end Constraints

section States

variable {σ : ν → Bool} {τ τ' : ℕ → Bool} {s s' s₁ s₂ : State ν} {constraints : List (List Literal)}
  {f : Formula ν} {repr : ℕ} {v : ν}

theorem Formed.mapping (formed : Formed s) (v : ν) (r : ℕ) (found : s.varToLiteral.lookup v = some r) :
    r < s.count := by
  obtain ⟨front, back, split, _⟩ := List.lookup_eq_some_iff.mp found
  exact formed.inside (v, r) (split ▸ List.mem_append_right _ List.mem_cons_self)

/-- The numbers have values that agree with those of the variables. -/
structure Fits (σ : ν → Bool) (τ : ℕ → Bool) (s : State ν) : Prop where
  satisfies : SatisfiesAll τ s.constraints
  mapping : ∀ v r, s.varToLiteral.lookup v = some r → τ r = σ v

theorem initial_fits : Fits σ τ State.initial :=
  ⟨List.forall_mem_nil _, nofun⟩

/-- What a part of the formula adds to the state: values that fit before have an extension that fits after. -/
structure Extends (s s' : State ν) : Prop where
  count_le : s.count ≤ s'.count
  formed : Formed s'
  known : ∀ v, s'.varToLiteral.lookup v = none → s.varToLiteral.lookup v = none
  fits : ∀ σ τ, Fits σ τ s' → Fits σ τ s
  extension : ∀ σ τ, Fits σ τ s → ∃ τ', (∀ i < s.count, τ' i = τ i) ∧ Fits σ τ' s'

theorem Extends.refl (formed : Formed s) : Extends s s :=
  ⟨le_refl _, formed, fun _ => id, fun _ _ => id, fun _ τ fits => ⟨τ, fun _ _ => rfl, fits⟩⟩

theorem Extends.trans (first : Extends s s₁) (second : Extends s₁ s₂) : Extends s s₂ where
  count_le := first.count_le.trans second.count_le
  formed := second.formed
  known v none := first.known v (second.known v none)
  fits σ τ after := first.fits σ τ (second.fits σ τ after)
  extension σ τ before := by
    obtain ⟨τ₁, same₁, fits₁⟩ := first.extension σ τ before
    obtain ⟨τ₂, same₂, fits₂⟩ := second.extension σ τ₁ fits₁
    exact ⟨τ₂, fun i low => (same₂ i (low.trans_le first.count_le)).trans (same₁ i low), fits₂⟩

theorem Fits.congr (formed : Formed s) (fits : Fits σ τ s) (same : ∀ i < s.count, τ' i = τ i) :
    Fits σ τ' s where
  satisfies c member := by
    obtain ⟨lit, inClause, holds⟩ := fits.satisfies c member
    exact ⟨lit, inClause, (same _ ((formed.constraints c member).2 lit inClause)).trans holds⟩
  mapping v r found := (same r (formed.mapping v r found)).trans (fits.mapping v r found)

theorem fits_constrain : Fits σ τ (s.constrain constraints) ↔ Fits σ τ s ∧ SatisfiesAll τ constraints := by
  constructor
  · rintro ⟨satisfies, mapping⟩
    rw [State.constrain, satisfiesAll_append] at satisfies
    exact ⟨⟨satisfies.1, mapping⟩, satisfies.2⟩
  · rintro ⟨⟨satisfies, mapping⟩, more⟩
    exact ⟨satisfiesAll_append.mpr ⟨satisfies, more⟩, mapping⟩

/-- The number stands for the formula. -/
def Represents (s : State ν) (repr : ℕ) (f : Formula ν) : Prop :=
  repr < s.count ∧ ∀ σ τ, Fits σ τ s → τ repr = f.eval σ

theorem Represents.mono (represents : Represents s repr f) (later : Extends s s') : Represents s' repr f :=
  ⟨represents.1.trans_le later.count_le, fun σ τ fits => represents.2 σ τ (later.fits σ τ fits)⟩

/-- What `encode` does: the variables of the formula are known afterwards. -/
structure Encoded (s s' : State ν) (repr : ℕ) (f : Formula ν) : Prop where
  later : Extends s s'
  represents : Represents s' repr f
  occurring : ∀ v, s'.varToLiteral.lookup v = none → Everywhere (· ≠ var v) f
  size : s'.count ≤ s.count + f.weight

/-- A number whose constraints fix its value once all of the members have theirs. -/
theorem encoded_gate (formed : Formed s) (below : Extends s.next s₂) (accepted : Accepted s₂.count constraints)
    (gate : ∀ σ τ, Fits σ τ s₂ → (SatisfiesAll τ constraints ↔ τ s.count = f.eval σ))
    (occurring : ∀ v, s₂.varToLiteral.lookup v = none → Everywhere (· ≠ var v) f)
    (size : s₂.count ≤ s.count + f.weight) :
    Encoded s (s₂.constrain constraints) s.count f where
  later :=
    { count_le := (Nat.le_succ _).trans below.count_le
      formed := below.formed.constrain accepted
      known := below.known
      fits := fun σ τ after => ⟨(below.fits σ τ (fits_constrain.mp after).1).satisfies,
        (below.fits σ τ (fits_constrain.mp after).1).mapping⟩
      extension := by
        intro σ τ before
        -- The new number gets its value first: the members only extend the values from there on.
        let τ₁ := Function.update τ s.count (f.eval σ)
        have same₁ : ∀ i < s.count, τ₁ i = τ i := fun i low => Function.update_of_ne low.ne _ _
        have before₁ := before.congr formed same₁
        obtain ⟨τ₂, same₂, fits₂⟩ := below.extension σ τ₁ ⟨before₁.satisfies, before₁.mapping⟩
        refine ⟨τ₂, fun i low => (same₂ i (low.trans (Nat.lt_succ_self _))).trans (same₁ i low), ?_⟩
        have value : τ₂ s.count = f.eval σ := by
          rw [same₂ s.count (Nat.lt_succ_self _)]
          exact Function.update_self _ _ _
        exact fits_constrain.mpr ⟨fits₂, (gate σ τ₂ fits₂).mpr value⟩ }
  represents := by
    refine ⟨Nat.lt_of_succ_le below.count_le, fun σ τ fits => ?_⟩
    obtain ⟨fits₂, satisfies⟩ := fits_constrain.mp fits
    exact (gate σ τ fits₂).mp satisfies
  occurring := occurring
  size := size

theorem encoded_known (formed : Formed s) (found : s.varToLiteral.lookup v = some repr) :
    Encoded s s repr (var v) where
  later := .refl formed
  represents := ⟨formed.mapping v repr found, fun σ τ fits => (fits.mapping v repr found).trans eval_var.symm⟩
  occurring w none := by
    refine .intro ?_ (List.forall_mem_nil _)
    rintro ⟨rfl⟩
    rw [found] at none
    cases none
  size := Nat.le_add_right _ _

/-- The mapping after a new variable. -/
theorem lookup_new {w : ν} : ((v, s.count) :: s.varToLiteral).lookup w =
    if w = v then some s.count else s.varToLiteral.lookup w := by
  by_cases same : w = v
  · rw [if_pos same, same, List.lookup_cons_self]
  · rw [if_neg same, List.lookup_cons, beq_false_of_ne same]

theorem encoded_new (formed : Formed s) (new : s.varToLiteral.lookup v = none) :
    Encoded s { s.next with varToLiteral := (v, s.count) :: s.varToLiteral } s.count (var v) := by
  have old : ∀ w r, s.varToLiteral.lookup w = some r → ((v, s.count) :: s.varToLiteral).lookup w = some r := by
    intro w r found
    have other : w ≠ v := by
      rintro rfl
      rw [new] at found
      cases found
    rw [lookup_new, if_neg other, found]
  have here : ((v, s.count) :: s.varToLiteral).lookup v = some s.count := by rw [lookup_new, if_pos rfl]
  constructor
  · constructor
    · exact Nat.le_succ _
    · exact ⟨formed.next.constraints, List.forall_mem_cons.mpr ⟨Nat.lt_succ_self _, formed.next.inside⟩⟩
    · intro w none
      rw [lookup_new] at none
      split at none
      · cases none
      · exact none
    · exact fun σ τ fits => ⟨fits.satisfies, fun w r found => fits.mapping w r (old w r found)⟩
    · intro σ τ fits
      have same : ∀ i < s.count, Function.update τ s.count (σ v) i = τ i :=
        fun i low => Function.update_of_ne low.ne _ _
      have fits' := fits.congr formed same
      refine ⟨_, same, fits'.satisfies, fun w r found => ?_⟩
      rw [lookup_new] at found
      split at found
      next isNew =>
        cases found
        rw [Function.update_self, isNew]
      next => exact fits'.mapping w r found
  · exact ⟨Nat.lt_succ_self _, fun σ τ fits => (fits.mapping v s.count here).trans eval_var.symm⟩
  · intro w none
    refine .intro ?_ (List.forall_mem_nil _)
    rintro ⟨rfl⟩
    rw [here] at none
    cases none
  · exact Nat.add_le_add_left (weight_pos _) _

theorem accepted_and {count : ℕ} {rs : List ℕ} (inside : repr < count) (all : ∀ r ∈ rs, r < count) :
    Accepted count (andConstraints repr rs) := by
  refine List.forall_mem_append.mpr
    ⟨List.forall_mem_map.mpr fun r member => ?_, List.forall_mem_singleton.mpr ?_⟩
  · exact ⟨List.cons_ne_nil _ _, List.forall_mem_cons.mpr
      ⟨inside, List.forall_mem_singleton.mpr (all r member)⟩⟩
  · exact ⟨List.cons_ne_nil _ _, List.forall_mem_cons.mpr ⟨inside, List.forall_mem_map.mpr all⟩⟩

theorem accepted_or {count : ℕ} {rs : List ℕ} (inside : repr < count) (all : ∀ r ∈ rs, r < count) :
    Accepted count (orConstraints repr rs) := by
  refine List.forall_mem_append.mpr
    ⟨List.forall_mem_map.mpr fun r member => ?_, List.forall_mem_singleton.mpr ?_⟩
  · exact ⟨List.cons_ne_nil _ _, List.forall_mem_cons.mpr
      ⟨inside, List.forall_mem_singleton.mpr (all r member)⟩⟩
  · exact ⟨List.cons_ne_nil _ _, List.forall_mem_cons.mpr ⟨inside, List.forall_mem_map.mpr all⟩⟩

theorem accepted_not {count a : ℕ} (inside : repr < count) (left : a < count) :
    Accepted count (notConstraints repr a) := by
  simp [Accepted, notConstraints, inside, left]

theorem accepted_implies {count a b : ℕ} (inside : repr < count) (left : a < count) (right : b < count) :
    Accepted count (impliesConstraints repr a b) := by
  simp [Accepted, impliesConstraints, inside, left, right]

theorem accepted_iff {count a b : ℕ} (inside : repr < count) (left : a < count) (right : b < count) :
    Accepted count (iffConstraints repr a b) := by
  simp [Accepted, iffConstraints, inside, left, right]

/-- What `encodeAll` does, if `encode` handles each of the formulas. -/
theorem encodeAll_returns {fs : List (Formula ν)}
    (each : ∀ f ∈ fs, ∀ s : State ν, Formed s → ∃ repr s', encode f s = some (repr, s') ∧ Encoded s s' repr f)
    (formed : Formed s) :
    ∃ rs s', encodeAll fs s = some (rs, s') ∧ Extends s s' ∧ (∀ r ∈ rs, r < s'.count) ∧
      (∀ σ τ, Fits σ τ s' → rs.map τ = fs.map (eval σ)) ∧
      (∀ v, s'.varToLiteral.lookup v = none → ∀ f ∈ fs, Everywhere (· ≠ var v) f) ∧
      s'.count ≤ s.count + weights fs := by
  induction fs generalizing s with
  | nil =>
      exact ⟨[], s, by rw [encodeAll], .refl formed, List.forall_mem_nil _, fun _ _ _ => rfl,
        fun _ _ => List.forall_mem_nil _, le_refl _⟩
  | cons f fs ih =>
      obtain ⟨here, there⟩ := List.forall_mem_cons.mp each
      obtain ⟨r, s₁, first, encoded⟩ := here s formed
      obtain ⟨rs, s₂, rest, later, inside, values, occurring, size⟩ := ih there encoded.later.formed
      have represents := encoded.represents.mono later
      refine ⟨r :: rs, s₂, ?_, encoded.later.trans later, List.forall_mem_cons.mpr ⟨represents.1, inside⟩,
        fun σ τ fits => ?_, fun v none => ?_, ?_⟩
      · simp [encodeAll, first, rest]
      · rw [List.map_cons, List.map_cons, represents.2 σ τ fits, values σ τ fits]
      · exact List.forall_mem_cons.mpr ⟨encoded.occurring v (later.known v none), occurring v none⟩
      · have here := encoded.size
        rw [weights]
        omega

theorem encode_returns {f : Formula ν} (encodable : Everywhere Encodable f) (formed : Formed s) :
    ∃ repr s', encode f s = some (repr, s') ∧ Encoded s s' repr f := by
  induction f generalizing s with
  | var v =>
      cases found : s.varToLiteral.lookup v with
      | some repr => exact ⟨repr, s, by simp [encode, found], encoded_known formed found⟩
      | none => exact ⟨_, _, by simp [encode, found], encoded_new formed found⟩
  | true => cases (everywhere_iff.mp encodable).1.1
  | false => cases (everywhere_iff.mp encodable).1.1
  | not f ih =>
      obtain ⟨r, s₁, first, encoded⟩ := ih (everywhere_not.mp encodable).2 formed
      have formed₁ := encoded.later.formed
      have gate : Encoded s₁ (s₁.next.constrain (notConstraints s₁.count r)) s₁.count (.not f) := by
        refine encoded_gate formed₁ (.refl formed₁.next) ?_ (fun σ τ fits => ?_) (fun v none => ?_) ?_
        · exact accepted_not (Nat.lt_succ_self _) (encoded.represents.1.trans (Nat.lt_succ_self _))
        · rw [satisfiesAll_not, encoded.represents.2 σ τ ⟨fits.satisfies, fits.mapping⟩, eval_not]
        · exact everywhere_not.mpr ⟨(harmless_ne_var v).not f, encoded.occurring v none⟩
        · exact Nat.add_le_add_left (weight_pos _) _
      have size : s₁.count + 1 ≤ s.count + (Formula.not f).weight := by
        have size := encoded.size
        rw [weight]
        omega
      exact ⟨s₁.count, _, by simp [encode, first], encoded.later.trans gate.later, gate.represents,
        gate.occurring, size⟩
  | and fs ih =>
      have each := fun f member (s : State ν) (formed : Formed s) =>
        ih f member ((everywhere_and.mp encodable).2 f member) formed
      obtain ⟨rs, s₂, all, later, inside, values, occurring, size⟩ := encodeAll_returns each formed.next
      refine ⟨s.count, s₂.constrain (andConstraints s.count rs), by simp [encode, all],
        encoded_gate formed later ?_ (fun σ τ fits => ?_) (fun v none => ?_) ?_⟩
      · exact accepted_and (Nat.lt_of_succ_le later.count_le) inside
      · have same : rs.all τ = fs.all (eval σ) := by
          simpa using congrArg (fun bs => bs.all id) (values σ τ fits)
        rw [satisfiesAll_and, eval_and, same]
      · exact everywhere_and.mpr ⟨(harmless_ne_var v).and fs, occurring v none⟩
      · simp only [weight]
        exact size.trans (by simp only [State.next]; omega)
  | or fs ih =>
      have each := fun f member (s : State ν) (formed : Formed s) =>
        ih f member ((everywhere_or.mp encodable).2 f member) formed
      obtain ⟨rs, s₂, all, later, inside, values, occurring, size⟩ := encodeAll_returns each formed.next
      refine ⟨s.count, s₂.constrain (orConstraints s.count rs), by simp [encode, all],
        encoded_gate formed later ?_ (fun σ τ fits => ?_) (fun v none => ?_) ?_⟩
      · exact accepted_or (Nat.lt_of_succ_le later.count_le) inside
      · have same : rs.any τ = fs.any (eval σ) := by
          simpa using congrArg (fun bs => bs.any id) (values σ τ fits)
        rw [satisfiesAll_or, eval_or, same]
      · exact everywhere_or.mpr ⟨(harmless_ne_var v).or fs, occurring v none⟩
      · simp only [weight]
        exact size.trans (by simp only [State.next]; omega)
  | implies f₁ f₂ ih₁ ih₂ =>
      obtain ⟨_, encodable₁, encodable₂⟩ := everywhere_implies.mp encodable
      obtain ⟨a, s₁, first, encoded₁⟩ := ih₁ encodable₁ formed.next
      obtain ⟨b, s₂, second, encoded₂⟩ := ih₂ encodable₂ encoded₁.later.formed
      have left := encoded₁.represents.mono encoded₂.later
      have later := encoded₁.later.trans encoded₂.later
      refine ⟨s.count, s₂.constrain (impliesConstraints s.count a b), by simp [encode, first, second],
        encoded_gate formed later ?_ (fun σ τ fits => ?_) (fun v none => ?_) ?_⟩
      · exact accepted_implies (Nat.lt_of_succ_le later.count_le) left.1 encoded₂.represents.1
      · rw [satisfiesAll_implies, left.2 σ τ fits, encoded₂.represents.2 σ τ fits, eval_implies]
      · exact everywhere_implies.mpr ⟨(harmless_ne_var v).implies f₁ f₂,
          encoded₁.occurring v (encoded₂.later.known v none), encoded₂.occurring v none⟩
      · have size₁ := encoded₁.size
        have size₂ := encoded₂.size
        simp only [weight, State.next] at *
        omega
  | iff f₁ f₂ ih₁ ih₂ =>
      obtain ⟨_, encodable₁, encodable₂⟩ := everywhere_iff_node.mp encodable
      obtain ⟨a, s₁, first, encoded₁⟩ := ih₁ encodable₁ formed.next
      obtain ⟨b, s₂, second, encoded₂⟩ := ih₂ encodable₂ encoded₁.later.formed
      have left := encoded₁.represents.mono encoded₂.later
      have later := encoded₁.later.trans encoded₂.later
      refine ⟨s.count, s₂.constrain (iffConstraints s.count a b), by simp [encode, first, second],
        encoded_gate formed later ?_ (fun σ τ fits => ?_) (fun v none => ?_) ?_⟩
      · exact accepted_iff (Nat.lt_of_succ_le later.count_le) left.1 encoded₂.represents.1
      · rw [satisfiesAll_iff, left.2 σ τ fits, encoded₂.represents.2 σ τ fits, eval_iff]
      · exact everywhere_iff_node.mpr ⟨(harmless_ne_var v).iff f₁ f₂,
          encoded₁.occurring v (encoded₂.later.known v none), encoded₂.occurring v none⟩
      · have size₁ := encoded₁.size
        have size₂ := encoded₂.size
        simp only [weight, State.next] at *
        omega
  | ifThenElse f₁ f₂ f₃ => cases (everywhere_iff.mp encodable).1.2

end States

section Errors

variable {f : Formula ν} {fs : List (Formula ν)}

theorem encodeAll_none (member : f ∈ fs) (none : ∀ s, encode f s = none) (s : State ν) :
    encodeAll fs s = .none := by
  induction fs generalizing s with
  | nil => cases member
  | cons g fs ih =>
      rw [encodeAll]
      rcases List.mem_cons.mp member with rfl | later
      · rw [none]
        rfl
      · cases encode g s with
        | none => rfl
        | some done => simp [ih later]

/-- The formulas that cannot be encoded are an error, wherever they are. -/
theorem encode_none (other : ¬ Everywhere Encodable f) (s : State ν) : encode f s = none := by
  induction f generalizing s with
  | var v => exact absurd (.intro ⟨rfl, rfl⟩ (List.forall_mem_nil _)) other
  | true => rw [encode] <;> nofun
  | false => rw [encode] <;> nofun
  | not f ih =>
      have below := fun holds => other (everywhere_not.mpr ⟨⟨rfl, rfl⟩, holds⟩)
      rw [encode, ih below]
      rfl
  | and fs ih =>
      have below := fun holds => other (everywhere_and.mpr ⟨⟨rfl, rfl⟩, holds⟩)
      obtain ⟨f, member, here⟩ := not_forall₂.mp below
      simp [encode, encodeAll_none member (ih f member here)]
  | or fs ih =>
      have below := fun holds => other (everywhere_or.mpr ⟨⟨rfl, rfl⟩, holds⟩)
      obtain ⟨f, member, here⟩ := not_forall₂.mp below
      simp [encode, encodeAll_none member (ih f member here)]
  | implies f₁ f₂ ih₁ ih₂ =>
      have below := fun left right => other (everywhere_implies.mpr ⟨⟨rfl, rfl⟩, left, right⟩)
      by_cases left : Everywhere Encodable f₁
      · cases first : encode f₁ s.next <;> simp [encode, first, ih₂ (below left)]
      · simp [encode, ih₁ left]
  | iff f₁ f₂ ih₁ ih₂ =>
      have below := fun left right => other (everywhere_iff_node.mpr ⟨⟨rfl, rfl⟩, left, right⟩)
      by_cases left : Everywhere Encodable f₁
      · cases first : encode f₁ s.next <;> simp [encode, first, ih₂ (below left)]
      · simp [encode, ih₁ left]
  | ifThenElse f₁ f₂ f₃ => rw [encode] <;> nofun

end Errors

/-- The clauses of a formula: the solver accepts them, their models satisfy the formula, and an assignment that
satisfies it has a model. -/
structure Equisatisfiable (f : Formula ν) (clauses : List (List Literal)) (nbVars : ℕ)
    (mapping : List (ν × ℕ)) :
    Prop where
  accepted : Accepted nbVars clauses
  inside : ∀ p ∈ mapping, p.2 < nbVars
  occurring : ∀ v, mapping.lookup v = none → Everywhere (· ≠ var v) f
  size : nbVars ≤ f.weight
  sound : ∀ σ τ, SatisfiesAll τ clauses → (∀ v r, mapping.lookup v = some r → τ r = σ v) → f.eval σ = true
  complete : ∀ σ, f.eval σ = true → ∃ τ, SatisfiesAll τ clauses ∧ ∀ v r, mapping.lookup v = some r → τ r = σ v

theorem apply_equisatisfiable (order : IterationOrder (List Literal)) {f : Formula ν}
    (encodable : Everywhere Encodable f) :
    ∃ clauses nbVars mapping, apply order f = some (clauses, nbVars, mapping) ∧
      Equisatisfiable f clauses nbVars mapping := by
  obtain ⟨repr, s, result, encoded⟩ := encode_returns encodable initial_formed
  have models : ∀ τ, SatisfiesAll τ (order.arrange (s.constrain [[⟨repr, true⟩]]).constraints) ↔
      SatisfiesAll τ s.constraints ∧ τ repr = true := by
    intro τ
    have same : SatisfiesAll τ (order.arrange (s.constrain [[⟨repr, true⟩]]).constraints) ↔
        SatisfiesAll τ (s.constraints ++ [[⟨repr, true⟩]]) :=
      forall_congr' fun c => imp_congr_left order.mem_arrange
    rw [same, satisfiesAll_append, satisfiesAll_singleton]
    simp [Literal.Holds]
  refine ⟨order.arrange (s.constrain [[⟨repr, true⟩]]).constraints, s.count, s.varToLiteral,
    by simp [apply, result], ?_, encoded.later.formed.inside, encoded.occurring,
    by simpa [State.initial] using encoded.size, fun σ τ satisfies mapped => ?_, fun σ holds => ?_⟩
  · intro c member
    rcases List.mem_append.mp (order.mem_arrange.mp member) with inside | isLast
    · exact encoded.later.formed.constraints c inside
    · obtain rfl := List.mem_singleton.mp isLast
      exact ⟨List.cons_ne_nil _ _, List.forall_mem_singleton.mpr encoded.represents.1⟩
  · obtain ⟨satisfies, value⟩ := (models τ).mp satisfies
    rw [← encoded.represents.2 σ τ ⟨satisfies, mapped⟩, value]
  · obtain ⟨τ, _, fits⟩ := encoded.later.extension σ (fun _ => false) initial_fits
    have value := encoded.represents.2 σ τ fits
    exact ⟨τ, (models τ).mpr ⟨fits.satisfies, value.trans holds⟩, fits.mapping⟩

/-- The clauses of a formula without constants and `ifThenElse` have a model that agrees with an assignment exactly
if the assignment satisfies the formula. -/
theorem apply_returns (order : IterationOrder (List Literal)) {f : Formula ν}
    (encodable : Everywhere Encodable f) :
    ∃ clauses nbVars mapping, apply order f = some (clauses, nbVars, mapping) ∧
      (∀ c ∈ clauses, c ≠ [] ∧ ∀ lit ∈ c, lit.id < nbVars) ∧
      ∀ σ, f.eval σ = true ↔
        ∃ τ, SatisfiesAll τ clauses ∧ ∀ v r, mapping.lookup v = some r → τ r = σ v := by
  obtain ⟨clauses, nbVars, mapping, result, equisatisfiable⟩ := apply_equisatisfiable order encodable
  refine ⟨clauses, nbVars, mapping, result, equisatisfiable.accepted, fun σ => ⟨equisatisfiable.complete σ, ?_⟩⟩
  rintro ⟨τ, satisfies, agrees⟩
  exact equisatisfiable.sound σ τ satisfies agrees

theorem apply_returns_two : ∃ clauses nbVars mapping,
    apply (.insertion _) (.implies (.var 0) (.not (.var 1))) = some (clauses, nbVars, mapping) ∧
      (∀ c ∈ clauses, c ≠ [] ∧ ∀ lit ∈ c, lit.id < nbVars) ∧
      ∀ σ, (Formula.implies (.var 0) (.not (.var 1))).eval σ = true ↔
        ∃ τ, SatisfiesAll τ clauses ∧ ∀ v r, mapping.lookup v = some r → τ r = σ v :=
  apply_returns _ (by
    have variable' : ∀ v : ℕ, Everywhere Encodable (Formula.var v) :=
      fun v => .intro ⟨rfl, rfl⟩ (List.forall_mem_nil _)
    exact everywhere_implies.mpr ⟨⟨rfl, rfl⟩, variable' 0, everywhere_not.mpr ⟨⟨rfl, rfl⟩, variable' 1⟩⟩)

end Renaissance.CafeSat.ConjunctiveNormalForm
