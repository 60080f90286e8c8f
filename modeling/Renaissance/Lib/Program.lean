import Mathlib.Logic.Relation
import Mathlib.Order.Basic

/-!
# Programs that call operations

A `Program` calls operations whose results somebody else decides on, so several programs can be run
side by side. A `Spec` says of each operation, in terms of what the program knows, when it may be
called, which results it can have and what is known after it. `Meets spec p Q known` then means that
`p` calls operations only where it may, and ends with `Q`.

There is one rule for each way of combining programs. `meets_interpret` is the rule for a program whose
operations are programs in turn, and `child_wellFounded` says that every program comes to an end if its
operations do.
-/

inductive Program (Op : Type) (Res : Op → Type) (α : Type)
  | ret (a : α)
  | call (op : Op) (next : Res op → Program Op Res α)

namespace Program

variable {Op Op' : Type} {Res : Op → Type} {Res' : Op' → Type} {α β γ G G' : Type}

def bind : Program Op Res α → (α → Program Op Res β) → Program Op Res β
  | ret a, f => f a
  | call op next, f => call op fun result => (next result).bind f

instance : Monad (Program Op Res) where
  pure := ret
  bind := bind

def perform (op : Op) : Program Op Res (Res op) :=
  call op ret

def forEach : List γ → (γ → Program Op Res Unit) → Program Op Res Unit
  | [], _ => pure ()
  | x :: xs, f => do
      f x
      forEach xs f

/-- Each call becomes a run of the handler. -/
def interpret (handler : (op : Op) → Program Op' Res' (Res op)) :
    Program Op Res α → Program Op' Res' α
  | ret a => ret a
  | call op next => (handler op).bind fun result => interpret handler (next result)

/-- What is left of the program after its next operation. -/
def Child (p' p : Program Op Res α) : Prop :=
  ∃ op next result, p = call op next ∧ p' = next result

theorem child_wellFounded : WellFounded (@Child Op Res α) := by
  refine ⟨fun p => ?_⟩
  induction p with
  | ret a => exact ⟨_, fun p' ⟨_, _, _, isCall, _⟩ => nomatch isCall⟩
  | call op next ih =>
      refine ⟨_, fun p' ⟨_, _, result, isCall, isNext⟩ => ?_⟩
      cases isCall
      rw [isNext]
      exact ih result

structure Spec (Op : Type) (Res : Op → Type) (G : Type) where
  pre : Op → G → Prop
  post : (op : Op) → Res op → G → Prop
  after : (op : Op) → Res op → G → G

def Meets (spec : Spec Op Res G) : Program Op Res α → (α → G → Prop) → G → Prop
  | ret a, Q, known => Q a known
  | call op next, Q, known => spec.pre op known ∧ ∀ result, spec.post op result known →
      Meets spec (next result) Q (spec.after op result known)

variable {spec : Spec Op Res G} {spec' : Spec Op' Res' G'} {Q Q' : α → G → Prop} {known : G}

theorem meets_pure {a : α} : Meets spec (pure a) Q known ↔ Q a known :=
  Iff.rfl

theorem meets_bind {p : Program Op Res α} {f : α → Program Op Res β} {Q : β → G → Prop} :
    Meets spec (p >>= f) Q known ↔ Meets spec p (fun a known => Meets spec (f a) Q known) known := by
  induction p generalizing known with
  | ret a => exact Iff.rfl
  | call op next ih =>
      exact and_congr_right fun _ => forall_congr' fun result => imp_congr_right fun _ => ih result

theorem Meets.mono {p : Program Op Res α} (meets : Meets spec p Q known)
    (implies : ∀ a known, Q a known → Q' a known) : Meets spec p Q' known := by
  induction p generalizing known with
  | ret a => exact implies a known meets
  | call op next ih =>
      exact ⟨meets.1, fun result possible => ih result (meets.2 result possible)⟩

/-- The loop rule. The invariant speaks of the elements that are still to come. -/
theorem meets_forEach {I : List γ → G → Prop} {f : γ → Program Op Res Unit}
    (body : ∀ x xs known, I (x :: xs) known → Meets spec (f x) (fun _ known => I xs known) known) :
    ∀ {xs : List γ} {known : G}, I xs known →
      Meets spec (forEach xs f) (fun _ known => I [] known) known
  | [], _, holds => holds
  | x :: xs, known, holds => by
      rw [forEach, meets_bind]
      exact (body x xs known holds).mono fun _ _ rest => meets_forEach body rest

/-- If more knowledge never hurts a single operation, it never hurts a program. -/
theorem Meets.weaken [Preorder G] {p : Program Op Res α}
    (pre : ∀ {op known known'}, known ≤ known' → spec.pre op known → spec.pre op known')
    (post : ∀ {op result known known'}, known ≤ known' → spec.post op result known' →
      spec.post op result known)
    (after : ∀ {op result known known'}, known ≤ known' →
      spec.after op result known ≤ spec.after op result known')
    (mono : ∀ {a known known'}, known ≤ known' → Q a known → Q a known') {known known' : G}
    (more : known ≤ known') (meets : Meets spec p Q known) : Meets spec p Q known' := by
  induction p generalizing known known' with
  | ret a => exact mono more meets
  | call op next ih =>
      exact ⟨pre more meets.1, fun result possible =>
        ih result (after more) (meets.2 result (post more possible))⟩

/-- A handler that provides what the specification of the operation promises may be put in its place.
`R` relates what is known inside to what is known outside. -/
theorem meets_interpret {handler : (op : Op) → Program Op' Res' (Res op)} {R : G → G' → Prop}
    (handles : ∀ op known known', R known known' → spec.pre op known →
      Meets spec' (handler op) (fun result known' => spec.post op result known ∧
        R (spec.after op result known) known') known')
    {p : Program Op Res α} {known' : G'} (related : R known known') (meets : Meets spec p Q known) :
    Meets spec' (interpret handler p) (fun a known' => ∃ known, R known known' ∧ Q a known)
      known' := by
  induction p generalizing known known' with
  | ret a => exact ⟨known, related, meets⟩
  | call op next ih =>
      refine meets_bind.mpr ((handles op known known' related meets.1).mono ?_)
      rintro result inside ⟨possible, related⟩
      exact ih result related (meets.2 result possible)

end Program
