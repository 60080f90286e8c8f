import Mathlib.Data.List.Basic

/-!
# Computations with a trace, exceptions and a state

`Exec σ τ ε α` runs from a state `σ`, leaves a trace of events `τ` and ends in one of three ways: it
returns a value, it throws an `ε` that a `try` may handle, or it stops for good (the process exits,
or the fuel of a loop is used up). The state and the trace survive an exception, as they do in the
languages this models.

Results:
1. `Closed` says that a property of computations is preserved by sequencing, `finally` and `attempt`.
   A property that is closed and holds of a program's primitive steps holds of the program.
2. `closed_emits`, `closed_finishes`: two closed properties, that only certain events occur and that the
   run ends. `closed_respects` compares two runs.
3. `Returns`: no exception and no stop, with the rules for sequencing.
4. `guarded_cases`: what `opening(); try { body } finally { last }` does.
-/

namespace Traced

/-- Why a computation ended for good. -/
inductive Stop where
  | exit (status : Int)
  | outOfFuel
deriving DecidableEq, Repr

/-- How a computation ended. -/
inductive Outcome (ε α : Type) where
  | ret (value : α)
  | thrown (error : ε)
  | stopped (reason : Stop)
deriving DecidableEq, Repr

/-- The computation came to an end that its caller sees. -/
def Outcome.finished {ε α : Type} : Outcome ε α → Bool
  | .ret _ | .thrown _ => true
  | .stopped _ => false

@[simp] theorem Outcome.finished_ret {ε α : Type} (a : α) :
    (Outcome.ret a : Outcome ε α).finished = true := rfl
@[simp] theorem Outcome.finished_thrown {ε α : Type} (e : ε) :
    (Outcome.thrown e : Outcome ε α).finished = true := rfl
@[simp] theorem Outcome.finished_stopped {ε α : Type} (r : Stop) :
    (Outcome.stopped r : Outcome ε α).finished = false := rfl

structure Run (σ τ ε α : Type) where
  outcome : Outcome ε α
  trace : List τ
  state : σ

def Exec (σ τ ε α : Type) : Type :=
  σ → Run σ τ ε α

section Operations

variable {σ τ ε α β : Type}

/-- Continue a run that returned; an exception or a stop skips the rest. -/
def Run.andThen (r : Run σ τ ε α) (f : α → Exec σ τ ε β) : Run σ τ ε β :=
  match r.outcome with
  | .ret a =>
      let next := f a r.state
      ⟨next.outcome, r.trace ++ next.trace, next.state⟩
  | .thrown e => ⟨.thrown e, r.trace, r.state⟩
  | .stopped s => ⟨.stopped s, r.trace, r.state⟩

instance : Monad (Exec σ τ ε) where
  pure a := fun s => ⟨.ret a, [], s⟩
  bind m f := fun s => (m s).andThen f

def throw (e : ε) : Exec σ τ ε α := fun s => ⟨.thrown e, [], s⟩

def stop (reason : Stop) : Exec σ τ ε α := fun s => ⟨.stopped reason, [], s⟩

def emit (e : τ) : Exec σ τ ε Unit := fun s => ⟨.ret (), [e], s⟩

/-- Read and replace the state. -/
def step (f : σ → α × σ) : Exec σ τ ε α := fun s => ⟨.ret (f s).1, [], (f s).2⟩

/-- The outcome of `try { body } finally { last }`: what `last` throws hides the outcome of
`body`. -/
def Outcome.after (body : Outcome ε α) : Outcome ε Unit → Outcome ε α
  | .ret _ => body
  | .thrown e => .thrown e
  | .stopped s => .stopped s

def tryFinally (body : Exec σ τ ε α) (last : Exec σ τ ε Unit) : Exec σ τ ε α := fun s =>
  let r := body s
  if r.outcome.finished then
    let l := last r.state
    ⟨r.outcome.after l.outcome, r.trace ++ l.trace, l.state⟩
  else r

/-- Turn an exception of `body` into a value; the building block of every `catch`. -/
def attempt (body : Exec σ τ ε α) : Exec σ τ ε (Except ε α) := fun s =>
  let r := body s
  match r.outcome with
  | .ret a => ⟨.ret (.ok a), r.trace, r.state⟩
  | .thrown e => ⟨.ret (.error e), r.trace, r.state⟩
  | .stopped reason => ⟨.stopped reason, r.trace, r.state⟩

def forEach (xs : List β) (f : β → Exec σ τ ε Unit) : Exec σ τ ε Unit :=
  match xs with
  | [] => pure ()
  | x :: xs => do
      f x
      forEach xs f

end Operations

/-! ## Unfolding one step -/

section Unfolding

variable {σ τ ε α β : Type}

@[simp] theorem pure_apply (a : α) (s : σ) : (pure a : Exec σ τ ε α) s = ⟨.ret a, [], s⟩ := rfl
@[simp] theorem throw_apply (e : ε) (s : σ) :
    (throw e : Exec σ τ ε α) s = ⟨.thrown e, [], s⟩ := rfl
@[simp] theorem stop_apply (r : Stop) (s : σ) :
    (stop r : Exec σ τ ε α) s = ⟨.stopped r, [], s⟩ := rfl
@[simp] theorem emit_apply (e : τ) (s : σ) :
    (emit e : Exec σ τ ε Unit) s = ⟨.ret (), [e], s⟩ := rfl
@[simp] theorem step_apply (f : σ → α × σ) (s : σ) :
    (step f : Exec σ τ ε α) s = ⟨.ret (f s).1, [], (f s).2⟩ := rfl
theorem bind_apply (m : Exec σ τ ε α) (f : α → Exec σ τ ε β) (s : σ) :
    (m >>= f) s = (m s).andThen f := rfl

theorem step_bind_apply (g : σ → α × σ) (f : α → Exec σ τ ε β) (s : σ) :
    ((step g >>= f) s : Run σ τ ε β) = f (g s).1 (g s).2 := rfl

theorem andThen_ret {r : Run σ τ ε α} {a : α} (h : r.outcome = .ret a) (f : α → Exec σ τ ε β) :
    r.andThen f =
      ⟨(f a r.state).outcome, r.trace ++ (f a r.state).trace, (f a r.state).state⟩ := by
  simp only [Run.andThen, h]

theorem andThen_thrown {r : Run σ τ ε α} {e : ε} (h : r.outcome = .thrown e)
    (f : α → Exec σ τ ε β) : r.andThen f = ⟨.thrown e, r.trace, r.state⟩ := by
  simp only [Run.andThen, h]

theorem andThen_stopped {r : Run σ τ ε α} {s : Stop} (h : r.outcome = .stopped s)
    (f : α → Exec σ τ ε β) : r.andThen f = ⟨.stopped s, r.trace, r.state⟩ := by
  simp only [Run.andThen, h]

/-- A sequence whose first part stops has stopped. -/
theorem bind_stopped {m : Exec σ τ ε α} {s : σ} {r : Stop} (h : (m s).outcome = .stopped r)
    (f : α → Exec σ τ ε β) : ((m >>= f) s).outcome = .stopped r := by
  rw [bind_apply, andThen_stopped h]

theorem tryFinally_finished {body : Exec σ τ ε α} {s : σ} (h : (body s).outcome.finished = true)
    (last : Exec σ τ ε Unit) :
    tryFinally body last s =
      ⟨(body s).outcome.after (last (body s).state).outcome,
        (body s).trace ++ (last (body s).state).trace, (last (body s).state).state⟩ := by
  simp only [tryFinally, h, if_true]

theorem tryFinally_stopped {body : Exec σ τ ε α} {s : σ} {r : Stop}
    (h : (body s).outcome = .stopped r) (last : Exec σ τ ε Unit) :
    tryFinally body last s = body s := by
  simp [tryFinally, h]

@[simp] theorem attempt_trace (body : Exec σ τ ε α) (s : σ) :
    (attempt body s).trace = (body s).trace := by
  cases h : (body s).outcome <;> simp [attempt, h]

@[simp] theorem attempt_state (body : Exec σ τ ε α) (s : σ) :
    (attempt body s).state = (body s).state := by
  cases h : (body s).outcome <;> simp [attempt, h]

theorem attempt_ret {body : Exec σ τ ε α} {s : σ} {a : α} (h : (body s).outcome = .ret a) :
    (attempt body s).outcome = .ret (.ok a) := by
  simp [attempt, h]

theorem attempt_thrown {body : Exec σ τ ε α} {s : σ} {e : ε} (h : (body s).outcome = .thrown e) :
    (attempt body s).outcome = .ret (.error e) := by
  simp [attempt, h]

theorem attempt_stopped {body : Exec σ τ ε α} {s : σ} {r : Stop}
    (h : (body s).outcome = .stopped r) : (attempt body s).outcome = .stopped r := by
  simp [attempt, h]

/-- A loop that throws has run up to the element that throws. -/
theorem forEach_thrown {xs : List β} {f : β → Exec σ τ ε Unit} {s : σ} {e : ε}
    (thrown : (forEach xs f s).outcome = .thrown e) :
    ∃ before x after, xs = before ++ x :: after ∧ (forEach before f s).outcome = .ret () ∧
      (f x (forEach before f s).state).outcome = .thrown e ∧
      (forEach xs f s).trace =
        (forEach before f s).trace ++ (f x (forEach before f s).state).trace := by
  induction xs generalizing s with
  | nil => cases thrown
  | cons x xs ih =>
      rw [forEach, bind_apply] at thrown ⊢
      cases h : (f x s).outcome with
      | ret u =>
          rw [andThen_ret h] at thrown ⊢
          obtain ⟨before, y, after, rfl, returned, threw, trace⟩ := ih thrown
          refine ⟨x :: before, y, after, rfl, ?_⟩
          rw [forEach, bind_apply, andThen_ret h]
          refine ⟨returned, threw, ?_⟩
          rw [List.append_assoc]
          exact congrArg ((f x s).trace ++ ·) trace
      | thrown e' =>
          rw [andThen_thrown h] at thrown ⊢
          exact ⟨[], x, xs, rfl, rfl, h.trans thrown, rfl⟩
      | stopped r =>
          rw [andThen_stopped h] at thrown
          cases thrown

theorem finished_bind {m : Exec σ τ ε α} {f : α → Exec σ τ ε β} {s : σ}
    (first : (m s).outcome.finished = true)
    (next : ∀ a, (m s).outcome = .ret a → (f a (m s).state).outcome.finished = true) :
    ((m >>= f) s).outcome.finished = true := by
  rw [bind_apply]
  cases h : (m s).outcome with
  | ret a => rw [andThen_ret h]; exact next a h
  | thrown e => rw [andThen_thrown h]; rfl
  | stopped r => simp [h] at first

theorem finished_tryFinally {body : Exec σ τ ε α} {last : Exec σ τ ε Unit} {s : σ}
    (inside : (body s).outcome.finished = true)
    (after : (last (body s).state).outcome.finished = true) :
    (tryFinally body last s).outcome.finished = true := by
  rw [tryFinally_finished inside]
  cases h : (last (body s).state).outcome with
  | ret u => exact inside
  | thrown e => rfl
  | stopped r => simp [h] at after

end Unfolding

/-! ## Closed properties -/

section ClosedProperties

variable {σ τ ε : Type}

/-- A property of computations that every way of combining them preserves. -/
structure Closed (P : ∀ {α : Type}, Exec σ τ ε α → Prop) : Prop where
  pure : ∀ {α : Type} (a : α), P (pure a : Exec σ τ ε α)
  throw : ∀ {α : Type} (e : ε), P (throw e : Exec σ τ ε α)
  bind : ∀ {α β : Type} {m : Exec σ τ ε α} {f : α → Exec σ τ ε β},
    P m → (∀ a, P (f a)) → P (m >>= f)
  tryFinally : ∀ {α : Type} {body : Exec σ τ ε α} {last : Exec σ τ ε Unit},
    P body → P last → P (tryFinally body last)
  attempt : ∀ {α : Type} {body : Exec σ τ ε α}, P body → P (attempt body)

theorem Closed.forEach {P : ∀ {α : Type}, Exec σ τ ε α → Prop} (closed : Closed P) {β : Type}
    {f : β → Exec σ τ ε Unit} {xs : List β} (each : ∀ x ∈ xs, P (f x)) :
    P (Traced.forEach xs f) := by
  induction xs with
  | nil => exact closed.pure ()
  | cons x xs ih =>
      exact closed.bind (each x (by simp)) fun _ => ih fun y hy => each y (by simp [hy])

/-- A property of the run from every state that only depends on where it starts, its trace and
where it ends. `Q s t s'` must hold of the empty trace and compose. -/
theorem closed_of_composes {Q : σ → List τ → σ → Prop} (refl : ∀ s, Q s [] s)
    (trans : ∀ {s t s' t' s''}, Q s t s' → Q s' t' s'' → Q s (t ++ t') s'') :
    Closed (fun {α} (m : Exec σ τ ε α) => ∀ s, Q s (m s).trace (m s).state) where
  pure _ s := refl s
  throw _ s := refl s
  bind {α β m f} hm hf s := by
    rw [bind_apply]
    cases h : (m s).outcome with
    | ret a => rw [andThen_ret h]; exact trans (hm s) (hf a _)
    | thrown e => rw [andThen_thrown h]; exact hm s
    | stopped r => rw [andThen_stopped h]; exact hm s
  tryFinally {α body last} hb hl s := by
    cases h : (body s).outcome with
    | ret a => rw [tryFinally_finished (by simp [h])]; exact trans (hb s) (hl _)
    | thrown e => rw [tryFinally_finished (by simp [h])]; exact trans (hb s) (hl _)
    | stopped r => rw [tryFinally_stopped h]; exact hb s
  attempt {α body} hb s := by simpa using hb s

/-- Every event of every run satisfies `p`. -/
def Emits (p : τ → Prop) {α : Type} (m : Exec σ τ ε α) : Prop :=
  ∀ s, ∀ e ∈ (m s).trace, p e

theorem closed_emits (p : τ → Prop) : Closed (fun {α} (m : Exec σ τ ε α) => Emits p m) :=
  closed_of_composes (Q := fun _ t _ => ∀ e ∈ t, p e) (by simp)
    (fun h h' e he => (List.mem_append.mp he).elim (h e) (h' e))

/-- Every run returns or throws. -/
def Finishes {α : Type} (m : Exec σ τ ε α) : Prop :=
  ∀ s, (m s).outcome.finished = true

theorem closed_finishes : Closed (fun {α} (m : Exec σ τ ε α) => Finishes m) where
  pure _ _ := rfl
  throw _ _ := rfl
  bind hm hf s := finished_bind (hm s) fun a _ => hf a _
  tryFinally hb hl s := finished_tryFinally (hb s) (hl _)
  attempt {α body} hb s := by
    have finished := hb s
    cases h : (body s).outcome with
    | ret a => rw [attempt_ret h]; rfl
    | thrown e => rw [attempt_thrown h]; rfl
    | stopped r => simp [h] at finished

/-- Runs from related states cannot be told apart and end in related states. -/
def Respects (R : σ → σ → Prop) {α : Type} (m : Exec σ τ ε α) : Prop :=
  ∀ s s', R s s' →
    (m s').outcome = (m s).outcome ∧ (m s').trace = (m s).trace ∧ R (m s).state (m s').state

theorem closed_respects (R : σ → σ → Prop) :
    Closed (fun {α} (m : Exec σ τ ε α) => Respects R m) where
  pure _ _ _ related := ⟨rfl, rfl, related⟩
  throw _ _ _ related := ⟨rfl, rfl, related⟩
  bind {α β m f} hm hf s s' related := by
    obtain ⟨outcome, trace, next⟩ := hm s s' related
    rw [bind_apply, bind_apply]
    cases h : (m s).outcome with
    | ret a =>
        rw [andThen_ret h, andThen_ret (outcome.trans h)]
        obtain ⟨outcome', trace', last⟩ := hf a _ _ next
        exact ⟨outcome', by rw [trace, trace'], last⟩
    | thrown e =>
        rw [andThen_thrown h, andThen_thrown (outcome.trans h)]
        exact ⟨rfl, trace, next⟩
    | stopped r =>
        rw [andThen_stopped h, andThen_stopped (outcome.trans h)]
        exact ⟨rfl, trace, next⟩
  tryFinally {α body last} hb hl s s' related := by
    obtain ⟨outcome, trace, next⟩ := hb s s' related
    cases h : (body s).outcome with
    | ret a | thrown a =>
        have finished : (body s).outcome.finished = true := by rw [h]; rfl
        rw [tryFinally_finished finished, tryFinally_finished (by rw [outcome]; exact finished)]
        obtain ⟨outcome', trace', last⟩ := hl _ _ next
        exact ⟨by rw [outcome, outcome'], by rw [trace, trace'], last⟩
    | stopped r =>
        rw [tryFinally_stopped h, tryFinally_stopped (outcome.trans h)]
        exact ⟨outcome, trace, next⟩
  attempt {α body} hb s s' related := by
    obtain ⟨outcome, trace, next⟩ := hb s s' related
    refine ⟨?_, by rw [attempt_trace, attempt_trace, trace], by simpa using next⟩
    cases h : (body s).outcome with
    | ret a => rw [attempt_ret h, attempt_ret (outcome.trans h)]
    | thrown e => rw [attempt_thrown h, attempt_thrown (outcome.trans h)]
    | stopped r => rw [attempt_stopped h, attempt_stopped (outcome.trans h)]

end ClosedProperties

/-! ## Computations that return -/

section Returning

variable {σ τ ε α β : Type}

/-- Every run returns. -/
def Returns (m : Exec σ τ ε α) : Prop :=
  ∀ s, ∃ a, (m s).outcome = .ret a

theorem returns_pure (a : α) : Returns (pure a : Exec σ τ ε α) := fun _ => ⟨a, rfl⟩

theorem returns_emit (e : τ) : Returns (emit e : Exec σ τ ε Unit) := fun _ => ⟨(), rfl⟩

theorem returns_step (f : σ → α × σ) : Returns (step f : Exec σ τ ε α) := fun _ => ⟨_, rfl⟩

theorem returns_bind {m : Exec σ τ ε α} {f : α → Exec σ τ ε β} (hm : Returns m)
    (hf : ∀ a, Returns (f a)) : Returns (m >>= f) := by
  intro s
  obtain ⟨a, returned⟩ := hm s
  obtain ⟨b, next⟩ := hf a (m s).state
  rw [bind_apply, andThen_ret returned]
  exact ⟨b, next⟩

theorem returns_forEach {xs : List β} {f : β → Exec σ τ ε Unit} (each : ∀ x ∈ xs, Returns (f x)) :
    Returns (forEach xs f) := by
  induction xs with
  | nil => exact returns_pure ()
  | cons x xs ih =>
      exact returns_bind (each x (by simp)) fun _ => ih fun y hy => each y (by simp [hy])

end Returning

/-! ## Guarded blocks -/

section Guarded

variable {σ τ ε : Type}

/-- `opening(); try { body } finally { last }`: either the opening call did not return and nothing
else happened, or it returned and then the closing call is made exactly if the body came to an
end. -/
theorem guarded_cases (opening : Exec σ τ ε Unit) (body last : Exec σ τ ε Unit) (s : σ) :
    let before := opening s
    let inside := body before.state
    let after := last inside.state
    let run := (opening >>= fun _ => tryFinally body last) s
    (before.outcome ≠ .ret () ∧ run = before) ∨
    (before.outcome = .ret () ∧ inside.outcome.finished = false ∧
      run = ⟨inside.outcome, before.trace ++ inside.trace, inside.state⟩) ∨
    (before.outcome = .ret () ∧ inside.outcome.finished = true ∧
      run = ⟨inside.outcome.after after.outcome,
        before.trace ++ (inside.trace ++ after.trace), after.state⟩) := by
  intro before inside after run
  have unfolded : run = (opening s).andThen fun _ => tryFinally body last := rfl
  cases ho : (opening s).outcome with
  | thrown e =>
      refine .inl ⟨by simp, ?_⟩
      rw [unfolded, andThen_thrown ho, ← ho]
  | stopped r =>
      refine .inl ⟨by simp, ?_⟩
      rw [unfolded, andThen_stopped ho, ← ho]
  | ret u =>
      rw [unfolded, andThen_ret ho]
      cases hf : inside.outcome.finished with
      | false =>
          refine .inr (.inl ⟨rfl, rfl, ?_⟩)
          simp only [tryFinally, hf, inside, before, Bool.false_eq_true, if_false]
      | true =>
          refine .inr (.inr ⟨rfl, rfl, ?_⟩)
          rw [tryFinally_finished hf]

/-- A body that stops for good stops the whole block. -/
theorem guarded_stopped {opening body last : Exec σ τ ε Unit} {s : σ} {reason : Stop}
    (opened : (opening s).outcome = .ret ())
    (stopped : (body (opening s).state).outcome = .stopped reason) :
    ((opening >>= fun _ => tryFinally body last) s).outcome = .stopped reason := by
  rw [bind_apply, andThen_ret opened, tryFinally_stopped stopped]
  exact stopped

end Guarded

end Traced
