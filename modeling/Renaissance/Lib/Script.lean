import Mathlib.Data.List.Infix
import Renaissance.Lib.Exec

/-!
# Scripts

An observer `f` sees some of the events of a trace. A computation follows a script if the observer sees
exactly the script when it returns, and otherwise a part of it from its start. So a script says in
which order things happen and that each of them happens once, whatever throws in between.

Results:
1. `script_bind`, `script_forEach`, `script_tryFinally_body`, `script_tryFinally_last`: one rule for
   each way of combining computations.
2. `closed_episodes`: a program made of computations that follow scripts shows one part of a script
   after the other.
-/

namespace Traced

variable {σ τ ε α β γ : Type} {f : τ → Option γ}

/-- The observer sees nothing. -/
def Unseen (f : τ → Option γ) (m : Exec σ τ ε α) : Prop :=
  Emits (fun e => f e = none) m

theorem closed_unseen : Closed (fun {α} (m : Exec σ τ ε α) => Unseen f m) :=
  closed_emits _

theorem unseen_emit {e : τ} (hidden : f e = none) : Unseen f (emit e : Exec σ τ ε Unit) := by
  intro s e' mem
  obtain rfl := List.mem_singleton.mp mem
  exact hidden

theorem unseen_step (g : σ → α × σ) : Unseen f (step g : Exec σ τ ε α) := by
  intro s e mem
  cases mem

theorem unseen_stop (reason : Stop) : Unseen f (stop reason : Exec σ τ ε α) := by
  intro s e mem
  cases mem

theorem Unseen.nothing {m : Exec σ τ ε α} (unseen : Unseen f m) (s : σ) :
    (m s).trace.filterMap f = [] :=
  List.filterMap_eq_nil_iff.mpr (unseen s)

/-- The observer sees a part of the script from its start, and all of it if the computation
returns. -/
def Script (f : τ → Option γ) (script : List γ) (m : Exec σ τ ε α) : Prop :=
  ∀ s, (m s).trace.filterMap f <+: script ∧
    ∀ a, (m s).outcome = .ret a → (m s).trace.filterMap f = script

theorem Unseen.script {m : Exec σ τ ε α} (unseen : Unseen f m) : Script f [] m := by
  intro s
  rw [unseen.nothing s]
  exact ⟨List.prefix_refl _, fun _ _ => rfl⟩

theorem script_bind {m : Exec σ τ ε α} {g : α → Exec σ τ ε β} {first second : List γ}
    (hm : Script f first m) (hg : ∀ a, Script f second (g a)) :
    Script f (first ++ second) (m >>= g) := by
  intro s
  obtain ⟨start, whole⟩ := hm s
  rw [bind_apply]
  cases h : (m s).outcome with
  | ret a =>
      obtain ⟨start', whole'⟩ := hg a (m s).state
      rw [andThen_ret h]
      dsimp only
      rw [List.filterMap_append, whole a h]
      exact ⟨(List.prefix_append_right_inj first).mpr start', fun b returned => by rw [whole' b returned]⟩
  | thrown e =>
      rw [andThen_thrown h]
      exact ⟨start.trans (List.prefix_append ..), by simp⟩
  | stopped r =>
      rw [andThen_stopped h]
      exact ⟨start.trans (List.prefix_append ..), by simp⟩

theorem Unseen.bind {m : Exec σ τ ε α} {g : α → Exec σ τ ε β} {script : List γ}
    (unseen : Unseen f m) (hg : ∀ a, Script f script (g a)) : Script f script (m >>= g) :=
  script_bind unseen.script hg

theorem Script.bind_unseen {m : Exec σ τ ε α} {g : α → Exec σ τ ε β} {script : List γ}
    (hm : Script f script m) (unseen : ∀ a, Unseen f (g a)) : Script f script (m >>= g) := by
  have both := script_bind hm fun a => (unseen a).script
  rwa [List.append_nil] at both

theorem script_forEach {xs : List β} {g : β → Exec σ τ ε Unit} {script : β → List γ}
    (each : ∀ x ∈ xs, Script f (script x) (g x)) :
    Script f (xs.flatMap script) (forEach xs g) := by
  induction xs with
  | nil => exact (closed_unseen.pure ()).script
  | cons x xs ih =>
      rw [List.flatMap_cons]
      exact script_bind (each x (by simp)) fun _ => ih fun y mem => each y (by simp [mem])

/-- What `finally` does is not seen. -/
theorem script_tryFinally_body {body : Exec σ τ ε α} {last : Exec σ τ ε Unit} {script : List γ}
    (hb : Script f script body) (unseen : Unseen f last) : Script f script (tryFinally body last) := by
  intro s
  obtain ⟨start, whole⟩ := hb s
  cases finished : (body s).outcome.finished with
  | false =>
      simp only [tryFinally, finished, Bool.false_eq_true, if_false]
      exact ⟨start, whole⟩
  | true =>
      rw [tryFinally_finished finished]
      dsimp only
      rw [List.filterMap_append, unseen.nothing, List.append_nil]
      refine ⟨start, fun a returned => ?_⟩
      cases h : (last (body s).state).outcome with
      | ret u =>
          rw [h] at returned
          exact whole a returned
      | thrown e => simp [h, Outcome.after] at returned
      | stopped r => simp [h, Outcome.after] at returned

/-- What the body does is not seen. -/
theorem script_tryFinally_last {body : Exec σ τ ε α} {last : Exec σ τ ε Unit} {script : List γ}
    (unseen : Unseen f body) (hl : Script f script last) : Script f script (tryFinally body last) := by
  intro s
  cases finished : (body s).outcome.finished with
  | false =>
      simp only [tryFinally, finished, Bool.false_eq_true, if_false]
      rw [unseen.nothing]
      refine ⟨List.nil_prefix, fun a returned => ?_⟩
      simp [returned] at finished
  | true =>
      obtain ⟨start, whole⟩ := hl (body s).state
      rw [tryFinally_finished finished]
      dsimp only
      rw [List.filterMap_append, unseen.nothing, List.nil_append]
      refine ⟨start, fun a returned => ?_⟩
      cases h : (last (body s).state).outcome with
      | ret u => exact whole u h
      | thrown e => simp [h, Outcome.after] at returned
      | stopped r => simp [h, Outcome.after] at returned

/-! ## Episodes -/

/-- The observer of a trace sees one part of a script after the other, each from its start. -/
def Episodes (f : τ → Option γ) (scripts : List γ → Prop) (t : List τ) : Prop :=
  ∃ parts : List (List γ), t.filterMap f = parts.flatten ∧
    ∀ part ∈ parts, ∃ script, scripts script ∧ part <+: script

theorem closed_episodes (scripts : List γ → Prop) :
    Closed (fun {α} (m : Exec σ τ ε α) => ∀ s, Episodes f scripts (m s).trace) := by
  refine closed_of_composes (Q := fun _ t _ => Episodes f scripts t) (fun _ => ⟨[], rfl, by simp⟩) ?_
  rintro s t s' t' s'' ⟨parts, seen, all⟩ ⟨parts', seen', all'⟩
  refine ⟨parts ++ parts', by rw [List.filterMap_append, seen, seen', List.flatten_append], ?_⟩
  exact fun part mem => (List.mem_append.mp mem).elim (all part) (all' part)

theorem Script.episodes {scripts : List γ → Prop} {script : List γ} {m : Exec σ τ ε α}
    (follows : Script f script m) (known : scripts script) (s : σ) :
    Episodes f scripts (m s).trace :=
  ⟨[(m s).trace.filterMap f], by simp, by
    intro part mem
    obtain rfl := List.mem_singleton.mp mem
    exact ⟨script, known, (follows s).1⟩⟩

theorem Unseen.episodes {scripts : List γ → Prop} {m : Exec σ τ ε α} (unseen : Unseen f m) (s : σ) :
    Episodes f scripts (m s).trace :=
  ⟨[], unseen.nothing s, by simp⟩

end Traced
