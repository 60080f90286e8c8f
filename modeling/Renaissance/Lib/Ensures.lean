import Renaissance.Lib.Script

/-!
# Pre- and postconditions

`Ensures f m cut post s` is about the run of `m` from `s` as an observer `f` sees it. If the run
returns `a` in `s'`, then `post a s' seen` holds; if it is cut short, by an exception (`none`) or for
good, then `cut` holds of the reason and of what was seen until then.

There is one rule for each way of combining computations. `ensures_idle` skips a computation that the
observer does not see and that keeps a relation between states.
-/

namespace Traced

variable {σ τ ε α β γ : Type} {f : τ → Option γ} {s : σ}

def Ensures (f : τ → Option γ) (m : Exec σ τ ε α) (cut : Option Stop → List γ → Prop)
    (post : α → σ → List γ → Prop) (s : σ) : Prop :=
  match (m s).outcome with
  | .ret a => post a (m s).state ((m s).trace.filterMap f)
  | .thrown _ => cut none ((m s).trace.filterMap f)
  | .stopped reason => cut (some reason) ((m s).trace.filterMap f)

theorem Ensures.returned {m : Exec σ τ ε α} {cut : Option Stop → List γ → Prop}
    {post : α → σ → List γ → Prop} (ensures : Ensures f m cut post s) {a : α}
    (outcome : (m s).outcome = .ret a) : post a (m s).state ((m s).trace.filterMap f) := by
  rw [Ensures, outcome] at ensures
  exact ensures

theorem Ensures.stopped {m : Exec σ τ ε α} {cut : Option Stop → List γ → Prop}
    {post : α → σ → List γ → Prop} (ensures : Ensures f m cut post s) {reason : Stop}
    (outcome : (m s).outcome = .stopped reason) :
    cut (some reason) ((m s).trace.filterMap f) := by
  rw [Ensures, outcome] at ensures
  exact ensures

theorem Ensures.mono {m : Exec σ τ ε α} {cut cut' : Option Stop → List γ → Prop}
    {post post' : α → σ → List γ → Prop} (ensures : Ensures f m cut post s)
    (cutMono : ∀ reason seen, cut reason seen → cut' reason seen)
    (postMono : ∀ a s' seen, post a s' seen → post' a s' seen) : Ensures f m cut' post' s := by
  unfold Ensures at ensures ⊢
  split at ensures
  · exact postMono _ _ _ ensures
  · exact cutMono _ _ ensures
  · exact cutMono _ _ ensures

/-- What always holds of the state and of what was seen may be added. -/
theorem Ensures.and_always {m : Exec σ τ ε α} {cut : Option Stop → List γ → Prop}
    {post : α → σ → List γ → Prop} (ensures : Ensures f m cut post s) {Q : σ → List γ → Prop}
    (always : Q (m s).state ((m s).trace.filterMap f)) :
    Ensures f m cut (fun a s' seen => post a s' seen ∧ Q s' seen) s := by
  unfold Ensures at ensures ⊢
  split at ensures
  · exact ⟨ensures, always⟩
  · exact ensures
  · exact ensures

/-- A run that comes to an end is only cut short by an exception. -/
theorem Ensures.finishes {m : Exec σ τ ε α} {cut : Option Stop → List γ → Prop}
    {post : α → σ → List γ → Prop} (ensures : Ensures f m cut post s) (finishes : Finishes m) :
    Ensures f m (fun reason seen => reason = none ∧ cut none seen) post s := by
  have finished := finishes s
  unfold Ensures at ensures ⊢
  cases h : (m s).outcome with
  | ret a =>
      simp only [h] at ensures
      exact ensures
  | thrown e =>
      simp only [h] at ensures
      exact ⟨rfl, ensures⟩
  | stopped reason => simp [h] at finished

section Rules

variable {cut : Option Stop → List γ → Prop}

theorem ensures_pure {a : α} {post : α → σ → List γ → Prop} (holds : post a s []) :
    Ensures f (pure a : Exec σ τ ε α) cut post s :=
  holds

theorem ensures_throw {e : ε} {post : α → σ → List γ → Prop} (holds : cut none []) :
    Ensures f (throw e : Exec σ τ ε α) cut post s :=
  holds

theorem ensures_step {g : σ → α × σ} {post : α → σ → List γ → Prop}
    (holds : post (g s).1 (g s).2 []) : Ensures f (step g : Exec σ τ ε α) cut post s :=
  holds

theorem ensures_emit {e : τ} {post : Unit → σ → List γ → Prop}
    (holds : post () s ((f e).toList)) : Ensures f (emit e : Exec σ τ ε Unit) cut post s := by
  have seen : [e].filterMap f = (f e).toList := by
    rw [List.filterMap_cons]
    cases f e <;> rfl
  unfold Ensures
  rw [emit_apply]
  dsimp only
  rw [seen]
  exact holds

/-- What the continuation sees comes after what was seen before. -/
theorem ensures_bind_iff {m : Exec σ τ ε α} {g : α → Exec σ τ ε β} {post : β → σ → List γ → Prop} :
    Ensures f (m >>= g) cut post s ↔
      Ensures f m cut
        (fun a s' seen => Ensures f (g a) (fun reason more => cut reason (seen ++ more))
          (fun b s'' more => post b s'' (seen ++ more)) s') s := by
  unfold Ensures
  rw [bind_apply]
  cases h : (m s).outcome with
  | ret a =>
      rw [andThen_ret h]
      simp only [List.filterMap_append]
  | thrown e => rw [andThen_thrown h]
  | stopped reason => rw [andThen_stopped h]

theorem ensures_attempt {m : Exec σ τ ε α} {post : Except ε α → σ → List γ → Prop}
    (body : Ensures f m
      (fun reason seen => match reason with
        | none => ∀ e s', post (.error e) s' seen
        | some stop => cut (some stop) seen)
      (fun a s' seen => post (.ok a) s' seen) s) : Ensures f (attempt m) cut post s := by
  unfold Ensures at body ⊢
  cases h : (m s).outcome with
  | ret a =>
      simp only [h] at body
      rw [attempt_ret h, attempt_trace, attempt_state]
      exact body
  | thrown e =>
      simp only [h] at body
      rw [attempt_thrown h, attempt_trace, attempt_state]
      exact body e _
  | stopped reason =>
      simp only [h] at body
      rw [attempt_stopped h, attempt_trace]
      exact body

/-- A script is seen in full if the computation returns. -/
theorem Script.ensures {m : Exec σ τ ε α} {script : List γ} {post : α → σ → List γ → Prop}
    (follows : Script f script m) (returns : Returns m) (next : ∀ a s', post a s' script) :
    Ensures f m cut post s := by
  obtain ⟨a, returned⟩ := returns s
  unfold Ensures
  rw [(follows s).2 a returned, returned]
  exact next a _

/-- What holds of the parts that are seen of a loop, and of their concatenation, holds of the loop. -/
theorem ensures_forEach {xs : List β} {g : β → Exec σ τ ε Unit} {P : List γ → Prop} (nil : P [])
    (append : ∀ first second, P first → P second → P (first ++ second))
    (each : ∀ x ∈ xs, ∀ s, Ensures f (g x) (fun _ _ => False) (fun _ _ seen => P seen) s) :
    Ensures f (forEach xs g) (fun _ _ => False) (fun _ _ seen => P seen) s := by
  induction xs generalizing s with
  | nil => exact ensures_pure nil
  | cons x xs ih =>
      refine ensures_bind_iff.mpr ((each x (by simp) s).mono (fun _ _ never => never) ?_)
      intro _ s' first holds
      refine (ih fun y mem => each y (by simp [mem])).mono (fun _ _ never => never) ?_
      exact fun _ _ second holds' => append first second holds holds'

/-- The first part of a list of calls, then the rest. -/
theorem ensures_forEach_append {xs ys : List β} {g : β → Exec σ τ ε Unit}
    {post : Unit → σ → List γ → Prop}
    (first : Ensures f (forEach xs g) cut
      (fun _ s' seen => Ensures f (forEach ys g) (fun reason more => cut reason (seen ++ more))
        (fun u s'' more => post u s'' (seen ++ more)) s') s) :
    Ensures f (forEach (xs ++ ys) g) cut post s := by
  induction xs generalizing cut post s with
  | nil => exact first
  | cons x xs ih =>
      rw [forEach, ensures_bind_iff] at first
      rw [List.cons_append, forEach, ensures_bind_iff]
      refine first.mono (fun _ _ holds => holds) fun u s' seen rest => ih ?_
      simpa only [List.append_assoc] using rest

/-- A block is seen as its body if the observer does not see what `finally` does. A block that throws
where its body returned is cut short. -/
theorem ensures_tryFinally {body : Exec σ τ ε α} {last : Exec σ τ ε Unit} {post : List γ → Prop}
    (unseen : Unseen f last) (finishes : Finishes last)
    (inside : Ensures f body cut (fun _ _ seen => cut none seen ∧ post seen) s) :
    Ensures f (tryFinally body last) cut (fun _ _ seen => cut none seen ∧ post seen) s := by
  unfold Ensures at inside ⊢
  have finished := finishes (body s).state
  cases h : (body s).outcome with
  | stopped reason =>
      simp only [h] at inside
      rw [tryFinally_stopped h, h]
      exact inside
  | ret a | thrown e =>
      simp only [h] at inside
      rw [tryFinally_finished (by rw [h]; rfl), h]
      dsimp only
      rw [List.filterMap_append, unseen.nothing, List.append_nil]
      cases h' : (last (body s).state).outcome with
      | ret u => exact inside
      | thrown e' => first | exact inside.1 | exact inside
      | stopped reason => simp [h'] at finished

/-- A computation that the observer does not see and that keeps the relation `R`. -/
def Idle (f : τ → Option γ) (R : σ → σ → Prop) (m : Exec σ τ ε α) : Prop :=
  ∀ s, R s (m s).state ∧ (m s).trace.filterMap f = []

theorem closed_idle {R : σ → σ → Prop} (refl : ∀ s, R s s)
    (trans : ∀ {s s' s''}, R s s' → R s' s'' → R s s'') :
    Closed (fun {α} (m : Exec σ τ ε α) => Idle f R m) :=
  closed_of_composes (Q := fun s t s' => R s s' ∧ t.filterMap f = []) (fun s => ⟨refl s, rfl⟩)
    fun first second => ⟨trans first.1 second.1, by rw [List.filterMap_append, first.2, second.2]; rfl⟩

theorem Idle.unseen {R : σ → σ → Prop} {m : Exec σ τ ε α} (idle : Idle f R m) : Unseen f m :=
  fun s => List.filterMap_eq_nil_iff.mp (idle s).2

theorem ensures_idle {R : σ → σ → Prop} {m : Exec σ τ ε α} {post : α → σ → List γ → Prop}
    (idle : Idle f R m) (stop : ∀ reason, cut reason [])
    (next : ∀ a s', R s s' → post a s' []) : Ensures f m cut post s := by
  obtain ⟨related, nothing⟩ := idle s
  unfold Ensures
  rw [nothing]
  split
  · exact next _ _ related
  · exact stop _
  · exact stop _

end Rules

end Traced
