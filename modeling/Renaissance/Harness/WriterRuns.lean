import Renaissance.Harness.Events
import Renaissance.Harness.ResultTables

/-!
# Result writers in a run

Whatever benchmarks, plugins and policies do, a writer's maps hold what the dispatcher delivered to it,
and it stores its results exactly if the sanity check passes on what was delivered so far.

Results:
1. `deliver_writer_shutdown`: what a writer does at the shutdown.
2. `replays_runBenchmarks`: in every run the state of a writer is the replay of the deliveries to it.
-/

namespace Renaissance

open Traced ResultWriter

variable {π : Type}

/-! ## Deliveries to a writer -/

/-- The notification that the call delivers to the writer at position `k`. -/
def Event.deliveredTo? (k : Nat) : Event → Option Notification
  | .call (.deliver (.writer index) n) => if index = k then some n else none
  | _ => none

def deliveredTo (k : Nat) (t : List Event) : List Notification :=
  t.filterMap (Event.deliveredTo? k)

/-- What an event does to the writer at position `k`. -/
def hear (k : Nat) (writer : ResultWriter) (e : Event) : ResultWriter :=
  match e.deliveredTo? k with
  | some n => writer.notified n
  | none => writer

theorem foldl_hear (k : Nat) (writer : ResultWriter) (t : List Event) :
    t.foldl (hear k) writer = (deliveredTo k t).foldl notified writer := by
  induction t generalizing writer with
  | nil => rfl
  | cons e t ih =>
      rw [List.foldl_cons, ih, deliveredTo, deliveredTo, List.filterMap_cons, hear]
      cases e.deliveredTo? k <;> rfl

/-- The events that the shutdown of a writer leaves: an error message, or a call of `store` and what it
writes. -/
def shutdownEvents (jvm : Jvm) (k : Nat) (writer : ResultWriter) : List Event :=
  match writer.storeDecision true with
  | .exit message => [.stderr message]
  | .store normal =>
      .call (.store k normal) ::
        match writer.store jvm normal with
        | .ok content => [.written k content]
        | .error _ => [.threw (.store k normal)]

/-- The events of the writer's methods, next to the deliveries themselves: what follows a delivery of
the shutdown, and what is written is what `store` returns for the results held. -/
structure StoresAt (jvm : Jvm) (k : Nat) (writer : ResultWriter) (e : Event) (rest : List Event) :
    Prop where
  shutdown : e = .call (.deliver (.writer k) .beforeHarnessShutdown) →
    shutdownEvents jvm k writer <+: rest
  called : ∀ normal, e = .call (.store k normal) →
    normal = true ∧ writer.storeDecision true = .store true
  written : ∀ content, e = .written k content →
    writer.storeDecision true = .store true ∧ writer.store jvm true = .ok content

def Stores (jvm : Jvm) (k : Nat) : ResultWriter → List Event → Prop
  | _, [] => True
  | writer, e :: rest => StoresAt jvm k writer e rest ∧ Stores jvm k (hear k writer e) rest

theorem StoresAt.append {jvm : Jvm} {k : Nat} {writer : ResultWriter} {e : Event}
    {rest : List Event} (stores : StoresAt jvm k writer e rest) (more : List Event) :
    StoresAt jvm k writer e (rest ++ more) where
  shutdown delivered := (stores.shutdown delivered).trans (List.prefix_append rest more)
  called := stores.called
  written := stores.written

theorem stores_append {jvm : Jvm} {k : Nat} {writer : ResultWriter} {t t' : List Event}
    (first : Stores jvm k writer t) (second : Stores jvm k (t.foldl (hear k) writer) t') :
    Stores jvm k writer (t ++ t') := by
  induction t generalizing writer with
  | nil => exact second
  | cons e t ih => exact ⟨first.1.append t', ih first.2 second⟩

theorem stores_split {jvm : Jvm} {k : Nat} {writer : ResultWriter} {before after : List Event}
    {e : Event} (stores : Stores jvm k writer (before ++ e :: after)) :
    StoresAt jvm k (before.foldl (hear k) writer) e after := by
  induction before generalizing writer with
  | nil => exact stores.1
  | cons e' before ih => exact ih stores.2

/-- Every run changes the writer at position `k` as its deliveries say, and stores accordingly. -/
def Replays (jvm : Jvm) (k : Nat) {α : Type} (m : Action π α) : Prop :=
  ∀ w, (m w).state.writers[k]? = (w.writers[k]?).map (fun writer =>
      (m w).trace.foldl (hear k) writer) ∧
    ∀ writer, w.writers[k]? = some writer → Stores jvm k writer (m w).trace

theorem closed_replays (jvm : Jvm) (k : Nat) :
    Closed (fun {α} (m : Action π α) => Replays jvm k m) := by
  refine closed_of_composes (Q := fun (w : World π) (t : List Event) (w' : World π) =>
    w'.writers[k]? = (w.writers[k]?).map (fun writer => t.foldl (hear k) writer) ∧
      ∀ writer, w.writers[k]? = some writer → Stores jvm k writer t) ?_ ?_
  · exact fun w => ⟨by simp, fun _ _ => trivial⟩
  · intro w t w' t' w'' ⟨state, stores⟩ ⟨state', stores'⟩
    constructor
    · rw [state', state, Option.map_map]
      simp [Function.comp_def, List.foldl_append]
    · intro writer found
      refine stores_append (stores writer found) (stores' _ ?_)
      rw [state, found]
      rfl

/-! ## Steps that do not concern the writer -/

/-- The event belongs to the writer at position `k`. -/
def Event.concerns (k : Nat) : Event → Bool
  | .call (.deliver (.writer index) _) | .call (.store index _) | .written index _ => index = k
  | _ => false

theorem stores_of_unconcerned {jvm : Jvm} {k : Nat} {writer : ResultWriter} {t : List Event}
    (unconcerned : ∀ e ∈ t, e.concerns k = false) :
    t.foldl (hear k) writer = writer ∧ Stores jvm k writer t := by
  induction t with
  | nil => exact ⟨rfl, trivial⟩
  | cons e t ih =>
      have first := unconcerned e (by simp)
      obtain ⟨same, stores⟩ := ih fun e he => unconcerned e (by simp [he])
      have deaf : hear k writer e = writer := by
        unfold hear Event.deliveredTo?
        split
        · rename_i heard
          split at heard
          · rename_i here
            split at heard
            · rename_i own
              subst own
              simp [Event.concerns] at first
            · cases heard
          · cases heard
        · rfl
      refine ⟨by rw [List.foldl_cons, deaf, same], ⟨?_, ?_, ?_⟩, by rw [deaf]; exact stores⟩
      · rintro rfl
        simp [Event.concerns] at first
      · rintro normal rfl
        simp [Event.concerns] at first
      · rintro content rfl
        simp [Event.concerns] at first

/-- No run has an event of the writer at position `k` or changes the writer. -/
def Unconcerned (k : Nat) {α : Type} (m : Action π α) : Prop :=
  ∀ w, (m w).state.writers[k]? = w.writers[k]? ∧ ∀ e ∈ (m w).trace, e.concerns k = false

theorem closed_unconcerned (k : Nat) : Closed (fun {α} (m : Action π α) => Unconcerned k m) := by
  refine closed_of_composes (Q := fun (w : World π) (t : List Event) (w' : World π) =>
    w'.writers[k]? = w.writers[k]? ∧ ∀ e ∈ t, e.concerns k = false) ?_ ?_
  · exact fun w => ⟨rfl, by simp⟩
  · intro w t w' t' w'' ⟨state, events⟩ ⟨state', events'⟩
    exact ⟨state'.trans state, fun e he => (List.mem_append.mp he).elim (events e) (events' e)⟩

theorem Unconcerned.replays {jvm : Jvm} {k : Nat} {α : Type} {m : Action π α}
    (unconcerned : Unconcerned k m) : Replays jvm k m := by
  intro w
  obtain ⟨state, events⟩ := unconcerned w
  refine ⟨?_, fun writer _ => (stores_of_unconcerned events).2⟩
  rw [state]
  cases w.writers[k]? with
  | none => rfl
  | some writer => rw [Option.map_some, (@stores_of_unconcerned jvm k writer _ events).1]

theorem unconcerned_step {k : Nat} {β : Type} (f : World π → β × World π) (keeps : KeepsWriters f) :
    Unconcerned k (step f : Action π β) := by
  intro w
  rw [step_apply]
  exact ⟨by rw [keeps w], by simp⟩

theorem unconcerned_emit {k : Nat} {e : Event} (other : e.concerns k = false) :
    Unconcerned k (emit e : Action π Unit) := by
  intro w
  rw [emit_apply]
  refine ⟨rfl, fun e' he' => ?_⟩
  rw [List.mem_singleton.mp he', other]

/-! ## Deliveries -/

theorem unconcerned_deliver_plugin (k : Nat) (env : Env π) (n : Notification) (p : Plugin) :
    Unconcerned k (deliver env n (.plugin p)) :=
  closed_invoke (closed_unconcerned k) (unconcerned_emit rfl) (unconcerned_emit rfl)
    (unconcerned_emit rfl)
    (closed_handle_plugin (closed_unconcerned k) unconcerned_step
      (fun _ _ => unconcerned_emit rfl) (fun _ _ _ => unconcerned_emit rfl) n p)

theorem unconcerned_deliver_writer {k index : Nat} (other : index ≠ k) (env : Env π)
    (n : Notification) : Unconcerned k (deliver env n (.writer index)) := by
  have modify : ∀ f, Unconcerned k (modifyWriter index f : Action π Unit) := by
    intro f w
    refine ⟨?_, by simp [modifyWriter]⟩
    simp [modifyWriter, other]
  have mark : ∀ e : Event, e.concerns k = decide (index = k) →
      Unconcerned k (emit e : Action π Unit) := fun e here =>
    unconcerned_emit (by rw [here, decide_eq_false other])
  refine closed_invoke (closed_unconcerned k) (mark _ rfl) (unconcerned_emit rfl)
    (unconcerned_emit rfl) (closed_handle_writer (closed_unconcerned k) modify fun _ => ?_)
  refine closed_storeResults (closed_unconcerned k) modify (unconcerned_step _ fun _ => rfl)
    (fun _ => unconcerned_emit rfl) ?_ (fun _ => mark _ rfl) (fun _ => unconcerned_emit rfl)
    (fun _ => unconcerned_emit rfl) (fun _ => mark _ rfl) true
  exact fun w => ⟨rfl, by simp⟩

theorem storeDecision_cases (writer : ResultWriter) :
    (∃ message, writer.storeDecision true = .exit message) ∨
      writer.storeDecision true = .store true := by
  unfold storeDecision
  split
  · exact .inl ⟨_, rfl⟩
  · exact .inr rfl

/-- A new result or a failure changes the writer and leaves only the marks of the delivery. -/
theorem deliver_writer_running (env : Env π) (k : Nat) {n : Notification}
    (running : n ≠ .beforeHarnessShutdown) (w : World π) :
    let run := deliver env n (.writer k) w
    run.outcome = .ret () ∧
      run.trace = [.call (.deliver (.writer k) n), .returned (.deliver (.writer k) n)] ∧
      run.state.writers[k]? = (w.writers[k]?).map fun writer => writer.notified n := by
  intro run
  have unfolded : run = _ := invoke_run ..
  rw [unfolded]
  cases n with
  | beforeHarnessShutdown => exact absurd rfl running
  | onMeasurementResult b m value =>
      refine ⟨rfl, rfl, ?_⟩
      simp [handle, writerHandle, modifyWriter, notified]
  | onBenchmarkFailure b =>
      refine ⟨rfl, rfl, ?_⟩
      simp [handle, writerHandle, modifyWriter, notified]
  | _ =>
      refine ⟨rfl, rfl, ?_⟩
      simp [handle, writerHandle, notified]

/-- The shutdown removes the shutdown hook, and then the writer exits or stores. -/
theorem deliver_writer_shutdown (env : Env π) {k : Nat} {w : World π} {writer : ResultWriter}
    (found : w.writers[k]? = some writer) :
    let run := deliver env .beforeHarnessShutdown (.writer k) w
    let delivery := Call.deliver (.writer k) .beforeHarnessShutdown
    run.state.writers[k]? = some (writer.notified .beforeHarnessShutdown) ∧
    ((∃ message, writer.storeDecision true = .exit message ∧ run.outcome = .stopped (.exit 1) ∧
        run.trace = [.call delivery, .stderr message]) ∨
      (writer.storeDecision true = .store true ∧
        ((∃ content, writer.store env.jvm true = .ok content ∧ run.outcome = .ret () ∧
            run.trace = [.call delivery, .call (.store k true), .written k content,
              .returned (.store k true), .returned delivery]) ∨
          ∃ cause, writer.store env.jvm true = .error cause ∧ run.outcome = .thrown cause ∧
            run.trace = [.call delivery, .call (.store k true), .threw (.store k true),
              .threw delivery]))) := by
  intro run delivery
  have unfolded : run = _ := invoke_run ..
  have hooked : (w.writers.modify k fun writer => { writer with storeHook := false })[k]? =
      some { writer with storeHook := false } := by simp [found]
  have sameStore : { writer with storeHook := false }.store env.jvm true =
      writer.store env.jvm true := rfl
  have sameDecision : { writer with storeHook := false }.storeDecision true =
      writer.storeDecision true := rfl
  rw [unfolded]
  rcases storeDecision_cases writer with ⟨message, decision⟩ | decision
  · rw [← sameDecision] at decision
    refine ⟨?_, .inl ⟨message, decision, ?_⟩⟩ <;>
      simp [handle, writerHandle, storeResults, modifyWriter, getWriter, bind_apply, Run.andThen,
        hooked, decision, notified, ending, delivery]
  · rw [← sameDecision] at decision
    cases stored : writer.store env.jvm true with
    | ok content =>
        rw [← sameStore] at stored
        refine ⟨?_, .inr ⟨decision, .inl ⟨content, rfl, ?_⟩⟩⟩ <;>
          simp [handle, writerHandle, storeResults, modifyWriter, getWriter, bind_apply, Run.andThen,
            hooked, decision, notified, ending, delivery, invoke_run, stored, fromExcept]
    | error cause =>
        rw [← sameStore] at stored
        refine ⟨?_, .inr ⟨decision, .inr ⟨cause, rfl, ?_⟩⟩⟩ <;>
          simp [handle, writerHandle, storeResults, modifyWriter, getWriter, bind_apply, Run.andThen,
            hooked, decision, notified, ending, delivery, invoke_run, stored, fromExcept]

theorem replays_deliver_writer (env : Env π) (k : Nat) (n : Notification) :
    Replays env.jvm k (deliver env n (.writer k)) := by
  intro w
  by_cases running : n = .beforeHarnessShutdown
  · subst running
    cases found : w.writers[k]? with
    | none =>
        refine ⟨?_, by simp⟩
        have same : (w.writers.modify k fun writer => { writer with storeHook := false })[k]? =
            none := by simp [found]
        simp [deliver, invoke_run, handle, writerHandle, storeResults, modifyWriter, getWriter,
          bind_apply, Run.andThen, same]
    | some writer =>
        obtain ⟨state, outcome⟩ := deliver_writer_shutdown env found
        have heard : hear k writer (.call (.deliver (.writer k) .beforeHarnessShutdown)) =
            writer.notified .beforeHarnessShutdown := by simp [hear, Event.deliveredTo?]
        rcases outcome with ⟨message, decision, -, trace⟩ | ⟨decision, ⟨content, stored, -, trace⟩ |
            ⟨cause, stored, -, trace⟩⟩
        · -- the results are not stored
          refine ⟨?_, fun _ same => ?_⟩
          · rw [state, trace]
            simp [hear, Event.deliveredTo?]
          · obtain rfl := Option.some.inj same
            rw [trace]
            refine ⟨⟨?_, by simp, by simp⟩, ⟨by simp, by simp, by simp⟩, trivial⟩
            simp [shutdownEvents, decision]
        · -- the content is written
          refine ⟨?_, fun _ same => ?_⟩
          · rw [state, trace]
            simp [hear, Event.deliveredTo?]
          · obtain rfl := Option.some.inj same
            rw [trace]
            refine ⟨⟨by simp [shutdownEvents, decision, stored], by simp, by simp⟩, ⟨by simp, ?_, by simp⟩,
              ⟨by simp, by simp, ?_⟩, ⟨by simp, by simp, by simp⟩, ⟨by simp, by simp, by simp⟩,
              trivial⟩
            · rw [heard]
              rintro normal same
              cases same
              exact ⟨rfl, decision⟩
            · rw [heard]
              rintro content' same
              cases same
              exact ⟨decision, stored⟩
        · -- storing fails
          refine ⟨?_, fun _ same => ?_⟩
          · rw [state, trace]
            simp [hear, Event.deliveredTo?]
          · obtain rfl := Option.some.inj same
            rw [trace]
            refine ⟨⟨by simp [shutdownEvents, decision, stored], by simp, by simp⟩, ⟨by simp, ?_, by simp⟩,
              ⟨by simp, by simp, by simp⟩, ⟨by simp, by simp, by simp⟩, trivial⟩
            rw [heard]
            rintro normal same
            cases same
            exact ⟨rfl, decision⟩
  · obtain ⟨-, trace, state⟩ := deliver_writer_running env k running w
    refine ⟨?_, fun writer _ => ?_⟩
    · rw [state, trace]
      simp [hear, Event.deliveredTo?]
    · rw [trace]
      refine ⟨⟨?_, by simp, by simp⟩, ⟨by simp, by simp, by simp⟩, trivial⟩
      exact fun same => absurd (by simpa using same) running

theorem replays_deliver (env : Env π) (k : Nat) (n : Notification) (l : Listener) :
    Replays env.jvm k (deliver env n l) := by
  cases l with
  | plugin p => exact (unconcerned_deliver_plugin k env n p).replays
  | writer index =>
      by_cases own : index = k
      · subst own
        exact replays_deliver_writer env index n
      · exact (unconcerned_deliver_writer own env n).replays

theorem replays_emit {jvm : Jvm} {k : Nat} {e : Event} (plain : e.isPlain = true) :
    Replays jvm k (emit e : Action π Unit) := by
  refine (unconcerned_emit ?_).replays
  cases e with
  | call c =>
      cases c with
      | deliver _ _ | store _ _ => cases plain
      | _ => rfl
  | written _ _ => cases plain
  | _ => rfl

/-- A writer that is asked for results does nothing. -/
theorem replays_request {jvm : Jvm} {k : Nat} (l : Listener) (b : String) (i : Int) :
    Replays jvm k (emit (.call (.deliver l (.onMeasurementResultsRequested b i))) :
      Action π Unit) := by
  intro w
  have deaf : ∀ writer, hear k writer (.call (.deliver l (.onMeasurementResultsRequested b i))) =
      writer := by
    intro writer
    cases l with
    | plugin p => rfl
    | writer index =>
        by_cases own : index = k <;> simp [hear, Event.deliveredTo?, own, notified]
  refine ⟨?_, fun writer _ => ⟨⟨by simp, by simp, by simp⟩, trivial⟩⟩
  simp [deaf]

theorem replays_runSteps (h : Harness π) (k : Nat) :
    RunSteps h (fun {α} (m : Action π α) => Replays h.env.jvm k m) where
  closed := closed_replays _ k
  step f outside := (unconcerned_step f outside.writers).replays
  emit _ plain := replays_emit plain
  deliver n _ l _ := replays_deliver h.env k n l
  request l _ := replays_request l
  outOfFuel := fun w => ⟨by simp, fun _ _ => trivial⟩

theorem replays_executeOperation (h : Harness π) (k : Nat) (b : String) (i : Int) :
    Replays h.env.jvm k (h.executeOperation b i) :=
  (replays_runSteps h k).executeOperation (fun _ _ _ l _ => replays_deliver h.env k _ l) b i

/-- The state of a writer at the end of a run is the replay of the deliveries to it, and on the way
the writer stored what the deliveries up to that point amount to. -/
theorem replays_runBenchmarks (h : Harness π) (k : Nat) (fuel : Nat)
    (benchmarks : List BenchmarkDescriptor) :
    Replays h.env.jvm k (h.runBenchmarks fuel benchmarks) :=
  (replays_runSteps h k).runBenchmarks (replays_executeOperation h k) fuel benchmarks

end Renaissance
