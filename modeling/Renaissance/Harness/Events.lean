import Renaissance.Lib.Ensures
import Renaissance.Harness.Traversal

/-!
# Reading a trace

The run of a recorded call, and which events of a run are the driver's own. What a listener, a
benchmark or a publisher does inside a call of the driver is not the driver's.

Results:
1. `invoke_run`, `query_run`: a recorded call is its body between two marks.
2. `silent_deliver`, `silent_publish`: listeners and publishers leave no event of the driver.
3. `DriverCall` and its instances: every call of the driver comes to an end, and it leaves its two
   marks in the driver's trace.
-/

namespace Renaissance

open Traced

variable {π : Type}

/-! ## Recorded calls -/

/-- The mark at the end of a call. -/
def ending {α : Type} (call : Call) : Outcome Throwable α → List Event
  | .ret _ => [.returned call]
  | .thrown _ => [.threw call]
  | .stopped _ => []

/-- The mark at the end of a call that yields a truth value. -/
def answer (call : Call) : Outcome Throwable Bool → List Event
  | .ret value => [.answered call value]
  | .thrown _ => [.threw call]
  | .stopped _ => []

theorem invoke_run {α : Type} (call : Call) (body : Action π α) (w : World π) :
    invoke call body w =
      ⟨(body w).outcome, .call call :: ((body w).trace ++ ending call (body w).outcome),
        (body w).state⟩ := by
  cases h : (body w).outcome <;>
    simp [invoke, bind_apply, Run.andThen, attempt, h, ending]

theorem query_run (call : Call) (body : Action π Bool) (w : World π) :
    query call body w =
      ⟨(body w).outcome, .call call :: ((body w).trace ++ answer call (body w).outcome),
        (body w).state⟩ := by
  cases h : (body w).outcome <;>
    simp [query, bind_apply, Run.andThen, attempt, h, answer]

theorem returns_invoke {α : Type} {call : Call} {body : Action π α} (returns : Returns body) :
    Returns (invoke call body) := by
  intro w
  rw [invoke_run]
  exact returns w

/-- An observer sees the call, its body and the mark at its end. -/
theorem ensures_invoke {γ α : Type} {f : Event → Option γ} {call : Call} {body : Action π α}
    {cut : Option Stop → List γ → Prop} {post : α → World π → List γ → Prop} {w : World π}
    (inner : Ensures f body
      (fun reason seen => cut reason ((f (.call call)).toList ++
        (seen ++ if reason = none then (f (.threw call)).toList else [])))
      (fun a w' seen => post a w' ((f (.call call)).toList ++
        (seen ++ (f (.returned call)).toList))) w) :
    Ensures f (invoke call body) cut post w := by
  refine ensures_bind_iff.mpr (ensures_emit ?_)
  refine ensures_bind_iff.mpr (ensures_attempt (inner.mono ?_ ?_))
  · rintro (_ | stop) seen holds
    · intro e w'
      refine ensures_bind_iff.mpr (ensures_emit ?_)
      simpa [Ensures] using holds
    · simpa using holds
  · intro a w' seen holds
    refine ensures_bind_iff.mpr (ensures_emit (ensures_pure ?_))
    simpa using holds

/-! ## Listeners

What holds of every step that leaves no event, and of the few events that the harness's own
listeners leave, holds of every listener. -/

section Listeners

variable {P : ∀ {α : Type}, Action π α → Prop} {env : Env π}

theorem closed_policyHandle (closed : Closed P)
    (steps : ∀ {β : Type} (f : World π → β × World π), KeepsWriters f → P (step f))
    (timeStart : ∀ b now, P (emit (.timeStart b now)))
    (timeCheck : ∀ b measured elapsed, P (emit (.timeCheck b measured elapsed))) (n : Notification) :
    P (policyHandle env n) := by
  refine closed.bind (steps _ fun _ => rfl) fun policy => ?_
  split
  · exact steps _ fun _ => rfl
  · refine closed.bind (steps _ fun _ => rfl) fun now => ?_
    exact closed.bind (timeStart _ _) fun _ => steps _ fun _ => rfl
  · refine closed.bind (steps _ fun _ => rfl) fun now => ?_
    exact closed.bind (timeCheck _ _ _) fun _ => steps _ fun _ => rfl
  · exact steps _ fun _ => rfl
  · exact closed.bind (timeCheck _ _ _) fun _ => steps _ fun _ => rfl
  · exact closed.pure ()

/-- The listener methods of the plugins, which leave the writers alone. -/
theorem closed_handle_plugin (closed : Closed P)
    (steps : ∀ {β : Type} (f : World π → β × World π), KeepsWriters f → P (step f))
    (timeStart : ∀ b now, P (emit (.timeStart b now)))
    (timeCheck : ∀ b measured elapsed, P (emit (.timeCheck b measured elapsed))) (n : Notification)
    (p : Plugin) :
    P (handle env (.plugin p) n) := by
  cases p with
  | builtinPolicy _ => exact closed_policyHandle closed steps timeStart timeCheck n
  | external p => exact closed_external closed (steps _ fun _ => rfl)
  | forceGc =>
      cases n with
      | afterOperationSetUp _ _ _ =>
          refine closed.bind (steps _ fun _ => rfl) fun _ => ?_
          exact closed.bind (steps _ fun _ => rfl) fun _ => closed.pure ()
      | _ => exact closed.pure ()

theorem closed_handle_writer (closed : Closed P) {index : Nat} {n : Notification}
    (modify : ∀ f, P (modifyWriter index f))
    (store : n = .beforeHarnessShutdown → P (storeResults env index true)) :
    P (handle env (.writer index) n) := by
  cases n with
  | onMeasurementResult _ _ _ | onBenchmarkFailure _ => exact modify _
  | beforeHarnessShutdown => exact store rfl
  | _ => exact closed.pure ()

/-- The flag of the shutdown hook is the only thing that a normal termination adds. -/
theorem storeResults_eq (env : Env π) (index : Nat) (normal : Bool) :
    storeResults env index normal =
      (if normal then modifyWriter index fun writer => { writer with storeHook := false }
        else pure ()) >>= fun _ => getWriter index >>= fun found =>
        match found with
        | none => pure ()
        | some writer =>
            match writer.storeDecision normal with
            | .exit message => emit (.stderr message) >>= fun _ => stop (.exit 1)
            | .store normal =>
                invoke (.store index normal)
                  (fromExcept (writer.store env.jvm normal) >>= fun content =>
                    emit (.written index content)) := by
  cases normal <;> rfl

theorem closed_storeResults (closed : Closed P) {index : Nat}
    (modify : ∀ f, P (modifyWriter index f)) (get : P (getWriter index))
    (stderr : ∀ line, P (emit (.stderr line))) (exit : P (stop (.exit 1) : Action π Unit))
    (called : ∀ normal, P (emit (.call (.store index normal))))
    (returned : ∀ normal, P (emit (.returned (.store index normal))))
    (threw : ∀ normal, P (emit (.threw (.store index normal))))
    (written : ∀ content, P (emit (.written index content))) (normal : Bool) :
    P (storeResults env index normal) := by
  have marked : P (if normal then modifyWriter index fun writer => { writer with storeHook := false }
      else pure ()) := by
    cases normal with
    | true => exact modify _
    | false => exact closed.pure ()
  rw [storeResults_eq]
  refine closed.bind marked fun _ => closed.bind get fun found => ?_
  cases found with
  | none => exact closed.pure ()
  | some writer =>
      dsimp only
      split
      · exact closed.bind (stderr _) fun _ => exit
      · refine closed_invoke closed (called _) (returned _) (threw _) ?_
        exact closed.bind (closed_fromExcept closed _) fun content => written content

end Listeners

/-! ## The driver's own events -/

/-- The calls that the driver itself makes. The suite makes `create` and `executeBenchmark`; the
others are made by the dispatcher, a publisher or a result writer. -/
def Call.ofDriver : Call → Bool
  | .benchmark .. | .validate _ | .canExecute .. | .isLast .. | .notify _ => true
  | .create _ | .executeBenchmark _ | .dispatch .. | .deliver .. | .store .. => false

/-- The events of the driver: its calls, how they ended, and the lines it prints. -/
def Event.ofDriver : Event → Bool
  | .call c | .returned c | .answered c _ | .threw c => c.ofDriver
  | .printed _ | .unprinted _ => true
  | .timeStart .. | .timeCheck .. | .stderr _ | .stackTrace _ | .written .. => false

def driverTrace (t : List Event) : List Event :=
  t.filter Event.ofDriver

@[simp] theorem driverTrace_append (t t' : List Event) :
    driverTrace (t ++ t') = driverTrace t ++ driverTrace t' :=
  List.filter_append ..

@[simp] theorem driverTrace_nil : driverTrace [] = [] := rfl

/-- No event of any run is the driver's. -/
def Silent {α : Type} (m : Action π α) : Prop :=
  Emits (fun e => e.ofDriver = false) m

theorem closed_silent : Closed (fun {α} (m : Action π α) => Silent m) :=
  closed_emits _

theorem silent_emit {e : Event} (h : e.ofDriver = false) : Silent (emit e : Action π Unit) := by
  intro w e' he'
  simp only [emit_apply, List.mem_singleton] at he'
  rw [he', h]

theorem silent_step {β : Type} (f : World π → β × World π) : Silent (step f : Action π β) := by
  intro w e he
  simp at he

theorem Silent.driverTrace_eq {α : Type} {m : Action π α} (silent : Silent m) (w : World π) :
    driverTrace (m w).trace = [] :=
  List.filter_eq_nil_iff.mpr fun e he => by simp [silent w e he]

theorem silent_storeResults (env : Env π) (index : Nat) (normal : Bool) :
    Silent (storeResults env index normal) :=
  closed_storeResults closed_silent (fun _ => silent_step _) (silent_step _)
    (fun _ => silent_emit rfl) (fun _ _ he => absurd he List.not_mem_nil) (fun _ => silent_emit rfl)
    (fun _ => silent_emit rfl) (fun _ => silent_emit rfl) (fun _ => silent_emit rfl) normal

theorem silent_deliver (env : Env π) (n : Notification) (l : Listener) :
    Silent (deliver env n l) := by
  refine closed_invoke closed_silent (silent_emit rfl) (silent_emit rfl) (silent_emit rfl) ?_
  cases l with
  | plugin p =>
      exact closed_handle_plugin closed_silent (fun f _ => silent_step f) (fun _ _ => silent_emit rfl)
        (fun _ _ _ => silent_emit rfl) n p
  | writer index =>
      exact closed_handle_writer closed_silent (fun _ => silent_step _)
        fun _ => silent_storeResults env index true

theorem silent_dispatch (h : Harness π) (benchmark metric : String) (value : Int) :
    Silent (h.dispatch benchmark metric value) :=
  closed_dispatch closed_silent (silent_emit rfl) (silent_emit rfl) (silent_emit rfl)
    fun l _ => silent_deliver _ _ l

theorem silent_publish (h : Harness π) (b : String) (i : Int) (l : Listener) :
    Silent (h.publish b i l) :=
  closed_publish closed_silent (fun _ => silent_step _) (silent_dispatch h) l

/-! ## Calls that come to an end -/

/-- A line is printed, or `printf` throws. -/
theorem printf_cases (h : Harness π) (line : Line) (w : World π) :
    (h.isPrintable line = true ∧ h.printf line w = ⟨.ret (), [.printed line], w⟩) ∨
    (h.isPrintable line = false ∧ ∃ e, h.printf line w = ⟨.thrown e, [.unprinted line], w⟩) := by
  unfold Harness.printf
  cases h.isPrintable line with
  | true => exact .inl ⟨rfl, rfl⟩
  | false => exact .inr ⟨rfl, _, rfl⟩

/-- A line that the observer does not see may still throw. -/
theorem ensures_printf {γ : Type} {f : Event → Option γ} {h : Harness π} {line : Line} {w : World π}
    {cut : Option Stop → List γ → Prop} {post : Unit → World π → List γ → Prop}
    (printed : f (.printed line) = none) (unprinted : f (.unprinted line) = none)
    (threw : cut none []) (next : post () w []) : Ensures f (h.printf line) cut post w := by
  unfold Ensures
  obtain ⟨-, run⟩ | ⟨-, e, run⟩ := printf_cases h line w
  · rw [run]
    simpa [printed] using next
  · rw [run]
    simpa [unprinted] using threw

theorem finishes_emit (e : Event) : Finishes (emit e : Action π Unit) := fun _ => rfl

theorem finishes_step {β : Type} (f : World π → β × World π) :
    Finishes (step f : Action π β) := fun _ => rfl

theorem finishes_external {α : Type} (f : π → Except Throwable α × π) : Finishes (external f) :=
  closed_external closed_finishes (finishes_step _)

/-- Only a result writer that is told to store may exit. -/
theorem finishes_deliver (env : Env π) {n : Notification} (running : n ≠ .beforeHarnessShutdown)
    (l : Listener) : Finishes (deliver env n l) := by
  refine closed_invoke closed_finishes (finishes_emit _) (finishes_emit _) (finishes_emit _) ?_
  cases l with
  | plugin p =>
      exact closed_handle_plugin closed_finishes (fun f _ => finishes_step f)
        (fun _ _ => finishes_emit _) (fun _ _ _ => finishes_emit _) n p
  | writer index =>
      exact closed_handle_writer closed_finishes (fun _ => finishes_step _)
        fun shutdown => absurd shutdown running

theorem finishes_dispatch (h : Harness π) (benchmark metric : String) (value : Int) :
    Finishes (h.dispatch benchmark metric value) :=
  closed_dispatch closed_finishes (finishes_emit _) (finishes_emit _) (finishes_emit _)
    fun l _ => finishes_deliver _ (by simp) l

theorem finishes_publish (h : Harness π) (b : String) (i : Int) (l : Listener) :
    Finishes (h.publish b i l) :=
  closed_publish closed_finishes (fun _ => finishes_step _) (finishes_dispatch h) l

/-- `m` makes one call of the driver. The call comes to an end, with the mark that its value
determines or with an exception. -/
def DriverCall {α : Type} (call : Call) (mark : α → Event) (m : Action π α) : Prop :=
  ∀ w, (∃ a, (m w).outcome = .ret a ∧ driverTrace (m w).trace = [.call call, mark a]) ∨
    (∃ e, (m w).outcome = .thrown e ∧ driverTrace (m w).trace = [.call call, .threw call])

theorem DriverCall.finishes {α : Type} {call : Call} {mark : α → Event} {m : Action π α}
    (called : DriverCall call mark m) : Finishes m := by
  intro w
  rcases called w with ⟨a, returned, -⟩ | ⟨e, threw, -⟩
  · rw [returned]
    rfl
  · rw [threw]
    rfl

theorem DriverCall.marks_of_ret {α : Type} {call : Call} {mark : α → Event} {m : Action π α}
    (called : DriverCall call mark m) {w : World π} {a : α} (returned : (m w).outcome = .ret a) :
    driverTrace (m w).trace = [.call call, mark a] := by
  rcases called w with ⟨a', returned', marks⟩ | ⟨e, threw, -⟩
  · obtain rfl : a = a' := by simpa [returned] using returned'
    exact marks
  · simp [returned] at threw

theorem driverCall_invoke {α : Type} {call : Call} {body : Action π α}
    (driver : call.ofDriver = true) (silent : Silent body) (finishes : Finishes body) :
    DriverCall call (fun _ => .returned call) (invoke call body) := by
  intro w
  have inside := silent.driverTrace_eq w
  have finished := finishes w
  rw [invoke_run]
  cases h : (body w).outcome with
  | ret a => exact .inl ⟨a, rfl, by simp_all [driverTrace, ending, Event.ofDriver]⟩
  | thrown e => exact .inr ⟨e, rfl, by simp_all [driverTrace, ending, Event.ofDriver]⟩
  | stopped r => simp [h] at finished

theorem driverCall_query {call : Call} {body : Action π Bool} (driver : call.ofDriver = true)
    (silent : Silent body) (finishes : Finishes body) :
    DriverCall call (.answered call) (query call body) := by
  intro w
  have inside := silent.driverTrace_eq w
  have finished := finishes w
  rw [query_run]
  cases h : (body w).outcome with
  | ret a => exact .inl ⟨a, rfl, by simp_all [driverTrace, answer, Event.ofDriver]⟩
  | thrown e => exact .inr ⟨e, rfl, by simp_all [driverTrace, answer, Event.ofDriver]⟩
  | stopped r => simp [h] at finished

theorem silent_external {α : Type} (f : π → Except Throwable α × π) : Silent (external f) :=
  closed_external closed_silent (silent_step _)

section DriverCalls

variable (h : Harness π)

theorem driverCall_notify {n : Notification} (running : n ≠ .beforeHarnessShutdown) :
    DriverCall (.notify n) (fun _ => .returned (.notify n)) (h.notify n) :=
  driverCall_invoke rfl (closed_silent.forEach fun l _ => silent_deliver _ _ l)
    (closed_finishes.forEach fun l _ => finishes_deliver _ running l)

theorem driverCall_notifyOnMeasurementResultsRequested (b : String) (i : Int) :
    DriverCall (.notify (.onMeasurementResultsRequested b i))
      (fun _ => .returned (.notify (.onMeasurementResultsRequested b i)))
      (h.notifyOnMeasurementResultsRequested b i) := by
  refine driverCall_invoke rfl (closed_silent.forEach fun l _ => ?_)
    (closed_finishes.forEach fun l _ => ?_)
  · exact closed_invoke closed_silent (silent_emit rfl) (silent_emit rfl) (silent_emit rfl)
      (silent_publish h b i l)
  · exact closed_invoke closed_finishes (finishes_emit _) (finishes_emit _) (finishes_emit _)
      (finishes_publish h b i l)

theorem driverCall_callBenchmark (method : BenchmarkMethod) (b : String) :
    DriverCall (.benchmark method b) (fun _ => .returned (.benchmark method b))
      (h.callBenchmark method b) :=
  driverCall_invoke rfl (silent_external _) (finishes_external _)

theorem driverCall_validate (operation : Operation) :
    DriverCall (.validate operation) (fun _ => .returned (.validate operation))
      (h.validate operation) :=
  driverCall_invoke rfl (silent_external _) (finishes_external _)

theorem driverCall_canExecute (b : String) (i : Int) :
    DriverCall (.canExecute b i) (.answered (.canExecute b i)) (h.canExecute b i) := by
  refine driverCall_query rfl ?_ ?_
  · exact of_policy h.policy (silent_step _) fun _ => silent_external _
  · exact of_policy h.policy (finishes_step _) fun _ => finishes_external _

theorem driverCall_isLast (b : String) (i : Int) :
    DriverCall (.isLast b i) (.answered (.isLast b i)) (h.isLast b i) := by
  refine driverCall_query rfl ?_ ?_
  · exact of_policy h.policy (silent_step _) fun _ => silent_external _
  · exact of_policy h.policy (finishes_step _) fun _ => finishes_external _

end DriverCalls

end Renaissance
