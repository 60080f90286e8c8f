import Renaissance.Harness.Attempts
import Renaissance.Harness.BenchmarkNesting
import Renaissance.Harness.SanityCheck

/-!
# The account of a whole run

What `runBenchmarks` returns, what its listeners were told and what its result writers hold are all
given by one list of attempts, whichever benchmarks throw where.

Result: `runBenchmarks_accounted`.
-/

namespace Renaissance

open Traced JavaInt ResultWriter

variable {π : Type}

/-! ## What a writer is told -/

/-- What the listeners to results and to failures are told about an attempt. -/
def Attempt.notifications (vmStartNanos : Int) (attempt : Attempt) : List Notification :=
  attempt.measured.flatMap (Measured.reports vmStartNanos) ++
    if attempt.broken then [.onBenchmarkFailure attempt.descriptor.name] else []

/-- What a mark tells the writer at position `k`. -/
def Mark.tells (k : Nat) : Mark → List Notification
  | .told (.writer index) n => if index = k then [n] else []
  | _ => []

theorem Event.accounted_deliveredTo (k : Nat) (e : Event) :
    (e.deliveredTo? k).toList.filter Notification.accounted =
      e.mark?.toList.flatMap (Mark.tells k) := by
  cases e with
  | call c =>
      cases c with
      | deliver l n =>
          cases l with
          | plugin p =>
              by_cases kept : n.accounted <;>
                simp [Event.deliveredTo?, Event.mark?, Mark.tells, kept]
          | writer index =>
              by_cases own : index = k <;> by_cases kept : n.accounted <;>
                simp [Event.deliveredTo?, Event.mark?, Mark.tells, own, kept]
      | _ => rfl
  | returned c | threw c => cases c <;> rfl
  | _ => rfl

/-- The account keeps all that the writer is told about results and failures. -/
theorem accounted_deliveredTo (k : Nat) (t : List Event) :
    (deliveredTo k t).filter Notification.accounted =
      (t.filterMap Event.mark?).flatMap (Mark.tells k) := by
  rw [deliveredTo, List.filterMap_eq_flatMap_toList, List.filterMap_eq_flatMap_toList,
    List.filter_flatMap, List.flatMap_assoc]
  exact congrArg (List.flatMap · t) (funext fun e => e.accounted_deliveredTo k)

theorem recorded_accounted (ns : List Notification) (b m : String) :
    recorded (ns.filter Notification.accounted) b m = recorded ns b m := by
  induction ns with
  | nil => rfl
  | cons n ns ih =>
      have rest : recorded (n :: ns) b m = n.values b m ++ recorded ns b m := List.flatMap_cons
      rw [rest, List.filter_cons]
      split
      · rw [← ih]
        exact List.flatMap_cons
      · rename_i other
        rw [ih]
        cases n with
        | onMeasurementResult _ _ _ => exact absurd rfl other
        | _ => rfl

theorem failures_accounted (ns : List Notification) :
    failures (ns.filter Notification.accounted) = failures ns := by
  rw [failures, List.filterMap_filter]
  refine List.filterMap_congr fun n _ => ?_
  cases n <;> rfl

/-! ## The writers in the account -/

/-- From the world `w` to `w'` every writer was told what the marks say. -/
def Told (w w' : World π) (seen : List Mark) : Prop :=
  ∀ k, ∃ ns : List Notification,
    w'.writers[k]? = (w.writers[k]?).map (fun writer => ns.foldl notified writer) ∧
      ns.filter Notification.accounted = seen.flatMap (Mark.tells k)

theorem told_of_replays {α : Type} {jvm : Jvm} {m : Action π α} (replays : ∀ k, Replays jvm k m)
    (w : World π) : Told w (m w).state ((m w).trace.filterMap Event.mark?) := by
  intro k
  refine ⟨deliveredTo k (m w).trace, ?_, accounted_deliveredTo k _⟩
  rw [(replays k w).1]
  exact congrArg (Option.map · w.writers[k]?) (funext fun writer => foldl_hear k writer _)

theorem Told.trans {w w' w'' : World π} {seen more : List Mark} (first : Told w w' seen)
    (second : Told w' w'' more) : Told w w'' (seen ++ more) := by
  intro k
  obtain ⟨ns, state, same⟩ := first k
  obtain ⟨ns', state', same'⟩ := second k
  refine ⟨ns ++ ns', ?_, by rw [List.filter_append, same, same', List.flatMap_append]⟩
  rw [state', state, Option.map_map]
  simp [Function.comp_def, List.foldl_append]

theorem tells_plugins (k : Nat) (n : Notification) (ps : List Plugin) :
    ((ps.map Listener.plugin).map (Mark.told · n)).flatMap (Mark.tells k) = [] := by
  simp [Mark.tells]

theorem tells_writers (k writers : Nat) (n : Notification) :
    (((List.range writers).map Listener.writer).map (Mark.told · n)).flatMap (Mark.tells k) =
      if k < writers then [n] else [] := by
  induction writers with
  | zero => rfl
  | succ writers ih =>
      rw [List.range_succ, List.map_append, List.map_append, List.flatMap_append, ih]
      simp only [List.map_cons, List.map_nil, List.flatMap_cons, List.flatMap_nil, Mark.tells,
        List.append_nil]
      rcases Nat.lt_trichotomy k writers with less | rfl | more
      · simp [less, less.ne', Nat.lt_succ_of_lt less]
      · simp
      · simp [more.ne, Nat.not_lt.mpr more.le, Nat.not_lt.mpr (Nat.succ_le_of_lt more)]

/-- Some plugins, and the writers if they listen. -/
theorem exists_recipients (plugins : List Plugin) (writers : List Nat) (n : Notification) :
    ∃ ps : List Plugin, recipients plugins writers n =
      ps.map .plugin ++ if n.interface.forWriters then writers.map .writer else [] := by
  let implementers := plugins.filter (·.interfaces.contains n.interface)
  cases n with
  | onMeasurementResult _ _ _ | onBenchmarkFailure _ => exact ⟨implementers, rfl⟩
  | beforeHarnessShutdown => exact ⟨implementers.reverse, by rw [List.map_reverse]; rfl⟩
  | afterBenchmarkTearDown _ | beforeBenchmarkTearDown _ | beforeOperationTearDown _ _ _ =>
      exact ⟨implementers.reverse, by rw [List.map_reverse]; exact (List.append_nil _).symm⟩
  | _ => exact ⟨implementers, (List.append_nil _).symm⟩

/-- A writer is told once about what it listens to. -/
theorem tells_told (h : Harness π) (plugins : List Plugin) {writers k : Nat} (known : k < writers)
    (n : Notification) :
    ((h.registering plugins (List.range writers)).told n).flatMap (Mark.tells k) =
      if n.interface.forWriters then [n] else [] := by
  obtain ⟨ps, same⟩ := exists_recipients plugins (List.range writers) n
  rw [Harness.told, of_registering, same, List.map_append, List.flatMap_append, tells_plugins,
    List.nil_append]
  split
  · rw [tells_writers, if_pos known]
  · rfl

theorem tells_attemptMarks (h : Harness π) (plugins : List Plugin) {writers k : Nat}
    (known : k < writers) (attempt : Attempt) :
    ((h.registering plugins (List.range writers)).attemptMarks attempt).flatMap (Mark.tells k) =
      attempt.notifications h.vmStartNanos := by
  have reports (measured : List Measured) :
      ((h.registering plugins (List.range writers)).measuredMarks measured).flatMap (Mark.tells k) =
        measured.flatMap (Measured.reports h.vmStartNanos) := by
    rw [Harness.measuredMarks, List.flatMap_assoc]
    refine congrArg (List.flatMap · measured) (funext fun m => ?_)
    have each : ∀ n ∈ m.reports h.vmStartNanos,
        ((h.registering plugins (List.range writers)).told n).flatMap (Mark.tells k) = [n] := by
      intro n mem
      rw [tells_told h plugins known, if_pos]
      simp only [Measured.reports, List.mem_cons, List.mem_map] at mem
      rcases mem with rfl | rfl | ⟨result, -, rfl⟩ <;> rfl
    rw [List.flatMap_cons]
    show [] ++ ((m.reports h.vmStartNanos).flatMap _).flatMap (Mark.tells k) = _
    rw [List.nil_append, List.flatMap_assoc, List.flatMap_congr each, List.flatMap_singleton']
  have failure (b : String) := tells_told h plugins known (.onBenchmarkFailure b)
  cases attempt with
  | notLoaded d => rfl
  | running d measured =>
      simp [Harness.attemptMarks, Attempt.notifications, Attempt.measured, Attempt.broken, Mark.tells,
        reports]
  | executed d measured threw =>
      cases threw <;>
        simp [Harness.attemptMarks, Attempt.notifications, Attempt.measured, Attempt.broken,
          Attempt.descriptor, Mark.tells, reports, failure, Notification.interface,
          Interface.forWriters]

/-! ## The shutdown -/

/-- The results that the writer at position `k` holds. -/
def World.results (w : World π) (k : Nat) : Option ResultsByBenchmarkName :=
  (w.writers[k]?).map (·.resultsByBenchmarkName)

/-- Some writer refuses to store its results. -/
def Refused (w : World π) : Prop :=
  ∃ k results, w.results k = some results ∧ checkBenchmarkResults results ≠ none

theorem deliver_shutdown_results (env : Env π) (l : Listener) (w : World π) (k : Nat) :
    (deliver env .beforeHarnessShutdown l w).state.results k = w.results k := by
  have unchanged (other : Unconcerned k (deliver env .beforeHarnessShutdown l)) :
      (deliver env .beforeHarnessShutdown l w).state.results k = w.results k := by
    rw [World.results, (other w).1]
    rfl
  cases l with
  | plugin p => exact unchanged (unconcerned_deliver_plugin k env _ p)
  | writer index =>
      by_cases own : index = k
      · subst own
        cases found : w.writers[index]? with
        | some writer =>
            rw [World.results, (deliver_writer_shutdown env found).1, World.results, found]
            rfl
        | none =>
            have same := (replays_deliver_writer env index .beforeHarnessShutdown w).1
            rw [found] at same
            rw [World.results, same, World.results, found]
            rfl
      · exact unchanged (unconcerned_deliver_writer own env _)

/-- A delivery of the shutdown returns, or the process exits because the results are refused. -/
theorem deliver_shutdown_outcome {h : Harness π} (calm : h.env.ListenersReturn) {w : World π}
    (filled : ∀ k results, w.results k = some results → Filled results) (l : Listener) :
    (deliver h.env .beforeHarnessShutdown l w).outcome = .ret () ∨
      (deliver h.env .beforeHarnessShutdown l w).outcome = .stopped (.exit 1) ∧ Refused w := by
  cases l with
  | plugin p =>
      refine .inl ?_
      obtain ⟨u, returned⟩ : ∃ u, (deliver h.env .beforeHarnessShutdown (.plugin p) w).outcome =
          .ret u := by
        refine returns_invoke ?_ w
        cases p with
        | external p => exact returns_external (calm.listener p _)
        | builtinPolicy cls => exact returns_policyHandle h.env _
        | forceGc => exact returns_pure ()
      exact returned
  | writer index =>
      cases found : w.writers[index]? with
      | none =>
          refine .inl ?_
          have same : (w.writers.modify index fun writer => { writer with storeHook := false })[index]? =
              none := by simp [found]
          simp [deliver, invoke_run, handle, writerHandle, storeResults, modifyWriter, getWriter,
            bind_apply, Run.andThen, same]
      | some writer =>
          have held : w.results index = some writer.resultsByBenchmarkName := by
            rw [World.results, found]
            rfl
          rcases (deliver_writer_shutdown h.env found).2 with ⟨message, decision, exits, -⟩ |
              ⟨decision, ⟨content, -, returned, -⟩ | ⟨cause, stored, -⟩⟩
          · refine .inr ⟨exits, index, _, held, fun passed => ?_⟩
            rw [storeDecision_eq_store_iff.mpr ⟨passed, rfl⟩] at decision
            cases decision
          · exact .inl returned
          · -- A writer that passes the check does not fail to store.
            have passed := (storeDecision_eq_store_iff.mp decision).1
            obtain ⟨content, written, -⟩ := store_shows (filled index _ held) passed h.env.jvm true
            rw [written] at stored
            cases stored

theorem ensures_shutdown {h : Harness π} (calm : h.env.ListenersReturn) {w : World π}
    (filled : ∀ k results, w.results k = some results → Filled results) (ls : List Listener) :
    Ensures Event.mark? (forEach ls (deliver h.env .beforeHarnessShutdown))
      (fun reason seen => reason = some (.exit 1) ∧ Refused w ∧
        seen <+: ls.map (.told · .beforeHarnessShutdown))
      (fun _ _ seen => seen = ls.map (.told · .beforeHarnessShutdown)) w := by
  induction ls generalizing w with
  | nil => exact ensures_pure rfl
  | cons l ls ih =>
      have told : (deliver h.env .beforeHarnessShutdown l w).trace.filterMap Event.mark? =
          [.told l .beforeHarnessShutdown] := by
        have handled := (unseen_handle mark_blind h.env l .beforeHarnessShutdown).nothing w
        have marks : (ending (.deliver l .beforeHarnessShutdown)
            (handle h.env l .beforeHarnessShutdown w).outcome).filterMap Event.mark? = [] := by
          cases (handle h.env l .beforeHarnessShutdown w).outcome <;> rfl
        rw [deliver, invoke_run, List.filterMap_cons, List.filterMap_append, handled, marks]
        rfl
      have delivered : Ensures Event.mark? (deliver h.env .beforeHarnessShutdown l)
          (fun reason seen => reason = some (.exit 1) ∧ Refused w ∧
            seen = [.told l .beforeHarnessShutdown])
          (fun _ w' seen => w' = (deliver h.env .beforeHarnessShutdown l w).state ∧
            seen = [.told l .beforeHarnessShutdown]) w := by
        unfold Ensures
        rcases deliver_shutdown_outcome calm filled l with returned | ⟨exits, refused⟩
        · rw [returned]
          exact ⟨rfl, told⟩
        · rw [exits]
          exact ⟨rfl, refused, told⟩
      have same := deliver_shutdown_results h.env l w
      refine ensures_bind_iff.mpr (delivered.mono ?_ ?_)
      · rintro reason seen ⟨rfl, refused, rfl⟩
        exact ⟨rfl, refused, (List.prefix_cons_inj _).mpr List.nil_prefix⟩
      · rintro _ w' seen ⟨rfl, rfl⟩
        refine (ih fun k results held => filled k results (by rw [← same, held])).mono ?_ ?_
        · rintro reason seen ⟨rfl, ⟨k, results, held, refused⟩, begun⟩
          exact ⟨rfl, ⟨k, results, by rw [← same, held], refused⟩, (List.prefix_cons_inj _).mpr begun⟩
        · rintro _ w' seen rfl
          rfl

/-! ## Whole runs -/

/-- What the writers are told about the attempts of a run. -/
def notificationsOf (vmStartNanos : Int) (attempts : List Attempt) : List Notification :=
  attempts.flatMap (Attempt.notifications vmStartNanos)

/-- The operations of a benchmark that passed validation, in the order of their execution. -/
def operationsOf (b : String) (attempts : List Attempt) : List Operation :=
  ((attempts.flatMap Attempt.measured).map (·.operation)).filter (·.benchmark = b)

/-- The results that publishers reported under the name of a metric of a benchmark. -/
def publishedOf (b m : String) (attempts : List Attempt) : List (String × String × Int) :=
  ((attempts.flatMap Attempt.measured).flatMap (·.published)).filter fun result =>
    result.1 = b ∧ result.2.1 = m

/-- The writer holds what the attempts amount to: all results in the order of the reports, and so, unless
publishers use these names, one `uptime_ns` and one `duration_ns` for each operation that passed
validation. -/
structure Holds (vmStartNanos : Int) (attempts : List Attempt) (writer : ResultWriter) : Prop where
  values : ∀ b m, writer.values b m = recorded (notificationsOf vmStartNanos attempts) b m
  uptimes : ∀ b, publishedOf b "uptime_ns" attempts = [] → writer.values b "uptime_ns" =
    (operationsOf b attempts).map fun op => long (op.startNanos - vmStartNanos)
  durations : ∀ b, publishedOf b "duration_ns" attempts = [] → writer.values b "duration_ns" =
    (operationsOf b attempts).map (·.durationNanos)
  failed : ∀ b, b ∈ writer.failedBenchmarkNames ↔
    ∃ attempt ∈ attempts, attempt.broken = true ∧ attempt.descriptor.name = b

/-- Any two metrics, of any two benchmarks, were reported equally often. -/
def EquallyOften (ns : List Notification) : Prop :=
  ∀ b m b' m', recorded ns b m ≠ [] → recorded ns b' m' ≠ [] →
    (recorded ns b m).length = (recorded ns b' m').length

/-- How a run ends, and what is told about the shutdown. -/
inductive SuiteEnding (h : Harness π) (fuel : Nat) (benchmarks : List BenchmarkDescriptor) :
    List Attempt → Outcome Throwable (List BenchmarkDescriptor) → List Mark → Prop
  /-- It returns the benchmarks that failed. -/
  | returned {attempts : List Attempt} : Concluded benchmarks attempts →
      SuiteEnding h fuel benchmarks attempts (.ret (failedOf attempts))
        (h.told .beforeHarnessShutdown)
  /-- A writer finds metrics that were not reported equally often, and the process exits. -/
  | exited {attempts : List Attempt} {begun : List Mark} : Concluded benchmarks attempts →
      ¬ EquallyOften (notificationsOf h.vmStartNanos attempts) →
      begun <+: h.told .beforeHarnessShutdown →
      SuiteEnding h fuel benchmarks attempts (.stopped (.exit 1)) begun
  /-- The policy lets a benchmark execute one operation after the other. -/
  | goingOn {earlier : List Attempt} {descriptor : BenchmarkDescriptor} {measured : List Measured} :
      GoingOn benchmarks fuel earlier descriptor measured →
      SuiteEnding h fuel benchmarks (earlier ++ [.running descriptor measured])
        (.stopped .outOfFuel) []

section Held

variable {vmStartNanos : Int} {attempts : List Attempt}

/-- A result is reported by the operations, and never by a failure. -/
theorem recorded_notificationsOf (b m : String) :
    recorded (notificationsOf vmStartNanos attempts) b m =
      (attempts.flatMap Attempt.measured).flatMap fun measured =>
        recorded (measured.reports vmStartNanos) b m := by
  have each (attempt : Attempt) : recorded (attempt.notifications vmStartNanos) b m =
      attempt.measured.flatMap fun measured => recorded (measured.reports vmStartNanos) b m := by
    have failure : recorded (if attempt.broken then [.onBenchmarkFailure attempt.descriptor.name]
        else []) b m = [] := by
      split <;> rfl
    rw [Attempt.notifications, recorded_append, failure, List.append_nil]
    exact List.flatMap_assoc
  rw [notificationsOf, recorded, List.flatMap_assoc, List.flatMap_assoc]
  exact congrArg (List.flatMap · attempts) (funext each)

/-- The results of an operation: its own and those that publishers reported. -/
theorem recorded_reports (measured : Measured) (b m : String) :
    recorded (measured.reports vmStartNanos) b m =
      (Notification.onMeasurementResult measured.operation.benchmark "uptime_ns"
        (long (measured.operation.startNanos - vmStartNanos))).values b m ++
      ((Notification.onMeasurementResult measured.operation.benchmark "duration_ns"
        measured.operation.durationNanos).values b m ++
      (measured.published.filter fun result => result.1 = b ∧ result.2.1 = m).map (·.2.2)) := by
  rw [recorded, Measured.reports, List.flatMap_cons, List.flatMap_cons, List.flatMap_map]
  refine congrArg (_ ++ ·) (congrArg (_ ++ ·) ?_)
  induction measured.published with
  | nil => rfl
  | cons result published ih =>
      rw [List.flatMap_cons, ih, List.filter_cons]
      by_cases same : result.1 = b ∧ result.2.1 = m <;> simp [Notification.values, same]

theorem flatMap_operations (f : Operation → Int) (all : List Measured) (b : String) :
    (all.flatMap fun measured =>
        if measured.operation.benchmark = b then [f measured.operation] else []) =
      ((all.map (·.operation)).filter (·.benchmark = b)).map f := by
  induction all with
  | nil => rfl
  | cons measured all ih =>
      rw [List.flatMap_cons, ih, List.map_cons, List.filter_cons]
      by_cases same : measured.operation.benchmark = b <;> simp [same]

/-- A metric that no publisher reports has the values that the operations report. -/
theorem recorded_unpublished {b m : String} (unpublished : publishedOf b m attempts = [])
    {f : Operation → Int}
    (own : ∀ op : Operation, (Notification.onMeasurementResult op.benchmark "uptime_ns"
        (long (op.startNanos - vmStartNanos))).values b m ++
      (Notification.onMeasurementResult op.benchmark "duration_ns" op.durationNanos).values b m =
        if op.benchmark = b then [f op] else []) :
    recorded (notificationsOf vmStartNanos attempts) b m = (operationsOf b attempts).map f := by
  rw [recorded_notificationsOf, operationsOf, ← flatMap_operations]
  refine List.flatMap_congr fun measured mem => ?_
  have none : (measured.published.filter fun result => result.1 = b ∧ result.2.1 = m) = [] := by
    rw [publishedOf, List.filter_flatMap, List.flatMap_eq_nil_iff] at unpublished
    exact unpublished measured mem
  rw [recorded_reports, none, List.map_nil, List.append_nil, own]

theorem mem_failures_notificationsOf (b : String) :
    b ∈ failures (notificationsOf vmStartNanos attempts) ↔
      ∃ attempt ∈ attempts, attempt.broken = true ∧ attempt.descriptor.name = b := by
  have each (attempt : Attempt) : b ∈ failures (attempt.notifications vmStartNanos) ↔
      attempt.broken = true ∧ attempt.descriptor.name = b := by
    have results : failures (attempt.measured.flatMap (Measured.reports vmStartNanos)) = [] := by
      refine List.filterMap_eq_nil_iff.mpr fun n mem => ?_
      obtain ⟨measured, -, mem⟩ := List.mem_flatMap.mp mem
      simp only [Measured.reports, List.mem_cons, List.mem_map] at mem
      rcases mem with rfl | rfl | ⟨result, -, rfl⟩ <;> rfl
    rw [Attempt.notifications, failures, List.filterMap_append]
    rw [failures] at results
    rw [results, List.nil_append]
    cases attempt.broken <;> simp [Notification.failure?, eq_comm]
  rw [failures, notificationsOf, List.filterMap_flatMap, List.mem_flatMap]
  exact exists_congr fun attempt => and_congr_right fun _ => each attempt

/-- A writer that was told about the attempts holds what they amount to. -/
theorem holds_collect {kind : WriterKind} {ns : List Notification}
    (values : ∀ b m, recorded ns b m = recorded (notificationsOf vmStartNanos attempts) b m)
    (failed : failures ns = failures (notificationsOf vmStartNanos attempts)) :
    Holds vmStartNanos attempts (collect kind ns) where
  values b m := by rw [values_collect, values]
  uptimes b unpublished := by
    rw [values_collect, values]
    refine recorded_unpublished unpublished fun op => ?_
    by_cases same : op.benchmark = b <;> simp [Notification.values, same]
  durations b unpublished := by
    rw [values_collect, values]
    refine recorded_unpublished unpublished fun op => ?_
    by_cases same : op.benchmark = b <;> simp [Notification.values, same]
  failed b := by rw [failed_collect, failed, mem_failures_notificationsOf]

end Held

section Runs

variable {h : Harness π} {plugins : List Plugin} {w w' : World π} {attempts : List Attempt}
  {shutdown : List Mark}

/-- A writer that started empty has been told about the attempts, and about the shutdown. -/
theorem collect_of_told (fresh : ∀ writer ∈ w.writers, ∃ kind, writer = { kind })
    (about : ∀ mark ∈ shutdown, ∃ l, mark = .told l .beforeHarnessShutdown)
    (told : Told w w'
      ((h.registering plugins (List.range w.writers.length)).told .afterHarnessInit ++
        (attempts.flatMap (h.registering plugins (List.range w.writers.length)).attemptMarks ++
          shutdown))) {k : Nat} {writer : ResultWriter} (found : w'.writers[k]? = some writer) :
    ∃ kind ns, writer = collect kind ns ∧
      (∀ b m, recorded ns b m = recorded (notificationsOf h.vmStartNanos attempts) b m) ∧
      failures ns = failures (notificationsOf h.vmStartNanos attempts) := by
  obtain ⟨ns, state, same⟩ := told k
  rw [found] at state
  obtain ⟨first, here, rfl⟩ := Option.map_eq_some_iff.mp state.symm
  obtain ⟨kind, rfl⟩ := fresh first (List.mem_of_getElem? here)
  have known : k < w.writers.length := (List.getElem?_eq_some_iff.mp here).1
  have init := tells_told h plugins known .afterHarnessInit
  have each := funext (tells_attemptMarks h plugins known)
  rw [List.flatMap_append, List.flatMap_append, init, List.flatMap_assoc, each] at same
  have rest : ∀ n ∈ shutdown.flatMap (Mark.tells k), n = .beforeHarnessShutdown := by
    intro n mem
    obtain ⟨mark, inside, tells⟩ := List.mem_flatMap.mp mem
    obtain ⟨l, rfl⟩ := about mark inside
    cases l with
    | plugin p => cases tells
    | writer index =>
        simp only [Mark.tells] at tells
        split at tells
        · exact List.mem_singleton.mp tells
        · cases tells
  refine ⟨kind, ns, rfl, fun b m => ?_, ?_⟩
  · have nothing : recorded (shutdown.flatMap (Mark.tells k)) b m = [] :=
      List.flatMap_eq_nil_iff.mpr fun n mem => by rw [rest n mem]; rfl
    rw [← recorded_accounted, same, recorded_append, recorded_append, nothing, List.append_nil]
    rfl
  · have nothing : failures (shutdown.flatMap (Mark.tells k)) = [] :=
      List.filterMap_eq_nil_iff.mpr fun n mem => by rw [rest n mem]; rfl
    rw [← failures_accounted, same, failures, List.filterMap_append, List.filterMap_append]
    rw [failures] at nothing
    rw [nothing, List.append_nil]
    rfl

/-- The account of the run from its marks: the start, the attempts and the end. -/
def AccountedBy (h : Harness π) (fuel : Nat) (benchmarks : List BenchmarkDescriptor)
    (outcome : Outcome Throwable (List BenchmarkDescriptor)) (seen : List Mark) : Prop :=
  ∃ attempts shutdown, SuiteEnding h fuel benchmarks attempts outcome shutdown ∧
    seen = h.told .afterHarnessInit ++ (attempts.flatMap h.attemptMarks ++ shutdown)

theorem ensures_runBenchmarks (plugins : List Plugin) (calm : h.env.ListenersReturn)
    (fresh : ∀ writer ∈ w.writers, ∃ kind, writer = { kind }) (fuel : Nat)
    (benchmarks : List BenchmarkDescriptor) :
    let suite := h.registering plugins (List.range w.writers.length)
    Ensures Event.mark? (suite.runBenchmarks fuel benchmarks)
      (fun reason seen => ∃ stop, reason = some stop ∧
        AccountedBy suite fuel benchmarks (.stopped stop) seen)
      (fun failed _ seen => AccountedBy suite fuel benchmarks (.ret failed) seen) w := by
  intro suite
  have calm : suite.env.ListenersReturn := calm
  have started : Ensures Event.mark? suite.notifyAfterHarnessInit (fun _ _ => False)
      (fun _ _ seen => seen = suite.told .afterHarnessInit) w :=
    ensures_notify calm rfl (by simp) fun _ => rfl
  refine ensures_bind_iff.mpr ((started.and_always (told_of_replays
    (fun k => (replays_runSteps suite k).notifyEvent rfl) w)).mono (fun _ _ never => never.elim) ?_)
  rintro _ w1 seen ⟨rfl, told⟩
  refine ensures_bind_iff.mpr (((ensures_runEach calm fuel [] benchmarks w1).and_always
    (told_of_replays (fun k => ((replays_runSteps suite k).suite
      (replays_executeOperation suite k)).runEach fuel [] benchmarks) w1)).mono ?_ ?_)
  · rintro reason seen ⟨rfl, earlier, d, measured, goingOn, rfl⟩
    exact ⟨_, rfl, _, [], .goingOn goingOn, by rw [List.append_nil]⟩
  · rintro failed w2 seen ⟨⟨attempts, concluded, rfl, rfl⟩, told'⟩
    -- what the writers hold was collected from the attempts
    have known := told.trans told'
    rw [← List.append_nil (attempts.flatMap _)] at known
    have held : ∀ k results, w2.results k = some results → ∃ kind ns,
        results = (collect kind ns).resultsByBenchmarkName ∧
        ∀ b m, recorded ns b m = recorded (notificationsOf h.vmStartNanos attempts) b m := by
      intro k results same
      obtain ⟨writer, found, rfl⟩ := Option.map_eq_some_iff.mp same
      obtain ⟨kind, ns, rfl, values, -⟩ := collect_of_told fresh (by simp) known found
      exact ⟨kind, ns, rfl, values⟩
    have filled : ∀ k results, w2.results k = some results → Filled results := by
      intro k results same
      obtain ⟨kind, ns, rfl, -⟩ := held k results same
      exact filled_collect
    refine ensures_bind_iff.mpr (ensures_invoke ((ensures_shutdown calm filled _).mono ?_ ?_))
    · rintro reason begun ⟨rfl, ⟨k, results, same, refused⟩, start⟩
      refine ⟨_, rfl, attempts, begun, .exited concluded (fun equally => refused ?_) start, ?_⟩
      · obtain ⟨kind, ns, rfl, values⟩ := held k results same
        refine (checkBenchmarkResults_collect kind ns).mpr fun b m b' m' reported reported' => ?_
        rw [values] at reported reported' ⊢
        rw [values]
        exact equally b m b' m' reported reported'
      · simp [Event.mark?]
    · rintro _ w3 seen rfl
      refine ensures_pure ⟨attempts, _, .returned concluded, ?_⟩
      simp [Event.mark?, Harness.told, Notification.interface]

theorem SuiteEnding.about {fuel : Nat} {benchmarks : List BenchmarkDescriptor}
    {outcome : Outcome Throwable (List BenchmarkDescriptor)}
    (ending : SuiteEnding h fuel benchmarks attempts outcome shutdown) :
    ∀ mark ∈ shutdown, ∃ l, mark = .told l .beforeHarnessShutdown := by
  have all : ∀ mark ∈ h.told .beforeHarnessShutdown,
      ∃ l, mark = .told l .beforeHarnessShutdown := by
    intro mark mem
    obtain ⟨l, -, rfl⟩ := List.mem_map.mp mem
    exact ⟨l, rfl⟩
  cases ending with
  | returned _ => exact all
  | exited _ _ begun => exact fun mark mem => all mark (begun.subset mem)
  | goingOn _ => simp

/-- One list of attempts gives all that a run does: its attempts in order, what the listeners were told
about them, the benchmarks it returns, and what every writer holds. -/
theorem runBenchmarks_accounted (h : Harness π) (plugins : List Plugin)
    (calm : h.env.ListenersReturn) (fuel : Nat) (benchmarks : List BenchmarkDescriptor)
    (w : World π) (fresh : ∀ writer ∈ w.writers, ∃ kind, writer = { kind }) :
    let suite := h.registering plugins (List.range w.writers.length)
    let run := suite.runBenchmarks fuel benchmarks w
    ∃ attempts shutdown, SuiteEnding suite fuel benchmarks attempts run.outcome shutdown ∧
      run.trace.filterMap Event.mark? = suite.told .afterHarnessInit ++
        (attempts.flatMap suite.attemptMarks ++ shutdown) ∧
      ∀ k < w.writers.length, ∃ writer, run.state.writers[k]? = some writer ∧
        Holds h.vmStartNanos attempts writer := by
  intro suite run
  have account : AccountedBy suite fuel benchmarks run.outcome
      (run.trace.filterMap Event.mark?) := by
    have ensured : Ensures _ _ _ _ w := ensures_runBenchmarks plugins calm fresh fuel benchmarks
    unfold Ensures at ensured
    cases ended : run.outcome with
    | ret failed =>
        rw [show (suite.runBenchmarks fuel benchmarks w).outcome = _ from ended] at ensured
        exact ensured
    | thrown cause =>
        rw [show (suite.runBenchmarks fuel benchmarks w).outcome = _ from ended] at ensured
        obtain ⟨stop, none, -⟩ := ensured
        cases none
    | stopped reason =>
        rw [show (suite.runBenchmarks fuel benchmarks w).outcome = _ from ended] at ensured
        obtain ⟨stop, same, account⟩ := ensured
        rw [Option.some.inj same]
        exact account
  obtain ⟨attempts, shutdown, ending, marks⟩ := account
  refine ⟨attempts, shutdown, ending, marks, fun k known => ?_⟩
  have told := told_of_replays (fun k => replays_runBenchmarks suite k fuel benchmarks) w
  rw [marks] at told
  obtain ⟨ns, state, -⟩ := told k
  rw [List.getElem?_eq_getElem known, Option.map_some] at state
  obtain ⟨kind, ns', same, values, failed⟩ := collect_of_told fresh ending.about told state
  exact ⟨_, state, same ▸ holds_collect values failed⟩

end Runs

/-- A benchmark that cannot be set up, and one that fails after its operation. -/
theorem runBenchmarks_accounted_failing :
    let suite := failingHarness.registering [.builtinPolicy .fixedOpCount] (List.range 1)
    let run := suite.runBenchmarks 3 [⟨"early", 1⟩, ⟨"late", 1⟩] (countingWorld .json fun _ => 1)
    ∃ attempts shutdown,
      SuiteEnding suite 3 [⟨"early", 1⟩, ⟨"late", 1⟩] attempts run.outcome shutdown ∧
      run.trace.filterMap Event.mark? = suite.told .afterHarnessInit ++
        (attempts.flatMap suite.attemptMarks ++ shutdown) ∧
      ∀ k < 1, ∃ writer, run.state.writers[k]? = some writer ∧ Holds 0 attempts writer := by
  have accounted := runBenchmarks_accounted failingHarness [.builtinPolicy .fixedOpCount]
    ⟨fun _ _ _ => rfl, fun _ _ _ _ => rfl⟩ 3 [⟨"early", 1⟩, ⟨"late", 1⟩]
    (countingWorld .json fun _ => 1) (by simp [countingWorld])
  rw [show (countingWorld .json fun _ => 1).writers.length = 1 from rfl] at accounted
  exact accounted

/-! ## Runs that the claims of their parts leave out -/

def uptimePublisher : ExternalPlugin := ⟨⟨["plugin.jar"], none⟩, "Publisher", [.measurementResultPublisher]⟩

/-- One operation of one benchmark, with a publisher that reports an uptime of its own. -/
def publishingRun : Run (World Unit) Event Throwable (List BenchmarkDescriptor) :=
  let h : Harness Unit :=
    { countingHarness with
      env := { Env.calm 0 with
        publisher := fun _ b _ s =>
          (.publish b "uptime_ns" 7 fun _ => .finish (.ok ()), s) } }
  (h.registering [.builtinPolicy .fixedOpCount, .external uptimePublisher] [0]).runBenchmarks 3
    [⟨"b", 1⟩] (countingWorld .csv fun _ => 1)

/-- With a policy that never declines the first benchmark is executed without end. -/
theorem endless_runBenchmarks (fuel : Nat) (repetitions : Int)
    (benchmarks : List BenchmarkDescriptor) (w : World Unit) :
    (endlessHarness.runBenchmarks fuel (⟨"b", repetitions⟩ :: benchmarks) w).outcome =
      .stopped .outOfFuel := by
  have executed (w : World Unit) : (invoke (.executeBenchmark "b")
      (endlessHarness.executeBenchmark fuel "b") w).outcome = .stopped .outOfFuel := by
    rw [invoke_run]
    exact endless_executeBenchmark fuel w
  have attempted (w : World Unit) :
      (endlessHarness.runBenchmark fuel [] ⟨"b", repetitions⟩ w).outcome = .stopped .outOfFuel := by
    refine bind_stopped (attempt_stopped ?_) _
    rw [bind_apply, andThen_ret (a := ()) rfl]
    exact bind_stopped (attempt_stopped (executed _)) _
  rw [Harness.runBenchmarks, bind_apply, andThen_ret (a := ()) rfl]
  exact bind_stopped (bind_stopped (attempted _) _) _

set_option maxRecDepth 2000 in
/-- A publisher may use the name of a metric of the harness, the process exits when benchmarks executed
different numbers of operations, and a policy need not come to an end. -/
theorem runBenchmarks_unaccounted :
    (validated publishingRun.trace = ["b"] ∧
      (publishingRun.state.writers[0]?).map (·.values "b" "uptime_ns") = some [0, 7]) ∧
    (countingRun fun b => if b = "a" then 1 else 2).outcome = .stopped (.exit 1) ∧
    ∀ fuel, (endlessHarness.runBenchmarks fuel [⟨"b", 1⟩, ⟨"c", 1⟩]
      (countingWorld .csv fun _ => 1)).outcome = .stopped .outOfFuel :=
  ⟨⟨rfl, rfl⟩, rfl, fun fuel => endless_runBenchmarks fuel 1 _ _⟩

end Renaissance
