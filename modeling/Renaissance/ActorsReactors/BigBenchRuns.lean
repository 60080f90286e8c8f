import Mathlib.Algebra.Order.BigOperators.Group.Finset
import Mathlib.Algebra.BigOperators.Group.Multiset.Basic
import Renaissance.ActorsReactors.BigBench

/-!
# The runs of BigBench

A worker that has not sent `"done"` yet has exactly one thing outstanding: the `Start()` that is not
sent, or one message in flight that brings its next turn. `Balanced` states this together with what
the counters of the worker say, and `Invariant` adds what the sink has counted. When the sink has seen
all workers, nobody has a turn left, so nothing but `End()` is in flight from then on.
-/

namespace Renaissance.BigBench

open JavaInt Transition

variable {N : ℕ} {sz : Int} {s s' : State N} {m out : Message N} {rest : Multiset (Message N)}

/-- The worker that goes on when the message, or the answer to it, is delivered. -/
def Message.turn : Message N → Option (Fin N)
  | .start i | .ping _ i | .pong i => some i
  | .finish _ | .done => none

/-- The worker whose ping is on its way, there or back. -/
def Message.round : Message N → Option (Fin N)
  | .ping _ i | .pong i => some i
  | .start _ | .finish _ | .done => none

theorem Message.turn_of_round {i : Fin N} (round : m.round = some i) : m.turn = some i := by
  cases m <;> first | exact round | cases round

/-- What the counters of a worker say if `unsent` of its `Start()`, `turns` messages with its turn and
`rounds` of its pings are outstanding. -/
structure Balanced (sz : Int) (unsent turns rounds : ℕ) (w : Worker) : Prop where
  token : unsent + turns + w.dones = 1
  pings : w.pings = w.pongs + rounds
  left : w.left = sz - w.pongs
  working : w.dones = 0 → 0 < w.left
  finished : w.dones = 1 → w.left = 0

/-- `1` for a worker that the loop of `run` has not reached. -/
def unsent (started : ℕ) (i : Fin N) : ℕ :=
  if i < started then 0 else 1

structure Invariant (sz : Int) (s : State N) : Prop where
  balanced : ∀ i, Balanced sz (unsent s.started i) (s.inFlight.countP fun m => m.turn = some i)
    (s.inFlight.countP fun m => m.round = some i) (s.worker i)
  sink : s.sinkLeft + (∑ i, (s.worker i).dones : ℕ) = N + s.inFlight.count .done
  sinkLeft : 0 ≤ s.sinkLeft ∧ s.sinkLeft ≤ N
  running : s.sinkLeft ≠ 0 → s.promise = [] ∧ s.sinkSealed = false ∧
    ∀ i, (s.worker i).mainSealed = false ∧ (s.worker i).responsesSealed = false ∧
      .finish i ∉ s.inFlight
  ended : s.sinkLeft = 0 → s.promise = [0] ∧
    ∀ i, s.inFlight.count (.finish i) + (s.worker i).mainSealed.toNat = 1
  dropped : s.dropped = 0

theorem Invariant.start (workers : 1 ≤ N) (positive : 1 ≤ sz) : Invariant sz (start N sz) where
  balanced i := ⟨by simp [BigBench.start, unsent], rfl, by simp [BigBench.start], fun _ => positive,
    fun finished => nomatch finished⟩
  sink := by simp [BigBench.start]
  sinkLeft := ⟨Int.natCast_nonneg N, le_rfl⟩
  running _ := ⟨rfl, rfl, fun _ => ⟨rfl, rfl, Multiset.notMem_zero _⟩⟩
  ended none := by
    have : (N : ℤ) = 0 := none
    omega
  dropped := rfl

/-- A worker uses its turn: the message in flight is replaced by another one of the same worker, or by
`"done"`. -/
theorem Invariant.exchange (inv : Invariant sz s) (got : s.inFlight = m ::ₘ rest) {i : Fin N}
    {w : Worker} (out : Message N) (turn : m.turn = some i) (next : out.turn = some i ∨ out = .done)
    (seals : w.mainSealed = (s.worker i).mainSealed ∧
      w.responsesSealed = (s.worker i).responsesSealed)
    (dones : w.dones = (s.worker i).dones + if out = .done then 1 else 0)
    (balanced : ∀ unsent turns rounds,
      Balanced sz unsent (turns + 1) (rounds + if m.round = some i then 1 else 0) (s.worker i) →
      Balanced sz unsent (turns + if out.turn = some i then 1 else 0)
        (rounds + if out.round = some i then 1 else 0) w) :
    Invariant sz { s with worker := Function.update s.worker i w, inFlight := out ::ₘ rest } := by
  have others : ∀ k, k ≠ i → m.turn ≠ some k ∧ out.turn ≠ some k := by
    intro k other
    refine ⟨fun h => ?_, fun h => ?_⟩
    · rw [turn, Option.some.injEq] at h
      exact other h.symm
    · rcases next with hers | rfl
      · rw [hers, Option.some.injEq] at h
        exact other h.symm
      · cases h
  have notDone : m ≠ .done := by
    rintro rfl
    cases turn
  have notFinish : ∀ k, m ≠ .finish k ∧ out ≠ .finish k := by
    intro k
    constructor
    · rintro rfl
      cases turn
    · rintro rfl
      rcases next with h | h <;> cases h
  -- the other workers, and the ends, do not count the two messages
  refine ⟨fun k => ?_, ?_, inv.sinkLeft, fun running => ?_, fun ended => ?_, inv.dropped⟩
  · have before := inv.balanced k
    rw [got] at before
    by_cases same : k = i
    · subst same
      simp only [Multiset.countP_cons, turn, if_true] at before
      simp only [Multiset.countP_cons, Function.update_self]
      exact balanced _ _ _ before
    · obtain ⟨mOther, outOther⟩ := others k same
      simp only [Multiset.countP_cons, mOther, if_false,
        mt Message.turn_of_round mOther] at before
      simp only [Multiset.countP_cons, outOther, if_false, mt Message.turn_of_round outOther,
        Function.update_of_ne same]
      exact before
  · have before := inv.sink
    have more := sum_update_add Worker.dones s.worker i w
    rw [got, Multiset.count_cons_of_ne notDone.symm] at before
    rw [dones] at more
    rw [Multiset.count_cons]
    have done : (if Message.done = out then 1 else 0) = if out = .done then 1 else 0 := by
      simp only [eq_comm]
    dsimp only
    omega
  · obtain ⟨promise, sinkOpen, each⟩ := inv.running running
    refine ⟨promise, sinkOpen, fun k => ?_⟩
    obtain ⟨main, responses, notEnded⟩ := each k
    rw [got, Multiset.mem_cons, not_or] at notEnded
    have ended : Message.finish k ∉ out ::ₘ rest := by
      rw [Multiset.mem_cons, not_or]
      exact ⟨(notFinish k).2.symm, notEnded.2⟩
    by_cases same : k = i
    · subst same
      dsimp only
      rw [Function.update_self, seals.1, seals.2]
      exact ⟨main, responses, ended⟩
    · dsimp only
      rw [Function.update_of_ne same]
      exact ⟨main, responses, ended⟩
  · obtain ⟨promise, each⟩ := inv.ended ended
    refine ⟨promise, fun k => ?_⟩
    have before := each k
    rw [got, Multiset.count_cons_of_ne (notFinish k).1.symm] at before
    rw [Multiset.count_cons_of_ne (notFinish k).2.symm]
    by_cases same : k = i
    · subst same
      dsimp only
      rwa [Function.update_self, seals.1]
    · dsimp only
      rwa [Function.update_of_ne same]

theorem Invariant.ping (inv : Invariant sz s) {i ch : Fin N}
    (got : s.inFlight = .ping i ch ::ₘ rest) (target : Fin N) :
    Invariant sz ({ s with inFlight := rest }.receive target (.ping i ch)) := by
  have kept := inv.exchange got (w := s.worker ch) (.pong ch) rfl (.inl rfl) ⟨rfl, rfl⟩ rfl
    fun _ _ _ balanced => by
      rw [if_pos (show (Message.pong ch).turn = some ch from rfl)]
      exact balanced
  rw [Function.update_eq_self] at kept
  exact kept

theorem Invariant.starts (inv : Invariant sz s) {i : Fin N} (got : s.inFlight = .start i ::ₘ rest)
    (target : Fin N) : Invariant sz ({ s with inFlight := rest }.receive target (.start i)) := by
  refine inv.exchange got (i := i) (.ping target i) rfl (.inl rfl) ⟨rfl, rfl⟩ rfl ?_
  intro unsent turns rounds balanced
  simp only [Message.round, Message.turn, if_true, reduceCtorEq, if_false] at balanced ⊢
  exact { balanced with pings := by have := balanced.pings; dsimp only; omega }

/-- A worker that gets a pong has rounds left, and counting it does not overflow. -/
theorem Invariant.left_pred (inv : Invariant sz s) (fits : sz ≤ 2147483647) {i : Fin N}
    (got : s.inFlight = .pong i ::ₘ rest) :
    0 < (s.worker i).left ∧ int ((s.worker i).left - 1) = (s.worker i).left - 1 := by
  have mine := inv.balanced i
  have working : 0 < (s.worker i).left := by
    refine mine.working ?_
    have token := mine.token
    have turn : (Message.pong i).turn = some i := rfl
    rw [got] at token
    simp only [Multiset.countP_cons, turn, if_true] at token
    omega
  have := mine.left
  exact ⟨working, int_eq_self (by omega) (by omega)⟩

theorem Invariant.pong (inv : Invariant sz s) (fits : sz ≤ 2147483647) {i : Fin N}
    (got : s.inFlight = .pong i ::ₘ rest) (target : Fin N) :
    Invariant sz ({ s with inFlight := rest }.receive target (.pong i)) := by
  obtain ⟨working, wrapped⟩ := inv.left_pred fits got
  unfold State.receive State.onPong
  dsimp only
  rw [wrapped]
  split
  next more =>
    simp only [State.doPing, State.send, Function.update_self, Function.update_idem]
    refine inv.exchange got _ rfl (.inl rfl) ⟨rfl, rfl⟩ rfl ?_
    intro unsent turns rounds balanced
    simp only [Message.round, Message.turn, if_true] at balanced ⊢
    obtain ⟨token, pings, left, -, -⟩ := balanced
    exact ⟨token, by dsimp only; omega, by dsimp only; push_cast; omega, fun _ => more,
      fun _ => by dsimp only at *; omega⟩
  next last =>
    simp only [State.send, Function.update_self, Function.update_idem]
    refine inv.exchange got _ rfl (.inr rfl) ⟨rfl, rfl⟩ (by simp) ?_
    intro unsent turns rounds balanced
    simp only [Message.round, Message.turn, if_true, reduceCtorEq, if_false] at balanced ⊢
    obtain ⟨token, pings, left, -, -⟩ := balanced
    exact ⟨by dsimp only; omega, by dsimp only; omega, by dsimp only; push_cast; omega,
      fun _ => by dsimp only at *; omega, fun _ => by dsimp only; omega⟩

theorem Balanced.dones_le {unsent turns rounds : ℕ} {w : Worker}
    (balanced : Balanced sz unsent turns rounds w) : w.dones ≤ 1 := by
  have := balanced.token
  omega

/-- As soon as no `"done"` is missing that is not in flight, nobody has a turn left. -/
theorem Invariant.settled (inv : Invariant sz s) (settled : s.sinkLeft ≤ s.inFlight.count .done) :
    (∀ i, (s.worker i).dones = 1) ∧ (∀ m ∈ s.inFlight, m.turn = none) ∧
      s.inFlight.count .done = s.sinkLeft := by
  have sink := inv.sink
  have each : ∀ i, (s.worker i).dones ≤ 1 := fun i => (inv.balanced i).dones_le
  have atMost : ∑ i, (s.worker i).dones ≤ N := by
    have := Finset.sum_le_card_nsmul Finset.univ (fun i => (s.worker i).dones) 1 fun i _ => each i
    simpa using this
  have all : ∀ i, (s.worker i).dones = 1 := by
    intro i
    by_contra missing
    have fewer : ∑ i, (s.worker i).dones < ∑ _i : Fin N, 1 :=
      Finset.sum_lt_sum (fun i _ => each i)
        ⟨i, Finset.mem_univ i, by have := each i; omega⟩
    rw [Finset.sum_const, Finset.card_univ, Fintype.card_fin, smul_eq_mul, mul_one] at fewer
    omega
  refine ⟨all, fun m flying => ?_, by omega⟩
  by_contra turn
  obtain ⟨i, turn⟩ := Option.ne_none_iff_exists'.mp turn
  have token := (inv.balanced i).token
  rw [all i] at token
  have positive : 0 < s.inFlight.countP fun m => m.turn = some i :=
    Multiset.countP_pos.mpr ⟨m, flying, turn⟩
  omega

/-- Once the sink has seen all workers, only `End()` is in flight. -/
theorem Invariant.quiet (inv : Invariant sz s) (ended : s.sinkLeft = 0) :
    ∀ m ∈ s.inFlight, ∃ i, m = .finish i := by
  obtain ⟨-, turns, done⟩ := inv.settled (by omega)
  intro m flying
  have turn := turns m flying
  cases m with
  | finish i => exact ⟨i, rfl⟩
  | done =>
      have := Multiset.count_pos.mpr flying
      omega
  | ping | start | pong => cases turn

/-- No message goes to a channel that was sealed. -/
theorem Invariant.not_sealed (inv : Invariant sz s) (flying : m ∈ s.inFlight) :
    s.isSealed m = false := by
  by_cases ended : s.sinkLeft = 0
  · obtain ⟨i, rfl⟩ := inv.quiet ended m flying
    have one := (inv.ended ended).2 i
    have := Multiset.count_pos.mpr flying
    have none : (s.worker i).mainSealed.toNat = 0 := by omega
    exact Bool.toNat_eq_zero.mp none
  · obtain ⟨-, sink, each⟩ := inv.running ended
    cases m with
    | ping i _ | start i | finish i => exact (each i).1
    | pong i => exact (each i).2.1
    | done => exact sink

/-- Messages without a turn may be in flight or not. -/
theorem Balanced.add_turnless {unsent : ℕ} {w : Worker} {i : Fin N} {more : Multiset (Message N)}
    (turnless : ∀ m ∈ more, m.turn = none) :
    Balanced sz unsent ((more + rest).countP fun m => m.turn = some i)
      ((more + rest).countP fun m => m.round = some i) w ↔
    Balanced sz unsent (rest.countP fun m => m.turn = some i)
      (rest.countP fun m => m.round = some i) w := by
  have turns : (more.countP fun m => m.turn = some i) = 0 := by
    refine Multiset.countP_eq_zero.mpr fun m mem turn => ?_
    rw [turnless m mem] at turn
    cases turn
  have rounds : (more.countP fun m => m.round = some i) = 0 := by
    refine Multiset.countP_eq_zero.mpr fun m mem round => ?_
    have := Message.turn_of_round round
    rw [turnless m mem] at this
    cases this
  rw [Multiset.countP_add, Multiset.countP_add, turns, rounds, zero_add, zero_add]

theorem Balanced.cons_turnless {unsent : ℕ} {w : Worker} {i : Fin N} (turnless : m.turn = none) :
    Balanced sz unsent ((m ::ₘ rest).countP fun m => m.turn = some i)
      ((m ::ₘ rest).countP fun m => m.round = some i) w ↔
    Balanced sz unsent (rest.countP fun m => m.turn = some i)
      (rest.countP fun m => m.round = some i) w := by
  rw [← Multiset.singleton_add]
  refine add_turnless fun m mem => ?_
  rwa [Multiset.mem_singleton.mp mem]

theorem Invariant.finish (inv : Invariant sz s) {i : Fin N} (got : s.inFlight = .finish i ::ₘ rest)
    (target : Fin N) : Invariant sz ({ s with inFlight := rest }.receive target (.finish i)) := by
  have flying : .finish i ∈ s.inFlight := by
    rw [got]
    exact Multiset.mem_cons_self _ _
  have ended : s.sinkLeft = 0 := by
    by_contra running
    exact ((inv.running running).2.2 i).2.2 flying
  have opened := inv.not_sealed flying
  unfold State.receive
  dsimp only
  refine ⟨fun k => ?_, ?_, inv.sinkLeft, fun running => absurd ended running, fun _ => ?_,
    inv.dropped⟩
  · have before := inv.balanced k
    rw [got, Balanced.cons_turnless rfl] at before
    by_cases same : k = i
    · subst same
      dsimp only
      rw [Function.update_self]
      exact { before with }
    · dsimp only
      rwa [Function.update_of_ne same]
  · have before := inv.sink
    have same := sum_update_add Worker.dones s.worker i
      { s.worker i with mainSealed := true, responsesSealed := true }
    rw [got, Multiset.count_cons_of_ne (by nofun)] at before
    dsimp only at same ⊢
    omega
  · obtain ⟨promise, each⟩ := inv.ended ended
    refine ⟨promise, fun k => ?_⟩
    have before := each k
    rw [got] at before
    by_cases same : k = i
    · subst same
      have closed : (s.worker k).mainSealed = false := opened
      rw [Multiset.count_cons_self, closed] at before
      dsimp only
      rw [Function.update_self]
      simpa using before
    · rw [Multiset.count_cons_of_ne (by simpa using same)] at before
      dsimp only
      rwa [Function.update_of_ne same]

/-- One `End()` for every worker. -/
theorem count_ends (i : Fin N) :
    ((List.finRange N).map Message.finish : Multiset (Message N)).count (.finish i) = 1 := by
  rw [Multiset.coe_count]
  refine List.count_eq_one_of_mem ?_ (List.mem_map_of_mem (List.mem_finRange i))
  exact (List.nodup_finRange N).map fun _ _ same => Message.finish.inj same

/-- The sink gets `"done"` only while it waits for one. -/
theorem Invariant.sinkLeft_pred (inv : Invariant sz s) (workers : N ≤ 2147483647)
    (got : s.inFlight = .done ::ₘ rest) :
    s.sinkLeft ≠ 0 ∧ int (s.sinkLeft - 1) = s.sinkLeft - 1 := by
  have running : s.sinkLeft ≠ 0 := by
    intro ended
    obtain ⟨i, h⟩ := inv.quiet ended .done (by rw [got]; exact Multiset.mem_cons_self _ _)
    cases h
  obtain ⟨low, high⟩ := inv.sinkLeft
  exact ⟨running, int_eq_self (by omega) (by omega)⟩

theorem Invariant.done (inv : Invariant sz s) (workers : N ≤ 2147483647)
    (got : s.inFlight = .done ::ₘ rest) (target : Fin N) :
    Invariant sz ({ s with inFlight := rest }.receive target .done) := by
  obtain ⟨running, wrapped⟩ := inv.sinkLeft_pred workers got
  obtain ⟨low, high⟩ := inv.sinkLeft
  have balanced : ∀ i, Balanced sz (unsent s.started i) (rest.countP fun m => m.turn = some i)
      (rest.countP fun m => m.round = some i) (s.worker i) := by
    intro i
    have before := inv.balanced i
    rwa [got, Balanced.cons_turnless rfl] at before
  have sink := inv.sink
  rw [got, Multiset.count_cons_self] at sink
  obtain ⟨promise, sinkOpen, each⟩ := inv.running running
  have noEnds : ∀ i, Message.finish i ∉ rest := by
    intro i ended
    refine (each i).2.2 ?_
    rw [got]
    exact Multiset.mem_cons_of_mem ended
  simp only [State.receive, State.onDone, wrapped]
  split
  next last =>
    have turnless : ∀ m ∈ ((List.finRange N).map Message.finish : Multiset (Message N)),
        m.turn = none := by
      intro m ended
      obtain ⟨i, -, rfl⟩ := List.mem_map.mp (Multiset.mem_coe.mp ended)
      rfl
    have noDone : Message.done ∉ ((List.finRange N).map Message.finish : Multiset (Message N)) := by
      simp
    refine ⟨fun i => ?_, ?_, by dsimp only; omega, fun running => absurd last running,
      fun _ => ⟨?_, fun i => ?_⟩, inv.dropped⟩
    · dsimp only
      exact (Balanced.add_turnless turnless).mpr (balanced i)
    · dsimp only
      rw [Multiset.count_add, Multiset.count_eq_zero_of_notMem noDone]
      push_cast at sink ⊢
      omega
    · dsimp only
      rw [promise, last]
      rfl
    · rw [Multiset.count_add, count_ends, Multiset.count_eq_zero_of_notMem (noEnds i), (each i).1]
      rfl
  next more =>
    refine ⟨balanced, by dsimp only; push_cast at sink ⊢; omega, by dsimp only; omega,
      fun _ => ⟨promise, sinkOpen, fun i => ⟨(each i).1, (each i).2.1, noEnds i⟩⟩,
      fun ended => absurd ended more, inv.dropped⟩

theorem unsent_succ {started : ℕ} {i : Fin N} (other : i.val ≠ started) :
    unsent (started + 1) i = unsent started i := by
  unfold unsent
  split <;> split <;> omega

theorem Invariant.startNext (inv : Invariant sz s) (sent : s.startNext = some s') :
    Invariant sz s' := by
  unfold State.startNext at sent
  split at sent
  next more =>
    cases sent
    refine ⟨fun i => ?_, ?_, inv.sinkLeft, fun running => ?_, fun ended => ?_, inv.dropped⟩
    · have before := inv.balanced i
      simp only [State.send, Multiset.countP_cons]
      by_cases mine : i.val = s.started
      · -- the worker gets its turn
        have turn : (Message.start (⟨s.started, more⟩ : Fin N)).turn = some i := by
          rw [Message.turn, Option.some.injEq]
          exact Fin.ext mine.symm
        have here : unsent (s.started + 1) i = 0 := if_pos (by omega)
        have there : unsent s.started i = 1 := if_neg (by omega)
        rw [there] at before
        rw [here, if_pos turn]
        exact { before with token := by have := before.token; omega }
      · have turn : (Message.start (⟨s.started, more⟩ : Fin N)).turn ≠ some i := by
          intro turn
          rw [Message.turn, Option.some.injEq] at turn
          exact mine (congrArg Fin.val turn).symm
        rw [unsent_succ mine, if_neg turn]
        exact before
    · rw [State.send, Multiset.count_cons_of_ne (by nofun)]
      exact inv.sink
    · obtain ⟨promise, sinkOpen, each⟩ := inv.running running
      refine ⟨promise, sinkOpen, fun i => ⟨(each i).1, (each i).2.1, ?_⟩⟩
      rw [State.send, Multiset.mem_cons, not_or]
      exact ⟨by nofun, (each i).2.2⟩
    · obtain ⟨promise, each⟩ := inv.ended ended
      refine ⟨promise, fun i => ?_⟩
      rw [State.send, Multiset.count_cons_of_ne (by nofun)]
      exact each i
  next => cases sent

/-- A delivered message was in flight and is handled. -/
theorem Invariant.deliver_cases (inv : Invariant sz s) {target : Fin N}
    (delivered : s.deliver m target = some s') :
    ∃ rest, s.inFlight = m ::ₘ rest ∧ s' = { s with inFlight := rest }.receive target m := by
  unfold State.deliver at delivered
  split at delivered
  next flying =>
    rw [inv.not_sealed flying] at delivered
    cases delivered
    exact ⟨s.inFlight.erase m, (Multiset.cons_erase flying).symm, rfl⟩
  next => cases delivered

theorem Invariant.keeps (fits : sz ≤ 2147483647) (workers : N ≤ 2147483647) {a : Action N}
    (inv : Invariant sz s) (moves : step a s = some s') : Invariant sz s' := by
  cases a with
  | start => exact inv.startNext moves
  | deliver m target =>
      obtain ⟨rest, got, rfl⟩ := inv.deliver_cases moves
      cases m with
      | ping i ch => exact inv.ping got target
      | start i => exact inv.starts got target
      | finish i => exact inv.finish got target
      | pong i => exact inv.pong fits got target
      | done => exact inv.done workers got target

/-- What delivering the message, and the answer to it, may still take. -/
def Message.weight : Message N → ℕ
  | .start _ => 2
  | .ping _ _ | .finish _ | .done => 1
  | .pong _ => 0

def load (flying : Multiset (Message N)) : ℕ :=
  (flying.map Message.weight).sum

theorem load_cons (m : Message N) (rest : Multiset (Message N)) :
    load (m ::ₘ rest) = m.weight + load rest := by
  rw [load, Multiset.map_cons, Multiset.sum_cons, load]

theorem load_ends (rest : Multiset (Message N)) :
    load (((List.finRange N).map Message.finish : Multiset (Message N)) + rest) = N + load rest := by
  have ones : (Message.weight ∘ Message.finish : Fin N → ℕ) = fun _ => 1 := rfl
  rw [load, Multiset.map_add, Multiset.sum_add, Multiset.map_coe, Multiset.sum_coe, List.map_map,
    ones, List.map_const', List.sum_replicate, List.length_finRange, smul_eq_mul, mul_one, load]

/-- The `End()` that are still to be sent. -/
def unsentEnds (N : ℕ) (sinkLeft : Int) : ℕ :=
  if sinkLeft = 0 then 0 else N

/-- An upper bound for the steps that are left. -/
def remaining (s : State N) : ℕ :=
  ∑ i, 2 * (s.worker i).left.toNat + load s.inFlight + 3 * (N - s.started) +
    unsentEnds N s.sinkLeft

theorem remaining_worker (i : Fin N) (w : Worker) :
    ∑ j, 2 * (Function.update s.worker i w j).left.toNat + 2 * (s.worker i).left.toNat =
      ∑ j, 2 * (s.worker j).left.toNat + 2 * w.left.toNat :=
  sum_update_add (fun w : Worker => 2 * w.left.toNat) s.worker i w

theorem Invariant.lowers (inv : Invariant sz s) (fits : sz ≤ 2147483647)
    (workers : N ≤ 2147483647) {a : Action N} (moves : step a s = some s') :
    remaining s' < remaining s := by
  cases a with
  | start =>
      simp only [step, State.startNext] at moves
      split at moves
      next more =>
        cases moves
        simp only [remaining, State.send, load_cons, Message.weight]
        omega
      next => cases moves
  | deliver m target =>
      obtain ⟨rest, got, rfl⟩ := inv.deliver_cases moves
      unfold remaining
      rw [got, load_cons]
      cases m with
      | ping i ch =>
          simp only [State.receive, State.send, load_cons, Message.weight]
          omega
      | start i =>
          have same := remaining_worker (s := s) i
            { s.worker i with pings := (s.worker i).pings + 1 }
          simp only [State.receive, State.doPing, State.send, load_cons, Message.weight]
          dsimp only at same
          omega
      | finish i =>
          have same := remaining_worker (s := s) i
            { s.worker i with mainSealed := true, responsesSealed := true }
          simp only [State.receive, Message.weight]
          dsimp only at same
          omega
      | pong i =>
          obtain ⟨working, wrapped⟩ := inv.left_pred fits got
          -- a ping that is left weighs two, and the message that answers the pong only one
          have spent : (Message.pong i).weight = 0 := rfl
          have pinged : (Message.ping target i).weight = 1 := rfl
          have done : (Message.done : Message N).weight = 1 := rfl
          simp only [State.receive, State.onPong, wrapped, State.doPing, State.send,
            Function.update_self, Function.update_idem]
          split
          next =>
            have same := remaining_worker (s := s) i { s.worker i with
              left := (s.worker i).left - 1
              pings := (s.worker i).pings + 1
              pongs := (s.worker i).pongs + 1 }
            rw [load_cons]
            dsimp only at same ⊢
            omega
          next =>
            have same := remaining_worker (s := s) i { s.worker i with
              left := (s.worker i).left - 1
              pongs := (s.worker i).pongs + 1
              dones := (s.worker i).dones + 1 }
            rw [load_cons]
            dsimp only at same ⊢
            omega
      | done =>
          obtain ⟨running, wrapped⟩ := inv.sinkLeft_pred workers got
          have spent : (Message.done : Message N).weight = 1 := rfl
          -- the ends count from the beginning, so it costs nothing to send them
          have before : unsentEnds N s.sinkLeft = N := if_neg running
          simp only [State.receive, State.onDone, wrapped]
          split
          next last =>
            have after : unsentEnds N (s.sinkLeft - 1) = 0 := if_pos last
            rw [load_ends]
            dsimp only
            omega
          next more =>
            have after : unsentEnds N (s.sinkLeft - 1) = N := if_neg more
            dsimp only
            omega

/-- What holds when everything is over. -/
structure Finished (sz : Int) (s : State N) : Prop where
  pings : ∀ i, (s.worker i).pings = sz
  pongs : ∀ i, (s.worker i).pongs = sz
  dones : ∀ i, (s.worker i).dones = 1
  promise : s.promise = [0]
  inFlight : s.inFlight = 0

/-- A state in which nothing can move is at the end. -/
theorem Invariant.stuck (inv : Invariant sz s) (workers : 1 ≤ N)
    (stuck : ∀ a s', step a s ≠ some s') : Finished sz s := by
  have nothing : s.inFlight = 0 := by
    refine Multiset.eq_zero_of_forall_notMem fun m flying => ?_
    exact stuck (.deliver m ⟨0, workers⟩) _ (if_pos flying)
  have sent : N ≤ s.started := by
    by_contra more
    exact stuck .start _ (dif_pos (Nat.lt_of_not_le more))
  have balanced : ∀ i, Balanced sz 0 0 0 (s.worker i) := by
    intro i
    have before := inv.balanced i
    have reached : unsent s.started i = 0 := if_pos (by omega)
    rwa [nothing, reached] at before
  have dones : ∀ i, (s.worker i).dones = 1 := by
    intro i
    have := (balanced i).token
    omega
  have pongs : ∀ i, (s.worker i).pongs = sz := by
    intro i
    have left := (balanced i).left
    rw [(balanced i).finished (dones i)] at left
    omega
  have ended : s.sinkLeft = 0 := by
    have sink := inv.sink
    simp only [nothing, dones] at sink
    simpa using sink
  exact {
    pings := fun i => by rw [(balanced i).pings, Nat.add_zero]; exact pongs i
    pongs := pongs
    dones := dones
    promise := (inv.ended ended).1
    inFlight := nothing }

/-- `End()` is only sent when nothing but the last `"done"` is in flight. -/
theorem Invariant.ends_late (inv : Invariant sz s) (workers : N ≤ 2147483647) {a : Action N}
    (moves : step a s = some s') {i : Fin N}
    (ends : s.inFlight.count (.finish i) < s'.inFlight.count (.finish i)) :
    ∀ m ∈ s.inFlight, m = .done := by
  cases a with
  | start =>
      simp only [step, State.startNext] at moves
      split at moves
      next =>
        cases moves
        rw [State.send, Multiset.count_cons_of_ne (by nofun)] at ends
        exact absurd ends (lt_irrefl _)
      next => cases moves
  | deliver m target =>
      obtain ⟨rest, got, rfl⟩ := inv.deliver_cases moves
      have fewer : rest.count (.finish i) ≤ s.inFlight.count (.finish i) := by
        rw [got]
        exact Multiset.count_le_count_cons _ _ _
      have notMore : ¬ s.inFlight.count (.finish i) < rest.count (.finish i) := by omega
      cases m with
      | ping | start =>
          simp only [State.receive, State.doPing, State.send] at ends
          rw [Multiset.count_cons_of_ne (by nofun)] at ends
          exact absurd ends notMore
      | finish => exact absurd ends notMore
      | pong =>
          simp only [State.receive, State.onPong, State.doPing, State.send] at ends
          split at ends
          all_goals
            rw [Multiset.count_cons_of_ne (by nofun)] at ends
            exact absurd ends notMore
      | done =>
          obtain ⟨running, wrapped⟩ := inv.sinkLeft_pred workers got
          simp only [State.receive, State.onDone, wrapped] at ends
          split at ends
          next last =>
            -- the last one: nobody has a turn left
            have seen : 1 ≤ s.inFlight.count .done := by
              rw [got, Multiset.count_cons_self]
              omega
            obtain ⟨-, turns, -⟩ := inv.settled (by omega)
            intro m flying
            have turn := turns m flying
            cases m with
            | done => rfl
            | finish k => exact absurd flying ((inv.running running).2.2 k).2.2
            | ping | start | pong => cases turn
          next => exact absurd ends notMore

theorem rounds_le_turns (flying : Multiset (Message N)) (i : Fin N) :
    (flying.countP fun m => m.round = some i) ≤ flying.countP fun m => m.turn = some i := by
  rw [Multiset.countP_eq_card_filter, Multiset.countP_eq_card_filter]
  exact Multiset.card_le_card (Multiset.monotone_filter_right _ fun _ => Message.turn_of_round)

/-- No worker does more than it should on the way. -/
theorem Invariant.at_most (inv : Invariant sz s) (i : Fin N) :
    (s.worker i).pings ≤ sz ∧ (s.worker i).pongs ≤ sz ∧ (s.worker i).dones ≤ 1 := by
  have balanced := inv.balanced i
  have outstanding := rounds_le_turns s.inFlight i
  obtain ⟨token, pings, left, working, finished⟩ := balanced
  have cases : (s.worker i).dones = 0 ∨ (s.worker i).dones = 1 := by omega
  rcases cases with none | one
  · have := working none
    omega
  · have := finished one
    omega

/-- Every run of BigBench ends with all pings and pongs exchanged. On the way nothing is ever dropped,
`End()` is only sent when nothing but the last `"done"` is in flight, and the promise is completed with
`0` and at most once. -/
theorem run_finishes (workers : 1 ≤ N) (fewWorkers : N ≤ 2147483647) (positive : 1 ≤ sz)
    (fits : sz ≤ 2147483647) :
    Inevitable step (Finished sz) (start N sz) ∧
    ∀ s, Reachable step (start N sz) s → s.dropped = 0 ∧ (s.promise = [] ∨ s.promise = [0]) ∧
      (∀ i, (s.worker i).pings ≤ sz ∧ (s.worker i).pongs ≤ sz ∧ (s.worker i).dones ≤ 1) ∧
      ∀ a s', step a s = some s' →
        (∃ i, s.inFlight.count (.finish i) < s'.inFlight.count (.finish i)) →
        ∀ m ∈ s.inFlight, m = .done := by
  constructor
  · refine inevitable_of_measure remaining (fun a s s' inv moves => inv.keeps fits fewWorkers moves)
      (fun s inv running => ?_) (fun a s s' inv moves => inv.lowers fits fewWorkers moves)
      (Invariant.start workers positive)
    by_contra stuck
    push Not at stuck
    exact running (inv.stuck workers stuck)
  · intro s reachable
    have inv : Invariant sz s := reachable.invariant (Invariant.start workers positive)
      fun a s s' inv moves => inv.keeps fits fewWorkers moves
    refine ⟨inv.dropped, ?_, inv.at_most, fun a s' moves ⟨i, ends⟩ =>
      inv.ends_late fewWorkers moves ends⟩
    by_cases ended : s.sinkLeft = 0
    · exact .inr (inv.ended ended).1
    · exact .inl (inv.running ended).1

/-- Two workers that ping each other and themselves. -/
theorem run_finishes_pair :
    Inevitable step (Finished 3) (start 2 3) ∧
    ∀ s, Reachable step (start 2 3) s → s.dropped = 0 ∧ (s.promise = [] ∨ s.promise = [0]) ∧
      (∀ i, (s.worker i).pings ≤ (3 : ℤ) ∧ (s.worker i).pongs ≤ (3 : ℤ) ∧ (s.worker i).dones ≤ 1) ∧
      ∀ a s', step a s = some s' →
        (∃ i, s.inFlight.count (.finish i) < s'.inFlight.count (.finish i)) →
        ∀ m ∈ s.inFlight, m = .done :=
  run_finishes (by decide) (by decide) (by decide) (by decide)

end Renaissance.BigBench
