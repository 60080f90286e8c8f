import Renaissance.Lib.JavaInt
import Renaissance.Lib.Reactors

/-!
# PingPong and StreamingPingPong

The two reactors of `PingPong.run` and `StreamingPingPong.run`, which only differ in the number of
messages that the calling thread serves. `pingPong_finishes` says that every run ends with `sz` messages
handled on both sides.
-/

namespace Renaissance.PingPong

open JavaInt Reactors Transition

/-- The thread that calls `run`, and the two reactors. -/
inductive Thread
  | main
  | ping
  | pong
  deriving DecidableEq, Repr

abbrev Op := Reactors.Op Thread Int String Int

abbrev State := Reactors.State Thread Int String Int

/-- The handler of `ping`. -/
def onPing (left : Int) : Int × List Op :=
  let left := int (left - 1)
  if left > 0 then (left, [.send .pong "ping"])
  else (left, [.complete left, .sealChannel])

/-- The handler of `pong`. -/
def onPong (left : Int) : Int × List Op :=
  let left := int (left - 1)
  (left, (if left = 0 then [.sealChannel] else []) ++ [.send .ping "pong"])

/-- The memory of a reactor is its variable `left`. Its body only installs the handler, and nothing
sends to the calling thread. -/
def code : Code Thread Int String Int where
  body _ _ := []
  handle
    | .main, left, _ => (left, [])
    | .ping, left, _ => onPing left
    | .pong, left, _ => onPong left

/-- The pair is created, and the calling thread has to serve `window` messages. -/
def start (window : ℕ) (sz : Int) : State where
  process
    | .main => { memory := 0, todo := List.replicate window (.send .pong "serve") }
    | .ping | .pong => { memory := sz }
  live := {.main, .ping, .pong}

/-- `PingPong.run`. -/
def run (sz : Int) : State :=
  start 1 sz

/-- `StreamingPingPong.WINDOW_SIZE`. -/
def windowSize : ℕ :=
  128

/-- `StreamingPingPong.run`. -/
def runStreaming (sz : Int) : State :=
  start windowSize sz

/-! ## The invariant -/

/-- What `ping` is doing: its operations, what the promise was completed with, and how many messages it
is about to send. -/
inductive PingDoes (sz : Int) (todo : List Op) (isSealed : Bool) (handled : ℕ)
    (completed : List Int) : ℕ → Prop
  | waiting : todo = [] → isSealed = false → handled < sz → completed = [] →
      PingDoes sz todo isSealed handled completed 0
  | answering : todo = [.send .pong "ping"] → isSealed = false → handled < sz → completed = [] →
      PingDoes sz todo isSealed handled completed 1
  | completing : todo = [.complete 0, .sealChannel] → isSealed = false → handled = sz →
      completed = [] → PingDoes sz todo isSealed handled completed 0
  | sealing : todo = [.sealChannel] → isSealed = false → handled = sz → completed = [0] →
      PingDoes sz todo isSealed handled completed 0
  | finished : todo = [] → isSealed = true → handled = sz → completed = [0] →
      PingDoes sz todo isSealed handled completed 0

/-- What `pong` is doing, and how many messages it is about to send. -/
inductive PongDoes (sz : Int) (todo : List Op) (isSealed : Bool) (handled : ℕ) : ℕ → Prop
  | waiting : todo = [] → (isSealed = true ↔ handled = sz) → PongDoes sz todo isSealed handled 0
  | sealing : todo = [.sealChannel, .send .ping "pong"] → isSealed = false → handled = sz →
      PongDoes sz todo isSealed handled 1
  | answering : todo = [.send .ping "pong"] → (isSealed = true ↔ handled = sz) →
      PongDoes sz todo isSealed handled 1

/-- Every `"pong"` that was sent was handled or waits, and `pong` has got what was served and one
message for every message that `ping` has answered, up to the `lost` ones. -/
structure Exchange (window : ℕ) (sz : Int) (main ping pong : Process Thread Int String Int)
    (completed : List Int) (lost served toPing toPong : ℕ) : Prop where
  serves : main.todo = List.replicate served (.send .pong "serve")
  mainQueue : main.queue = []
  pingLeft : ping.memory = sz - ping.handled
  pongLeft : pong.memory = sz - pong.handled
  pingDoes : PingDoes sz ping.todo ping.isSealed ping.handled completed toPong
  pongDoes : PongDoes sz pong.todo pong.isSealed pong.handled toPing
  few : pong.handled ≤ sz
  pongs : ping.queue.length + ping.handled + toPing = pong.handled
  pings : (pong.queue.length + pong.handled + served + toPong + lost : Int) =
    window + min (ping.handled : Int) (sz - 1)
  early : pong.handled < sz → lost = 0

structure Invariant (window : ℕ) (sz : Int) (s : State) : Prop where
  live : ∀ k, k ∈ s.live
  exchange : ∃ served toPing toPong, Exchange window sz (s.process .main) (s.process .ping)
    (s.process .pong) s.completed s.dropped.length served toPing toPong

variable {window : ℕ} {sz : Int} {s s' : State}

theorem Invariant.start (positive : 1 ≤ sz) : Invariant window sz (start window sz) where
  live k := by cases k <;> simp [PingPong.start]
  exchange := ⟨window, 0, 0, {
    serves := rfl
    mainQueue := rfl
    pingLeft := (sub_zero sz).symm
    pongLeft := (sub_zero sz).symm
    pingDoes := .waiting rfl rfl (by show ((0 : ℕ) : Int) < sz; omega) rfl
    pongDoes := .waiting rfl (by show false = true ↔ ((0 : ℕ) : Int) = sz; simp; omega)
    few := by show ((0 : ℕ) : Int) ≤ sz; omega
    pongs := rfl
    pings := by
      show (((0 : ℕ) : Int) + ((0 : ℕ) : Int) + window + ((0 : ℕ) : Int) + ((0 : ℕ) : Int)) =
        window + min ((0 : ℕ) : Int) (sz - 1)
      omega
    early := fun _ => rfl }⟩

/-! ## One turn -/

section Turns

variable {main ping pong : Process Thread Int String Int} {completed : List Int}
  {lost lost' served toPing toPong : ℕ}

/-- The channel of `pong` is open as long as `pong` has not handled everything. -/
theorem Exchange.pong_open
    (ex : Exchange window sz main ping pong completed lost served toPing toPong)
    (more : pong.handled < sz) : pong.isSealed = false := by
  cases ex.pongDoes with
  | waiting _ sealedWhen | answering _ sealedWhen =>
      rw [← Bool.not_eq_true, sealedWhen]
      exact more.ne
  | sealing _ opened => exact opened

/-- Another message is served. -/
theorem Exchange.serve {queue : List String}
    (ex : Exchange window sz main ping pong completed lost (served + 1) toPing toPong)
    (count : queue.length + lost' = pong.queue.length + lost + 1)
    (kept : pong.isSealed = false → lost' = lost) :
    Exchange window sz { main with todo := List.replicate served (.send .pong "serve") } ping
      { pong with queue := queue } completed lost' served toPing toPong :=
  { ex with
    serves := rfl
    pings := by
      have := ex.pings
      dsimp only
      push_cast at this ⊢
      omega
    early := fun more => by rw [kept (ex.pong_open more), ex.early more] }

theorem Invariant.turn_main (inv : Invariant window sz s) (moves : step code .main s = some s') :
    Invariant window sz s' := by
  obtain ⟨live, served, toPing, toPong, ex⟩ := inv
  rcases step_cases moves with ⟨op, ops, doing, rfl⟩ | ⟨m, rest, -, waiting, rfl⟩
  · rw [ex.serves] at doing
    cases served with
    | zero => cases doing
    | succ served =>
        cases doing
        obtain ⟨queue, dropped, sent, count, kept⟩ := State.send_spec
          (s.set .main { s.process .main with todo := List.replicate served (.send .pong "serve") })
          .pong "serve"
        simp only [State.perform, sent]
        refine ⟨live, served, toPing, toPong, ?_⟩
        simp only [State.set_process_self, State.set_process_of_ne, ne_eq, reduceCtorEq,
          not_false_eq_true, State.set_dropped] at count kept ⊢
        exact ex.serve count fun opened => by rw [kept opened]
  · rw [ex.mainQueue] at waiting
    cases waiting

/-- `ping` never has a message waiting when it is done. -/
theorem Exchange.ping_unfinished {m : String} {rest : List String}
    (ex : Exchange window sz main ping pong completed lost served toPing toPong)
    (waiting : ping.queue = m :: rest) : ping.handled < sz := by
  have few := ex.few
  have pongs := ex.pongs
  rw [waiting, List.length_cons] at pongs
  omega

/-- `ping` counts a message down, which does not overflow. -/
theorem Exchange.onPing_eq (ex : Exchange window sz main ping pong completed lost served toPing toPong)
    (fits : sz ≤ 2147483647) (more : ping.handled < sz) :
    onPing ping.memory = (sz - (ping.handled + 1 : ℕ),
      if ping.handled + 1 < sz then [.send .pong "ping"] else [.complete 0, .sealChannel]) := by
  have wrapped : int (ping.memory - 1) = sz - (ping.handled + 1 : ℕ) := by
    rw [ex.pingLeft, int_eq_self (by omega) (by omega)]
    push_cast
    omega
  unfold onPing
  dsimp only
  rw [wrapped]
  by_cases again : ping.handled + 1 < sz
  · rw [if_pos again, if_pos (by push_cast; omega)]
  · have last : sz - (ping.handled + 1 : ℕ) = 0 := by push_cast; omega
    rw [if_neg again, last, if_neg (lt_irrefl _)]

theorem Exchange.ping_handles {m : String} {rest : List String}
    (ex : Exchange window sz main ping pong completed lost served toPing toPong)
    (fits : sz ≤ 2147483647) (idle : ping.todo = []) (waiting : ping.queue = m :: rest) :
    ping.isSealed = false ∧ ∃ toPong', Exchange window sz main
      { ping with
        memory := (onPing ping.memory).1
        todo := (onPing ping.memory).2
        queue := rest
        handled := ping.handled + 1 } pong completed lost served toPing toPong' := by
  have more := ex.ping_unfinished waiting
  have pongs := ex.pongs
  have pings := ex.pings
  rw [waiting, List.length_cons] at pongs
  rw [ex.onPing_eq fits more]
  cases ex.pingDoes with
  | waiting _ opened _ promise =>
      refine ⟨opened, ?_⟩
      by_cases again : ping.handled + 1 < sz
      · exact ⟨1, { ex with
          pingLeft := rfl
          pingDoes := .answering (if_pos again) opened (by exact_mod_cast again) promise
          pongs := by dsimp only; omega
          pings := by dsimp only; push_cast; omega }⟩
      · exact ⟨0, { ex with
          pingLeft := rfl
          pingDoes := .completing (if_neg again) opened (by push_cast; omega) promise
          pongs := by dsimp only; omega
          pings := by dsimp only; push_cast; omega }⟩
  | answering doing => rw [idle] at doing; cases doing
  | completing doing => rw [idle] at doing; cases doing
  | sealing doing => rw [idle] at doing; cases doing
  | finished _ _ all => omega

theorem Invariant.turn_ping (inv : Invariant window sz s) (fits : sz ≤ 2147483647)
    (moves : step code .ping s = some s') : Invariant window sz s' := by
  obtain ⟨live, served, toPing, toPong, ex⟩ := inv
  rcases step_cases moves with ⟨op, ops, doing, rfl⟩ | ⟨m, rest, idle, waiting, rfl⟩
  · cases ex.pingDoes with
    | waiting idle => rw [idle] at doing; cases doing
    | answering does opened more promise =>
        rw [does] at doing
        cases doing
        obtain ⟨queue, dropped, sent, count, kept⟩ := State.send_spec
          (s.set .ping { s.process .ping with todo := [] }) .pong "ping"
        simp only [State.perform, sent]
        refine ⟨live, served, toPing, 0, ?_⟩
        simp only [State.set_process_self, State.set_process_of_ne, ne_eq, reduceCtorEq,
          not_false_eq_true, State.set_dropped] at count kept ⊢
        exact { ex with
          pingDoes := .waiting rfl opened more promise
          pings := by
            have := ex.pings
            dsimp only
            push_cast at this ⊢
            omega
          early := fun more => by rw [kept (ex.pong_open more), ex.early more] }
    | completing does opened all promise =>
        rw [does] at doing
        cases doing
        refine ⟨live, served, toPing, 0, ?_⟩
        simp only [State.perform, State.set_process_self, State.set_process_of_ne, ne_eq, reduceCtorEq,
          not_false_eq_true, State.set_dropped, State.set_completed]
        exact { ex with pingDoes := .sealing rfl opened all (by rw [promise]; rfl) }
    | sealing does opened all promise =>
        rw [does] at doing
        cases doing
        refine ⟨live, served, toPing, 0, ?_⟩
        simp only [State.perform, State.set_process_self, State.set_process_of_ne, ne_eq, reduceCtorEq,
          not_false_eq_true, State.set_dropped, State.set_completed]
        exact { ex with pingDoes := .finished rfl rfl all promise }
    | finished idle => rw [idle] at doing; cases doing
  · obtain ⟨opened, toPong', after⟩ := ex.ping_handles fits idle waiting
    rw [State.deliver_eq m rest opened]
    refine ⟨live, served, toPing, toPong', ?_⟩
    simp only [State.set_process_self, State.set_process_of_ne, ne_eq, reduceCtorEq,
      not_false_eq_true, State.set_dropped, State.set_completed]
    exact after

/-- `pong` counts a message down, which does not overflow. -/
theorem Exchange.onPong_eq (ex : Exchange window sz main ping pong completed lost served toPing toPong)
    (positive : 1 ≤ sz) (fits : sz ≤ 2147483647) :
    onPong pong.memory = (sz - (pong.handled + 1 : ℕ),
      (if pong.handled + 1 = sz then [.sealChannel] else []) ++ [.send .ping "pong"]) := by
  have few := ex.few
  have wrapped : int (pong.memory - 1) = sz - (pong.handled + 1 : ℕ) := by
    rw [ex.pongLeft, int_eq_self (by omega) (by omega)]
    push_cast
    omega
  unfold onPong
  dsimp only
  rw [wrapped]
  by_cases last : pong.handled + 1 = sz
  · rw [if_pos last, if_pos (by push_cast; omega)]
  · rw [if_neg last, if_neg (by push_cast; omega)]

/-- `pong` handles a message. -/
theorem Exchange.pong_handles {m : String} {rest : List String}
    (ex : Exchange window sz main ping pong completed lost served toPing toPong)
    (positive : 1 ≤ sz) (fits : sz ≤ 2147483647) (idle : pong.todo = [])
    (opened : pong.isSealed = false) (waiting : pong.queue = m :: rest) :
    Exchange window sz main ping
      { pong with
        memory := (onPong pong.memory).1
        todo := (onPong pong.memory).2
        queue := rest
        handled := pong.handled + 1 } completed lost served 1 toPong := by
  have few := ex.few
  have pongs := ex.pongs
  have pings := ex.pings
  rw [waiting, List.length_cons] at pings
  rw [ex.onPong_eq positive fits]
  cases ex.pongDoes with
  | waiting _ sealedWhen =>
      have more : pong.handled ≠ sz := by
        intro all
        rw [sealedWhen.mpr all] at opened
        cases opened
      by_cases last : pong.handled + 1 = sz
      · exact { ex with
          pongLeft := rfl
          pongDoes := .sealing (by rw [if_pos last]; rfl) opened (by push_cast; omega)
          few := by push_cast; omega
          pongs := by dsimp only; omega
          pings := by dsimp only; push_cast at pings ⊢; omega
          early := fun _ => ex.early (lt_of_le_of_ne few more) }
      · exact { ex with
          pongLeft := rfl
          pongDoes := .answering (by rw [if_neg last]; rfl)
            (by rw [opened]; exact iff_of_false Bool.false_ne_true (by exact_mod_cast last))
          few := by push_cast; omega
          pongs := by dsimp only; omega
          pings := by dsimp only; push_cast at pings ⊢; omega
          early := fun _ => ex.early (lt_of_le_of_ne few more) }
  | sealing doing => rw [idle] at doing; cases doing
  | answering doing => rw [idle] at doing; cases doing

theorem Invariant.turn_pong (inv : Invariant window sz s) (positive : 1 ≤ sz)
    (fits : sz ≤ 2147483647) (moves : step code .pong s = some s') : Invariant window sz s' := by
  obtain ⟨live, served, toPing, toPong, ex⟩ := inv
  rcases step_cases moves with ⟨op, ops, doing, rfl⟩ | ⟨m, rest, idle, waiting, rfl⟩
  · cases ex.pongDoes with
    | waiting idle => rw [idle] at doing; cases doing
    | sealing does opened all =>
        rw [does] at doing
        cases doing
        refine ⟨live, served, 1, toPong, ?_⟩
        simp only [State.perform, State.set_process_self, State.set_process_of_ne, ne_eq, reduceCtorEq,
          not_false_eq_true, State.set_dropped, State.set_completed]
        exact { ex with pongDoes := .answering rfl ⟨fun _ => all, fun _ => rfl⟩ }
    | answering does sealedWhen =>
        rw [does] at doing
        cases doing
        -- ping lacks this answer, so its channel is open
        have more : (s.process .ping).isSealed = false := by
          have pongs := ex.pongs
          have few := ex.few
          cases ex.pingDoes with
          | waiting _ opened | answering _ opened | completing _ opened | sealing _ opened => exact opened
          | finished _ _ all => omega
        rw [State.perform, State.send_eq "pong" (by simpa using more)]
        refine ⟨live, served, 0, toPong, ?_⟩
        simp only [State.set_process_self, State.set_process_of_ne, ne_eq, reduceCtorEq,
          not_false_eq_true, State.set_dropped, State.set_completed]
        exact { ex with
          pongDoes := .waiting rfl sealedWhen
          pongs := by
            have := ex.pongs
            simp only [List.length_append, List.length_singleton]
            omega }
  · cases opened : (s.process .pong).isSealed with
    | false =>
        rw [State.deliver_eq m rest opened]
        refine ⟨live, served, 1, toPong, ?_⟩
        simp only [State.set_process_self, State.set_process_of_ne, ne_eq, reduceCtorEq,
          not_false_eq_true, State.set_dropped, State.set_completed]
        have after := ex.pong_handles positive fits idle opened waiting
        cases ex.pongDoes with
        | waiting => exact after
        | sealing doing => rw [idle] at doing; cases doing
        | answering doing => rw [idle] at doing; cases doing
    | true =>
        rw [State.deliver_sealed m rest opened]
        refine ⟨live, served, toPing, toPong, ?_⟩
        simp only [State.set_process_self, State.set_process_of_ne, ne_eq, reduceCtorEq,
          not_false_eq_true, State.set_completed, List.length_append, List.length_singleton]
        exact { ex with
          pings := by
            have := ex.pings
            rw [waiting, List.length_cons] at this
            push_cast at this ⊢
            omega
          early := fun more => by rw [ex.pong_open more] at opened; cases opened }

end Turns

theorem Invariant.turn (inv : Invariant window sz s) (positive : 1 ≤ sz) (fits : sz ≤ 2147483647)
    {k : Thread} (moves : step code k s = some s') : Invariant window sz s' := by
  cases k with
  | main => exact inv.turn_main moves
  | ping => exact inv.turn_ping fits moves
  | pong => exact inv.turn_pong positive fits moves

/-! ## The end of a run -/

/-- What a reactor may still cost: one message in a channel counts as one. -/
def credit : Thread → Int → ℕ → ℕ
  | .main, _, _ => 0
  | .ping, left, _ => 2 * left.toNat
  | .pong, left, _ => 3 * left.toNat

def cost : Op → ℕ
  | .send _ _ => 2
  | .spawn j memory => credit j memory 0 + 1
  | .complete _ | .sealChannel => 1

theorem covers : Covers code cost credit where
  send _ _ := Nat.lt_succ_self 1
  spawn _ _ := Nat.lt_succ_self _
  complete _ := Nat.one_pos
  sealChannel := Nat.one_pos

theorem Invariant.lowers (inv : Invariant window sz s) (positive : 1 ≤ sz)
    (fits : sz ≤ 2147483647) {k : Thread} (moves : step code k s = some s') :
    load cost credit s' < load cost credit s := by
  obtain ⟨live, served, toPing, toPong, ex⟩ := inv
  refine load_lt covers (live k) moves fun m rest idle waiting opened => ?_
  cases k with
  | main =>
      rw [ex.mainQueue] at waiting
      cases waiting
  | ping =>
      have more := ex.ping_unfinished waiting
      have left := ex.pingLeft
      show credit .ping (onPing _).1 _ + ((onPing _).2.map cost).sum ≤ _
      rw [ex.onPing_eq fits more]
      have price : ((if ((s.process .ping).handled + 1 : Int) < sz then [.send .pong "ping"]
          else [.complete 0, .sealChannel] : List Op).map cost).sum = 2 := by
        split <;> rfl
      rw [price]
      unfold credit
      push_cast
      omega
  | pong =>
      have few := ex.few
      have left := ex.pongLeft
      have more : (s.process .pong).handled ≠ sz := by
        intro all
        cases ex.pongDoes with
        | waiting _ sealedWhen => rw [sealedWhen.mpr all] at opened; cases opened
        | sealing doing | answering doing => rw [idle] at doing; cases doing
      show credit .pong (onPong _).1 _ + ((onPong _).2.map cost).sum ≤ _
      rw [ex.onPong_eq positive fits]
      have price : (((if ((s.process .pong).handled + 1 : Int) = sz then [.sealChannel] else []) ++
          [.send .ping "pong"] : List Op).map cost).sum ≤ 3 := by
        split <;> decide
      unfold credit
      push_cast at price ⊢
      omega

/-- What holds when everything is over. -/
structure Finished (window : ℕ) (sz : Int) (s : State) : Prop where
  completed : s.completed = [0]
  ping : (s.process .ping).handled = sz
  pong : (s.process .pong).handled = sz
  dropped : s.dropped.length + 1 = window
  idle : ∀ k, (s.process k).todo = [] ∧ (s.process k).queue = []

theorem Invariant.stuck (inv : Invariant window sz s) (serves : 1 ≤ window)
    (stuck : ∀ k s', step code k s ≠ some s') : Finished window sz s := by
  obtain ⟨-, served, toPing, toPong, ex⟩ := inv
  have idle := idle_of_stuck stuck
  have served : served = 0 := by
    have none := ex.serves
    rw [(idle .main).1] at none
    cases served with
    | zero => rfl
    | succ => cases none
  have pongs := ex.pongs
  have pings := ex.pings
  have few := ex.few
  have early := ex.early
  rw [(idle .ping).2, List.length_nil] at pongs
  rw [(idle .pong).2, List.length_nil] at pings
  have answered : toPing = 0 := by
    cases ex.pongDoes with
    | waiting => rfl
    | sealing doing | answering doing => rw [(idle .pong).1] at doing; cases doing
  cases ex.pingDoes with
  | waiting _ _ more _ =>
      -- all messages would have been answered, but one is always on its way
      have := early (by omega)
      omega
  | answering doing | completing doing | sealing doing => rw [(idle .ping).1] at doing; cases doing
  | finished _ _ all promise => exact ⟨promise, all, by omega, by omega, idle⟩

/-- The number of messages that are served, sent or dropped without being handled by `pong`. -/
def unhandled (s : State) : ℕ :=
  (s.process .main).todo.length + (s.process .pong).queue.length + s.dropped.length

/-- On the way nobody handles too much, and when the promise is completed all messages that are left
over are on their way to `pong`. -/
theorem Invariant.on_the_way (inv : Invariant window sz s) :
    (s.process .ping).handled ≤ sz ∧ (s.process .pong).handled ≤ sz ∧
      (s.completed = [] ∨ s.completed = [0] ∧ (s.process .ping).handled = sz ∧
        (s.process .pong).handled = sz ∧ unhandled s + 1 = window) := by
  obtain ⟨-, served, toPing, toPong, ex⟩ := inv
  have pongs := ex.pongs
  have pings := ex.pings
  have few := ex.few
  have serves : (s.process .main).todo.length = served := by
    rw [ex.serves, List.length_replicate]
  refine ⟨by omega, few, ?_⟩
  unfold unhandled
  cases ex.pingDoes with
  | waiting _ _ _ promise | answering _ _ _ promise | completing _ _ _ promise => exact .inl promise
  | sealing _ _ all promise | finished _ _ all promise =>
      exact .inr ⟨promise, all, by omega, by omega⟩

/-- Every run completes the promise exactly once and with `0`, both reactors handle exactly `sz`
messages, and the `window - 1` messages that are left over are dropped. -/
theorem pingPong_finishes (serves : 1 ≤ window) (positive : 1 ≤ sz) (fits : sz ≤ 2147483647) :
    Inevitable (step code) (Finished window sz) (start window sz) ∧
    ∀ s, Reachable (step code) (start window sz) s →
      (s.process .ping).handled ≤ sz ∧ (s.process .pong).handled ≤ sz ∧
      (s.completed = [] ∨ s.completed = [0] ∧ (s.process .ping).handled = sz ∧
        (s.process .pong).handled = sz ∧ unhandled s + 1 = window) := by
  constructor
  · refine inevitable_of_measure (load cost credit)
      (fun k s s' inv moves => Invariant.turn inv positive fits moves) (fun s inv running => ?_)
      (fun k s s' inv moves => inv.lowers positive fits moves) (Invariant.start positive)
    by_contra stuck
    push Not at stuck
    exact running (inv.stuck serves stuck)
  · intro s reachable
    have inv : Invariant window sz s := reachable.invariant (Invariant.start positive)
      fun k s s' inv moves => inv.turn positive fits moves
    exact inv.on_the_way

/-- Fewer messages than the window. -/
theorem pingPong_finishes_streaming :
    Inevitable (step code) (Finished windowSize 3) (runStreaming 3) ∧
    ∀ s, Reachable (step code) (runStreaming 3) s →
      (s.process .ping).handled ≤ (3 : ℤ) ∧ (s.process .pong).handled ≤ (3 : ℤ) ∧
      (s.completed = [] ∨ s.completed = [0] ∧ (s.process .ping).handled = (3 : ℤ) ∧
        (s.process .pong).handled = (3 : ℤ) ∧ unhandled s + 1 = windowSize) :=
  pingPong_finishes (by decide) (by decide) (by decide)

end Renaissance.PingPong
