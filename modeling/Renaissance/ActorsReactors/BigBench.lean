import Mathlib.Data.Multiset.Basic
import Mathlib.Data.Multiset.Count
import Mathlib.Data.Fin.Basic
import Renaissance.Lib.JavaInt
import Renaissance.Lib.Transition

/-!
# BigBench

The reactors of `BigBench.run` with `N` workers and the messages between them. A message in flight may
be delivered at any time, and the handler of a reactor runs as a whole when it is. What a channel gets
after it was sealed is dropped.

The counters `pings`, `pongs` and `dones` of a worker and the dropped messages are only there to be
talked about; no handler reads them.
-/

namespace Renaissance.BigBench

open JavaInt

/-- A message with the channel it goes to: the main channel of a worker for the commands, the channel
`responses` of a worker for `"pong"`, and the sink for `"done"`. -/
inductive Message (N : ℕ)
  /-- `workers(i) ! Ping(ch)` with the channel `ch` of the worker `ch` -/
  | ping (i ch : Fin N)
  /-- `workers(i) ! Start()` -/
  | start (i : Fin N)
  /-- `workers(i) ! End()` -/
  | finish (i : Fin N)
  | pong (i : Fin N)
  | done
  deriving DecidableEq, Repr

structure Worker where
  left : Int
  mainSealed : Bool := false
  responsesSealed : Bool := false
  pings : ℕ := 0
  pongs : ℕ := 0
  dones : ℕ := 0
  deriving DecidableEq, Repr

structure State (N : ℕ) where
  worker : Fin N → Worker
  sinkLeft : Int
  sinkSealed : Bool := false
  /-- The values that the promise was completed with. -/
  promise : List Int := []
  /-- How many `Start()` the loop at the end of `run` has sent. -/
  started : ℕ := 0
  inFlight : Multiset (Message N) := 0
  dropped : Multiset (Message N) := 0

/-- All reactors are spawned and nothing is sent yet. -/
def start (N : ℕ) (sz : Int) : State N where
  worker := fun _ => { left := sz }
  sinkLeft := N

/-- The next `Start()` is sent, or a message is delivered. `target` is what `random.nextInt` draws if
the handler calls it. -/
inductive Action (N : ℕ)
  | start
  | deliver (m : Message N) (target : Fin N)
  deriving DecidableEq, Repr

namespace State

variable {N : ℕ}

def send (m : Message N) (s : State N) : State N :=
  { s with inFlight := m ::ₘ s.inFlight }

def doPing (target i : Fin N) (s : State N) : State N :=
  let w := s.worker i
  { s with worker := Function.update s.worker i { w with pings := w.pings + 1 } }.send
    (.ping target i)

/-- The handler of `responses`. -/
def onPong (target i : Fin N) (s : State N) : State N :=
  let w := s.worker i
  let left := int (w.left - 1)
  let s := { s with
    worker := Function.update s.worker i { w with left := left, pongs := w.pongs + 1 } }
  if left > 0 then
    s.doPing target i
  else
    let w := s.worker i
    { s with worker := Function.update s.worker i { w with dones := w.dones + 1 } }.send .done

/-- The handler of the sink. -/
def onDone (s : State N) : State N :=
  let left := int (s.sinkLeft - 1)
  if left = 0 then
    { s with
      sinkLeft := left
      inFlight := ((List.finRange N).map Message.finish : Multiset _) + s.inFlight
      promise := s.promise ++ [left]
      sinkSealed := true }
  else
    { s with sinkLeft := left }

/-- What the reactor does with a message. -/
def receive (target : Fin N) (s : State N) : Message N → State N
  | .ping _ ch => s.send (.pong ch)
  | .start i => s.doPing target i
  | .finish i =>
      let w := { s.worker i with mainSealed := true, responsesSealed := true }
      { s with worker := Function.update s.worker i w }
  | .pong i => s.onPong target i
  | .done => s.onDone

def isSealed (s : State N) : Message N → Bool
  | .ping i _ | .start i | .finish i => (s.worker i).mainSealed
  | .pong i => (s.worker i).responsesSealed
  | .done => s.sinkSealed

def deliver (m : Message N) (target : Fin N) (s : State N) : Option (State N) :=
  if m ∈ s.inFlight then
    let s' := { s with inFlight := s.inFlight.erase m }
    some (if s.isSealed m then { s' with dropped := m ::ₘ s'.dropped } else s'.receive target m)
  else
    none

/-- The next iteration of the loop that starts the workers. -/
def startNext (s : State N) : Option (State N) :=
  if more : s.started < N then
    some ({ s with started := s.started + 1 }.send (.start ⟨s.started, more⟩))
  else
    none

end State

def step {N : ℕ} : Action N → State N → Option (State N)
  | .start, s => s.startNext
  | .deliver m target, s => s.deliver m target

end Renaissance.BigBench
