import Renaissance.Lib.JavaInt
import Renaissance.Lib.Program
import Renaissance.Lib.Transition

/-!
# The workload client

The four kinds of workload of the `WorkloadClient` are programs over what others can see of them: the
requests, the counters, and the random ids. `step` interleaves them with the coroutine that launches
them. The parallelism of the dispatcher only leaves out some of the interleavings.

A body is one of the documents that the two lenses write and read. The `tally` of a task records which
counters it has incremented and which product lists it has received; nothing reads it.
-/

namespace Renaissance.Http4k

open JavaInt

structure Product where
  id : String
  name : String
  deriving DecidableEq, Repr

inductive Status
  | OK
  | CREATED
  | BAD_REQUEST
  | NOT_FOUND
  deriving DecidableEq, Repr

inductive Body
  | empty
  | product (product : Product)
  | products (products : List Product)
  deriving DecidableEq, Repr

structure Response where
  status : Status
  body : Body := .empty
  deriving DecidableEq, Repr

/-- `GET product`, `GET product/$id` and `POST product`. -/
inductive Request
  | getProducts
  | getProduct (id : String)
  | postProduct (product : Product)
  deriving DecidableEq, Repr

inductive WorkloadType
  | read
  | write
  | ddos
  | mixed
  deriving DecidableEq, Repr

structure WorkloadConfiguration where
  readWorkloadRepeatCount : Int
  writeWorkloadRepeatCount : Int
  ddosWorkloadRepeatCount : Int
  mixedWorkloadRepeatCount : Int
  workloadCount : Int
  deriving DecidableEq, Repr

structure WorkloadSummary where
  getProductsCount : Int
  getProductCount : Int
  postProductCount : Int
  readCount : Int
  writeCount : Int
  ddosCount : Int
  mixedCount : Int
  workloadCount : Int
  deriving DecidableEq, Repr

/-- The `AtomicLong`s of the client. -/
inductive Counter
  | getProducts
  | getProduct
  | postProduct
  | read
  | write
  | ddos
  | mixed
  | workload
  deriving DecidableEq, Repr

inductive ClientOp
  | request (request : Request)
  | randomUUID
  | increment (counter : Counter)
  /-- An exception, after which there is no next operation. -/
  | fail
  deriving DecidableEq, Repr

def ClientOp.Result : ClientOp → Type
  | request _ => Response
  | randomUUID => String
  | increment _ => Unit
  | fail => Empty

abbrev Client := Program ClientOp ClientOp.Result

namespace Client

def request (r : Request) : Client Response :=
  Program.perform (ClientOp.request r)

def increment (counter : Counter) : Client Unit :=
  Program.perform (ClientOp.increment counter)

def randomUUID : Client String :=
  Program.perform ClientOp.randomUUID

/-- `Product.productsLens`, which throws if the body is something else. -/
def productsLens (response : Response) : Client (List Product) :=
  match response.body with
  | .products products => pure products
  | _ => .call .fail fun never => nomatch never

def getProducts : Client (List Product) := do
  let response ← request .getProducts
  let products ← productsLens response
  increment .getProducts
  pure products

def getProduct (id : String) : Client Response := do
  let response ← request (.getProduct id)
  increment .getProduct
  pure response

def postProduct (product : Product) : Client Response := do
  let response ← request (.postProduct product)
  increment .postProduct
  pure response

def generateProduct : Client Product := do
  let id ← randomUUID
  let name := "Product " ++ id
  pure { id := id, name := name }

def readWorkload : Client Unit := do
  let products ← getProducts
  Program.forEach products fun product => do
    let _ ← getProduct product.id
  increment .read

def writeWorkload : Client Unit := do
  let product ← generateProduct
  let _ ← postProduct product
  increment .write

def ddosWorkload : Client Unit := do
  Program.forEach (List.range 10) fun _ => do
    let _ ← getProducts
  increment .ddos

def mixedWorkload : Client Unit := do
  let _ ← getProducts
  let product ← generateProduct
  let _ ← postProduct product
  let _ ← getProduct product.id
  increment .mixed

end Client

def WorkloadType.workload : WorkloadType → Client Unit
  | read => Client.readWorkload
  | write => Client.writeWorkload
  | ddos => Client.ddosWorkload
  | mixed => Client.mixedWorkload

def WorkloadConfiguration.repeatCount (c : WorkloadConfiguration) : WorkloadType → Int
  | .read => c.readWorkloadRepeatCount
  | .write => c.writeWorkloadRepeatCount
  | .ddos => c.ddosWorkloadRepeatCount
  | .mixed => c.mixedWorkloadRepeatCount

structure Tally where
  counts : Counter → ℕ := fun _ => 0
  received : List (List Product) := []

/-- What an operation adds to the tally. -/
def Tally.after (op : ClientOp) (result : op.Result) (tally : Tally) : Tally :=
  match op, result with
  | .request .getProducts, (response : Response) =>
      match response.body with
      | .products products => { tally with received := tally.received ++ [products] }
      | _ => tally
  | .increment counter, _ =>
      { tally with counts := Function.update tally.counts counter (tally.counts counter + 1) }
  | _, _ => tally

/-- A coroutine started with `async`. -/
structure Task where
  kind : WorkloadType
  program : Client Unit
  tally : Tally := {}

/-- The task has returned. -/
def Task.isCompleted (t : Task) : Bool :=
  match t.program with
  | .ret _ => true
  | .call _ _ => false

def Task.isFailed (t : Task) : Bool :=
  match t.program with
  | .call .fail _ => true
  | _ => false

/-- Where `workload()` is: before the draw of the next type, before the next `async` of a type, at
`awaitAll`, or at its end. `round` counts the workloads that are behind it. -/
inductive MainPhase
  | drawing (round : ℕ)
  | launching (round : ℕ) (kind : WorkloadType) (launched : ℕ)
  | awaiting
  | returned (summary : WorkloadSummary)
  | failed
  deriving DecidableEq, Repr

structure State where
  counters : Counter → Int := fun _ => 0
  tasks : List Task := []
  /-- The types drawn so far. -/
  draws : List WorkloadType := []
  main : MainPhase := .drawing 0

namespace State

def incrementAndGet (counter : Counter) (counters : Counter → Int) : Counter → Int :=
  Function.update counters counter (long (counters counter + 1))

def summary (s : State) : WorkloadSummary where
  getProductsCount := s.counters .getProducts
  getProductCount := s.counters .getProduct
  postProductCount := s.counters .postProduct
  readCount := s.counters .read
  writeCount := s.counters .write
  ddosCount := s.counters .ddos
  mixedCount := s.counters .mixed
  workloadCount := s.counters .workload

/-- The next step of the coroutine of `workload()`, with the type that `nextWorkload` draws. -/
def mainStep (c : WorkloadConfiguration) (draw : WorkloadType) (s : State) : Option State :=
  match s.main with
  | .drawing round =>
      if round < c.workloadCount then
        some { s with draws := s.draws ++ [draw], main := .launching round draw 0 }
      else
        some { s with main := .awaiting }
  | .launching round kind launched =>
      if launched < c.repeatCount kind then
        some { s with
          tasks := s.tasks ++ [{ kind := kind, program := kind.workload }]
          main := .launching round kind (launched + 1) }
      else
        some { s with
          counters := incrementAndGet .workload s.counters
          main := .drawing (round + 1) }
  | .awaiting =>
      if s.tasks.any Task.isFailed then
        some { s with main := .failed }
      else if s.tasks.all Task.isCompleted then
        some { s with main := .returned s.summary }
      else
        none
  | .returned _ | .failed => none

end State

/-- What the handler answers and the id that is drawn, if the operation asks for one. -/
structure Choice where
  response : Response := { status := .OK }
  uuid : String := ""
  deriving DecidableEq, Repr

def ClientOp.result (choice : Choice) : (op : ClientOp) → Option op.Result
  | request _ => some choice.response
  | randomUUID => some choice.uuid
  | increment _ => some ()
  | fail => none

/-- What an operation does to the counters. -/
def ClientOp.count (op : ClientOp) (counters : Counter → Int) : Counter → Int :=
  match op with
  | increment counter => State.incrementAndGet counter counters
  | _ => counters

/-- The next operation of the task at the index. -/
def State.taskStep (k : ℕ) (choice : Choice) (s : State) : Option State := do
  let t ← s.tasks[k]?
  match t.program with
  | .ret _ => none
  | .call op next => do
      let result ← op.result choice
      let t' := { t with program := next result, tally := t.tally.after op result }
      some { s with counters := op.count s.counters, tasks := s.tasks.set k t' }

inductive Action
  | main (draw : WorkloadType)
  | task (k : ℕ) (choice : Choice)
  deriving DecidableEq, Repr

def step (c : WorkloadConfiguration) : Action → State → Option State
  | .main draw, s => s.mainStep c draw
  | .task k choice, s => s.taskStep k choice

end Renaissance.Http4k
