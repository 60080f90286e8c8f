import Renaissance.Http4k.WorkloadClient

/-!
# The workload server

The handlers of the `WorkloadServer` are programs over the operations of its `ConcurrentHashMap`, which
are atomic. With them in the place of its requests, a workload becomes a program over the map, and
`step` interleaves any number of these: between two operations of one handler, other handlers run.

The iteration over `products.values` is only weakly consistent: it may return any entries that were
present at some moment.
-/

namespace Renaissance.Http4k

inductive ServerOp
  | contains (id : String)
  | get (id : String)
  | put (id : String) (product : Product)
  | values
  /-- `error("Invariant error: Product $it should be present")` -/
  | invariantError (request : Request)
  /-- The client receives the response to its request. -/
  | answer (request : Request) (response : Response)
  | randomUUID
  | increment (counter : Counter)
  | fail
  deriving DecidableEq, Repr

def ServerOp.Result : ServerOp → Type
  | contains _ => Bool
  | get _ => Option Product
  | values => List Product
  | put _ _ | answer _ _ | increment _ => Unit
  | randomUUID => String
  | invariantError _ | fail => Empty

abbrev Server := Program ServerOp ServerOp.Result

/-- The path parameter `id`. -/
def Request.path : Request → Option String
  | getProduct id => some id
  | getProducts | postProduct _ => none

namespace Server

def contains (id : String) : Server Bool :=
  Program.perform (ServerOp.contains id)

def get (id : String) : Server (Option Product) :=
  Program.perform (ServerOp.get id)

def put (id : String) (product : Product) : Server Unit :=
  Program.perform (ServerOp.put id product)

def values : Server (List Product) :=
  Program.perform ServerOp.values

/-- The handler behind `"/product/{id}" bind Method.GET`. -/
def getProduct (request : Request) : Server Response :=
  match request.path with
  | none => pure { status := .BAD_REQUEST }
  | some id => do
      if !(← contains id) then
        pure { status := .NOT_FOUND }
      else
        match ← get id with
        | some product => pure { status := .OK, body := .product product }
        | none => .call (.invariantError request) fun never => nomatch never

/-- The routes. -/
def app : Request → Server Response
  | .getProducts => do
      let products ← values
      pure { status := .OK, body := .products products }
  | .getProduct id => getProduct (.getProduct id)
  | .postProduct product => do
      put product.id product
      pure { status := .CREATED }

/-- What becomes of an operation of the client. -/
def serve : (op : ClientOp) → Server op.Result
  | .request request => do
      let response ← app request
      Program.perform (ServerOp.answer request response)
      pure response
  | .randomUUID => Program.perform ServerOp.randomUUID
  | .increment counter => Program.perform (ServerOp.increment counter)
  | .fail => .call .fail fun never => nomatch never

structure State where
  products : String → Option Product := fun _ => none
  /-- The entries that were present at some moment. -/
  past : List Product := []
  tasks : List (Server Unit) := []
  answers : List (Request × Response) := []

/-- The entries that an iteration sees and the id that is drawn, if the operation asks for one. -/
structure Choice where
  products : List Product := []
  uuid : String := ""
  deriving DecidableEq, Repr

end Server

def ServerOp.result (choice : Server.Choice) (s : Server.State) : (op : ServerOp) → Option op.Result
  | contains id => some (s.products id).isSome
  | get id => some (s.products id)
  | put _ _ | answer _ _ | increment _ => some ()
  | values => if ∀ p ∈ choice.products, p ∈ s.past then some choice.products else none
  | randomUUID => some choice.uuid
  | invariantError _ | fail => none

def ServerOp.effect (op : ServerOp) (s : Server.State) : Server.State :=
  match op with
  | put id product => { s with
      products := Function.update s.products id (some product)
      past := s.past ++ [product] }
  | answer request response => { s with answers := s.answers ++ [(request, response)] }
  | _ => s

namespace Server

def State.taskStep (k : ℕ) (choice : Choice) (s : State) : Option State := do
  match ← s.tasks[k]? with
  | .ret _ => none
  | .call op next => do
      let result ← op.result choice s
      let s' := op.effect s
      some { s' with tasks := s'.tasks.set k (next result) }

inductive Action
  | launch (kind : WorkloadType)
  | task (k : ℕ) (choice : Choice)
  deriving DecidableEq, Repr

def step : Action → State → Option State
  | .launch kind, s => some { s with tasks := s.tasks ++ [Program.interpret serve kind.workload] }
  | .task k choice, s => s.taskStep k choice

end Server

end Renaissance.Http4k
