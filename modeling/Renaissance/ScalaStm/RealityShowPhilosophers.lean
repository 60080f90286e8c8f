import Mathlib.Data.List.OfFn
import Renaissance.Lib.JavaInt
import Renaissance.Lib.Transition

/-!
# The philosophers and their camera

`RealityShowPhilosophers.run` with `P` philosophers. A step is one atomic transaction together with
what its thread does on its own until the next one: a thread that only computes cannot be observed. A
transaction that calls `retry` has to wait, and a thread that was started but not scheduled yet is
before its first transaction, so the threads need no step for being started.

The camera keeps the snapshots that the source renders as texts.
-/

namespace Renaissance.RealityShowPhilosophers

open JavaInt

/-- The four `Ref`s of a `CameraController`. -/
structure CameraController where
  blockCount : Int := 0
  requestCount : Int := 0
  scanCount : Int := 0
  terminate : Bool := false
  deriving DecidableEq, Repr

namespace CameraController

def isBlockComplete (blockMealCount mealsEaten : Int) : Bool :=
  let blockMask := int (blockMealCount - 1)
  JavaInt.and mealsEaten blockMask == 0

def notifyBlockComplete (philosopherCount : Int) (c : CameraController) : CameraController :=
  let newBlockCount := int (c.blockCount + 1)
  if newBlockCount.tmod philosopherCount = 0 then
    { c with blockCount := newBlockCount, requestCount := int (c.requestCount + 1) }
  else
    { c with blockCount := newBlockCount }

def shutdown (c : CameraController) : CameraController :=
  { c with terminate := true }

/-- The index of the request and the controller after it, or `none` for `retry`. -/
def awaitRequest (c : CameraController) : Option (Int × CameraController) :=
  if c.scanCount < c.requestCount then
    some (c.scanCount, { c with scanCount := int (c.scanCount + 1) })
  else if c.terminate then
    -- Signal end of processing.
    some (-1, c)
  else
    none

end CameraController

/-- Where a `PhilosopherThread` is. `round` counts the iterations of its loop that are behind it; in
`reporting` it has to call `notifyBlockComplete` to end the current one. -/
inductive Phase
  | thinking (round : ℕ)
  | eating (round : ℕ)
  | reporting (round : ℕ)
  deriving DecidableEq, Repr

def Phase.round : Phase → ℕ
  | .thinking round | .eating round | .reporting round => round

def Phase.Eating : Phase → Prop
  | .eating _ => True
  | _ => False

instance (phase : Phase) : Decidable phase.Eating :=
  match phase with
  | .eating _ => isTrue trivial
  | .thinking _ | .reporting _ => isFalse id

/-- The thread has left its loop `for (_ <- 0 until meals)`. -/
def Phase.Finished (meals : Int) : Phase → Prop
  | .thinking round => ¬ round < meals
  | .eating _ | .reporting _ => False

instance (meals : Int) (phase : Phase) : Decidable (phase.Finished meals) :=
  match phase with
  | .thinking round => inferInstanceAs (Decidable (¬ (round : Int) < meals))
  | .eating _ | .reporting _ => isFalse id

/-- Where the `CameraThread` is: before `awaitRequest`, before `stateSnapshot`, or at its end. -/
inductive CameraPhase
  | awaiting
  | scanning
  | ended
  deriving DecidableEq, Repr

/-- The owners of the forks and the meals eaten. -/
abbrev Snapshot := List (Option String) × List Int

/-- Where `run` is: at the `join` of the philosophers, at the `join` of the camera, or at its end. -/
inductive MainPhase
  | joiningPhilosophers
  | joiningCamera
  | returned (result : Snapshot × ℕ)
  deriving DecidableEq, Repr

structure State (P : ℕ) where
  owner : Fin P → Option String := fun _ => none
  mealsEaten : Fin P → Int := fun _ => 0
  phase : Fin P → Phase := fun _ => .thinking 0
  controller : CameraController := {}
  camera : CameraPhase := .awaiting
  images : List Snapshot := []
  main : MainPhase := .joiningPhilosophers

inductive Action (P : ℕ)
  | philosopher (i : Fin P)
  | camera
  | main
  deriving DecidableEq, Repr

variable {P : ℕ}

/-- The fork `forks(i)`. -/
def left (i : Fin P) : Fin P :=
  i

/-- The fork `forks((i + 1) % forks.length)`. -/
def right (i : Fin P) : Fin P :=
  ⟨(i + 1) % P, Nat.mod_lt _ i.pos⟩

def name (i : Fin P) : String :=
  "philosopher-" ++ toString i.val

namespace State

def stateSnapshot (s : State P) : Snapshot :=
  (List.ofFn s.owner, List.ofFn s.mealsEaten)

/-- The first transaction of an iteration. -/
def takeForks (i : Fin P) (round : ℕ) (s : State P) : Option (State P) :=
  if (s.owner (left i)).isNone ∧ (s.owner (right i)).isNone then
    let taken := Function.update s.owner (left i) (some (name i))
    some { s with
      owner := Function.update taken (right i) (some (name i))
      phase := Function.update s.phase i (.eating round) }
  else
    none

/-- The second transaction of an iteration and the test for a complete block. -/
def eat (blockMealCount : Int) (i : Fin P) (round : ℕ) (s : State P) : State P :=
  let newMealsEaten := int (s.mealsEaten i + 1)
  let next : Phase :=
    if CameraController.isBlockComplete blockMealCount newMealsEaten then .reporting round
    else .thinking (round + 1)
  { s with
    owner := Function.update (Function.update s.owner (left i) none) (right i) none
    mealsEaten := Function.update s.mealsEaten i newMealsEaten
    phase := Function.update s.phase i next }

def report (i : Fin P) (round : ℕ) (s : State P) : State P :=
  { s with
    controller := s.controller.notifyBlockComplete P
    phase := Function.update s.phase i (.thinking (round + 1)) }

/-- The next transaction of `PhilosopherThread.run`. -/
def philosopher (mealCount blockMealCount : Int) (i : Fin P) (s : State P) : Option (State P) :=
  match s.phase i with
  | .thinking round => if round < mealCount then s.takeForks i round else none
  | .eating round => some (s.eat blockMealCount i round)
  | .reporting round => some (s.report i round)

/-- The next transaction of `CameraThread.run`. -/
def cameraStep (s : State P) : Option (State P) :=
  match s.camera with
  | .awaiting =>
      s.controller.awaitRequest.map fun (request, controller) =>
        { s with
          controller := controller
          camera := if request ≥ 0 then .scanning else .ended }
  | .scanning => some { s with images := s.images ++ [s.stateSnapshot], camera := .awaiting }
  | .ended => none

/-- The rest of `run` after it has started the threads. -/
def mainStep (mealCount : Int) (s : State P) : Option (State P) :=
  match s.main with
  | .joiningPhilosophers =>
      if ∀ i, (s.phase i).Finished mealCount then
        some { s with controller := s.controller.shutdown, main := .joiningCamera }
      else
        none
  | .joiningCamera =>
      if s.camera = .ended then
        some { s with main := .returned (s.stateSnapshot, s.images.length) }
      else
        none
  | .returned _ => none

end State

def step (mealCount blockMealCount : Int) : Action P → State P → Option (State P)
  | .philosopher i, s => s.philosopher mealCount blockMealCount i
  | .camera, s => s.cameraStep
  | .main, s => s.mainStep mealCount

end Renaissance.RealityShowPhilosophers
