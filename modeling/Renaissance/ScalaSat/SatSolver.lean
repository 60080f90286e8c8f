import Mathlib.Data.List.Sort
import Mathlib.Logic.Function.Basic
import Renaissance.Lib.Clauses
import Renaissance.Lib.JavaCollections
import Renaissance.Lib.WhileLoop
import Renaissance.ScalaSat.FixedIntDoublePriorityQueue

/-!
# The SAT solver

The class `Solver` of `cafesat.sat`. A `Clause` is an object that several lists refer to, so it is a
reference into the table `clauses`. `none` is a failed assertion, an exception, or a loop that needs more
than `fuel` rounds.

The arrays are functions, and the stack `trail` is a list, so the bounds of the arrays are not modelled.
-/

namespace Renaissance.CafeSat

open Clauses JavaCollections WhileLoop
open JavaDouble (double toInt)

structure Literal where
  id : ℕ
  polarity : Bool
deriving DecidableEq

def Literal.polInt (lit : Literal) : ℕ :=
  if lit.polarity then 1 else 0

/-- `lit ^ 1` is `neg lit`, and `lit >> 1` is `lit / 2`. -/
structure Clause where
  lits : List ℕ
  activity : ℚ
  locked : Bool

abbrev ClauseRef := ℕ

inductive Status
  | satisfiable | unsatisfiable | conflict | unknown | timeout
deriving DecidableEq

inductive Result
  | satisfiable (model : List Bool)
  | unsatisfiable
  | unknown

structure CNFFormula where
  originalClauses : List ClauseRef
  nbVar : ℕ
  nbClauses : ℕ
  learntClauses : List ClauseRef
  nbLearntClauses : ℕ
  maxLearnt : ℕ
  vsidsInc : ℚ
  vsidsClauseInc : ℚ
  vsidsQueue : FixedIntDoublePriorityQueue

/-- The top of `trail` comes first. An entry of `model` that is `-1` is `none`. The counters are `Int`s in the
source: the model agrees with it for fewer than `2^31` calls of `solve`, with fewer than `2^31` conflicts
each. Later `nbSolveCalls` is negative, and `solve` does not reset the solver any more. -/
structure Solver where
  nbVars : ℕ
  clauses : ℕ → Clause
  nbObjects : ℕ
  nbConflicts : ℕ
  nbDecisions : ℕ
  nbSolveCalls : ℕ
  decisionLevel : ℤ
  trail : List ℕ
  qHead : ℕ
  reasons : ℕ → Option ClauseRef
  levels : ℕ → ℤ
  model : ℕ → Option Bool
  watched : ℕ → List ClauseRef
  incrementallyAddedClauses : List (List ℕ)
  learntClauses : List (List ℕ)
  seen : ℕ → Bool
  status : Status
  restartInterval : ℕ
  nextRestart : ℕ
  cnfFormula : Option CNFFormula
  conflict : Option ClauseRef
  assumptions : List ℕ

/-! The default settings. `timeout` is `None`, so that the status is never `Timeout`. -/
namespace Settings

def restartInterval : ℕ := 0
def restartFactor : ℚ := double 1.1

end Settings

namespace CNFFormula

def maxLearntFactor : ℚ := double 1.1
def vsidsDecay : ℚ := double (1 / double 0.95)
def vsidsClauseDecay : ℚ := double (1 / double 0.999)
def limit : ℚ := double (10 ^ 100)
def rescaleFactor : ℚ := double (1 / 10 ^ 100)

variable (f : CNFFormula)

def augmentMaxLearnt : CNFFormula :=
  { f with maxLearnt := (toInt (double (double (f.maxLearnt * maxLearntFactor) + 1))).toNat }

def rescaleVSIDS : CNFFormula :=
  { f with
    vsidsQueue := f.vsidsQueue.rescaleScores rescaleFactor
    vsidsInc := double (f.vsidsInc * rescaleFactor) }

def incVSIDS (id : ℕ) : Option CNFFormula := do
  let (vsidsQueue, newScore) ← f.vsidsQueue.incScore id f.vsidsInc
  let f := { f with vsidsQueue := vsidsQueue }
  pure (if limit < newScore then f.rescaleVSIDS else f)

def decayVSIDS : CNFFormula :=
  { f with vsidsInc := double (f.vsidsInc * vsidsDecay) }

def decayVSIDSClause : CNFFormula :=
  { f with vsidsClauseInc := double (f.vsidsClauseInc * vsidsClauseDecay) }

end CNFFormula

namespace Solver

def lits (s : Solver) (clause : ClauseRef) : List ℕ :=
  (s.clauses clause).lits

def setClause (s : Solver) (clause : ClauseRef) (value : Clause) : Solver :=
  { s with clauses := Function.update s.clauses clause value }

def setLits (s : Solver) (clause : ClauseRef) (lits : List ℕ) : Solver :=
  s.setClause clause { s.clauses clause with lits := lits }

def setLocked (s : Solver) (clause : ClauseRef) (locked : Bool) : Solver :=
  s.setClause clause { s.clauses clause with locked := locked }

def setActivity (s : Solver) (clause : ClauseRef) (activity : ℚ) : Solver :=
  s.setClause clause { s.clauses clause with activity := activity }

def setFormula (s : Solver) (f : CNFFormula) : Solver :=
  { s with cnfFormula := some f }

def setSeen (s : Solver) (seen : ℕ → Bool) : Solver :=
  { s with seen := seen }

/-- `new Clause(lits)`. -/
def newClause (s : Solver) (lits : List ℕ) : Solver × ClauseRef :=
  ({ s.setClause s.nbObjects ⟨lits, 0, false⟩ with nbObjects := s.nbObjects + 1 }, s.nbObjects)

section Model

variable (s : Solver) (lit : ℕ)

def isAssigned : Bool := (s.model (lit / 2)).isSome
def isUnassigned : Bool := (s.model (lit / 2)).isNone
def isSat : Bool := s.model (lit / 2) = some (decide (lit % 2 = 0))
def isUnsat : Bool := s.model (lit / 2) = some (decide (lit % 2 = 1))

end Model

section Watched

def watch (s : Solver) (lit : ℕ) (clause : ClauseRef) : Solver :=
  { s with watched := Function.update s.watched lit (s.watched lit ++ [clause]) }

def unwatch (s : Solver) (lit : ℕ) (clause : ClauseRef) : Solver :=
  { s with watched := Function.update s.watched lit ((s.watched lit).filter (· ≠ clause)) }

def recordClause (s : Solver) (clause : ClauseRef) : Option Solver :=
  match s.lits clause with
  | first :: second :: _ => some ((s.watch first clause).watch second clause)
  | _ => none

def unrecordClause (s : Solver) (clause : ClauseRef) : Option Solver :=
  match s.lits clause with
  | first :: second :: _ => some ((s.unwatch first clause).unwatch second clause)
  | _ => none

end Watched

/-- What `enqueueLiteral` does to a literal that is not assigned. -/
def assign (s : Solver) (lit : ℕ) (from' : Option ClauseRef) : Solver :=
  let s := { s with
    model := Function.update s.model (lit / 2) (some (lit % 2 = 0))
    trail := lit :: s.trail
    reasons := Function.update s.reasons (lit / 2) from'
    levels := Function.update s.levels (lit / 2) s.decisionLevel }
  match from' with
  | some clause => s.setLocked clause true
  | none => s

def enqueueLiteral (s : Solver) (lit : ℕ) (from' : Option ClauseRef) : Option Solver :=
  if s.model (lit / 2) = none then some (s.assign lit from') else none

section Activity

/-- The same for all learnt clauses, one after the other. -/
def rescaleVSIDSClause (s : Solver) (f : CNFFormula) : Solver × CNFFormula :=
  (f.learntClauses.foldl (fun s cl =>
      s.setActivity cl (double ((s.clauses cl).activity * CNFFormula.rescaleFactor))) s,
    { f with vsidsClauseInc := double (f.vsidsClauseInc * CNFFormula.rescaleFactor) })

def incVSIDSClause (s : Solver) (f : CNFFormula) (cl : ClauseRef) : Solver × CNFFormula :=
  let s := s.setActivity cl (double ((s.clauses cl).activity + f.vsidsClauseInc))
  if CNFFormula.limit < (s.clauses cl).activity then s.rescaleVSIDSClause f else (s, f)

end Activity

section Deduce

/-- The loop that looks for a literal to watch from the third position on. The literal comes with the
literals after `negatedLit` has taken its place. -/
def newWatcher (s : Solver) (negatedLit : ℕ) : List ℕ → Option (ℕ × List ℕ)
  | [] => none
  | l :: rest =>
      if s.isUnassigned l || s.isSat l then some (l, negatedLit :: rest)
      else (s.newWatcher negatedLit rest).map fun (watcher, rest) => (watcher, l :: rest)

inductive Visit
  | keep (s : Solver)
  | drop (s : Solver)
  | conflict (s : Solver)

/-- The clause is `first :: negatedLit :: rest`. -/
def moveWatch (s : Solver) (negatedLit : ℕ) (clause : ClauseRef) (first : ℕ) (rest : List ℕ) :
    Option Visit :=
  if s.isAssigned first && s.isSat first then some (.keep s)
  else
    match s.newWatcher negatedLit rest with
    | some (l, rest) => some (.drop ((s.setLits clause (first :: l :: rest)).watch l clause))
    | none =>
        if s.isUnassigned first then (s.enqueueLiteral first (some clause)).map .keep
        else if s.isUnsat first then
          if (s.lits clause).all s.isUnsat then
            some (.conflict { s with
              status := .conflict
              qHead := s.trail.length
              conflict := some clause })
          else none
        else some (.keep s)

/-- One round of the loop over the clauses that watch `negatedLit`: whether the clause stays in their
list. -/
def visit (s : Solver) (negatedLit : ℕ) (clause : ClauseRef) : Option Visit :=
  match s.lits clause with
  | lit₀ :: lit₁ :: rest =>
      if lit₁ = negatedLit then s.moveWatch negatedLit clause lit₀ rest
      else if lit₀ = negatedLit then
        (s.setLits clause (lit₁ :: negatedLit :: rest)).moveWatch negatedLit clause lit₁ rest
      else none
  | _ => none

/-- The loop over the clauses `ws` of `negatedLit`, where `kept` has been moved to the front. -/
def visitAll (negatedLit : ℕ) (kept : List ClauseRef) : List ClauseRef → Solver → Option Solver
  | [], s => some { s with watched := Function.update s.watched negatedLit kept }
  | clause :: ws, s => do
      match ← s.visit negatedLit clause with
      | .keep s => visitAll negatedLit (kept ++ [clause]) ws s
      | .drop s => visitAll negatedLit kept ws s
      | .conflict s => pure { s with watched := Function.update s.watched negatedLit (kept ++ clause :: ws) }

def deduceRound (s : Solver) : Option Solver := do
  -- the trail grows at its head here, and `qHead` counts from its other end
  let forcedLit ← s.trail.reverse[s.qHead]?
  let negatedLit := neg forcedLit
  if s.isAssigned negatedLit then
    visitAll negatedLit [] (s.watched negatedLit) { s with qHead := s.qHead + 1 }
  else none

def deduce (fuel : ℕ) (s : Solver) : Option Solver :=
  loop (fun s => s.qHead < s.trail.length) deduceRound fuel s

end Deduce

section Decide

/-- The body of the loop over the assumptions. -/
def nextAssumptionRound (s : Solver) : Option (Solver × Option ℕ) := do
  let p ← s.assumptions[s.decisionLevel.toNat]?
  if s.isSat p then
    -- an assumption that holds already gets a level of its own, without a literal
    pure ({ s with nbDecisions := s.nbDecisions + 1, decisionLevel := s.decisionLevel + 1 }, none)
  else if s.isUnsat p then pure ({ s with status := .unsatisfiable }, none)
  else pure (s, some p)

/-- The solver, and the next assumption to decide on. -/
def nextAssumption (fuel : ℕ) (s : Solver) : Option (Solver × Option ℕ) :=
  loop (fun (s, next) => s.decisionLevel < s.assumptions.length ∧ next = none ∧ s.status = .unknown)
    (fun (s, _) => s.nextAssumptionRound) fuel (s, none)

/-- The queue, and the last variable that was taken from it. -/
def nextVariable (fuel : ℕ) (s : Solver) (queue : FixedIntDoublePriorityQueue) :
    Option (FixedIntDoublePriorityQueue × ℕ) :=
  loop (fun (queue, next) => (s.model next).isSome && !queue.isEmpty) (fun (queue, _) => some queue.deleteMax)
    fuel queue.deleteMax

def decideOn (s : Solver) (lit : ℕ) : Option Solver :=
  { s with nbDecisions := s.nbDecisions + 1, decisionLevel := s.decisionLevel + 1 }.enqueueLiteral lit none

protected def decide (fuel : ℕ) (s : Solver) : Option Solver := do
  let f ← s.cnfFormula
  if f.vsidsQueue.isEmpty then pure { s with status := .satisfiable }
  else
    let (s, next) ← s.nextAssumption fuel
    if s.status = .unsatisfiable then pure s
    else
      match next with
      | some lit => s.decideOn lit
      | none =>
          let (queue, next) ← s.nextVariable fuel f.vsidsQueue
          let s := s.setFormula { f with vsidsQueue := queue }
          -- the polarity alternates from one decision to the next
          if s.model next = none then s.decideOn (2 * next + (s.nbDecisions + 1) % 2)
          else pure { s with status := .satisfiable }

end Decide

section Analysis

/-- The variables of `find1UIP`: `rest` is what is below `trailIndex`. -/
structure Find1UIP where
  solver : Solver
  learntClause : List ℕ
  p : Option ℕ
  c : ℕ
  rest : List ℕ
  confl : Option ClauseRef

/-- The loop over the literals of a clause. -/
def markLiterals : List ℕ → Find1UIP → Find1UIP
  | [], a => a
  | lit :: lits, a =>
      let lvl := a.solver.levels (lit / 2)
      if !a.solver.seen (lit / 2) ∧ 0 < lvl then
        let s := a.solver.setSeen (Function.update a.solver.seen (lit / 2) true)
        if lvl = s.decisionLevel then markLiterals lits { a with solver := s, c := a.c + 1 }
        else markLiterals lits { a with solver := s, learntClause := lit :: a.learntClause }
      else markLiterals lits a

/-- The loop that goes down to the next literal whose variable was seen. -/
def nextSeen (seen : ℕ → Bool) : List ℕ → Option (ℕ × List ℕ)
  | [] => none
  | p :: rest => if seen (p / 2) then some (p, rest) else nextSeen seen rest

def find1UIPRound (a : Find1UIP) : Option Find1UIP := do
  let confl ← a.confl
  let f ← a.solver.cnfFormula
  let lits := a.solver.lits confl
  if a.p = none ∨ a.p = lits.head? then
    let (s, f) := a.solver.incVSIDSClause f confl
    let s := s.setFormula f
    -- the first literal of a reason is the one that it has implied
    let a := markLiterals (if a.p = none then lits else lits.tail) { a with solver := s }
    let (p, rest) ← nextSeen a.solver.seen a.rest
    let s := a.solver.setSeen (Function.update a.solver.seen (p / 2) false)
    pure { a with solver := s, p := some p, c := a.c - 1, rest := rest, confl := s.reasons (p / 2) }
  else none

/-- The loop runs at least once, when there is no `p` yet. -/
def find1UIP (fuel : ℕ) (s : Solver) (conflict : ClauseRef) : Option Find1UIP :=
  loop (fun a => a.p = none ∨ 0 < a.c) find1UIPRound fuel ⟨s, [], none, 0, s.trail, some conflict⟩

def getAbstractLevel (s : Solver) (id : ℕ) : ℕ :=
  1 <<< ((s.levels id).toNat % 32)

/-- What `litRedundant` changes. -/
structure Marks where
  seen : ℕ → Bool
  toSetUnseen : List ℕ

structure LitRedundant where
  marks : Marks
  stack : List ℕ
  analyzeToclear : List ℕ
  res : Bool

def clear (seen : ℕ → Bool) (ids : List ℕ) : ℕ → Bool :=
  ids.foldl (fun seen id => Function.update seen id false) seen

/-- The body of the loop over the literals of a reason. -/
def examine (s : Solver) (root abstractLevel : ℕ) (a : LitRedundant) (l : ℕ) : LitRedundant :=
  let id := l / 2
  if id ≠ root ∧ a.res ∧ !a.marks.seen id ∧ 0 < s.levels id then
    if (s.reasons id).isSome ∧ s.getAbstractLevel id &&& abstractLevel ≠ 0 then
      { a with
        marks := ⟨Function.update a.marks.seen id true, l :: a.marks.toSetUnseen⟩
        stack := id :: a.stack
        analyzeToclear := id :: a.analyzeToclear }
    else
      { a with
        -- what this call has marked is not redundant either, and is cleared at once
        marks := ⟨clear a.marks.seen a.analyzeToclear, a.marks.toSetUnseen⟩
        analyzeToclear := []
        res := false }
  else a

def litRedundantRound (s : Solver) (root abstractLevel : ℕ) (a : LitRedundant) : Option LitRedundant := do
  let head ← a.stack.head?
  let reasonClause ← s.reasons head
  pure ((s.lits reasonClause).foldl (s.examine root abstractLevel) { a with stack := a.stack.tail })

def litRedundant (fuel : ℕ) (s : Solver) (root abstractLevel : ℕ) (marks : Marks) :
    Option (Bool × Marks) := do
  let a ← loop (fun a => !a.stack.isEmpty && a.res) (s.litRedundantRound root abstractLevel) fuel
    ⟨marks, [root], [], true⟩
  pure (a.res, a.marks)

/-- `learntClause.filterNot`. -/
def minimize (fuel : ℕ) (s : Solver) (absLevel : ℕ) : List ℕ → Marks → Option (List ℕ × Marks)
  | [], marks => some ([], marks)
  | lit :: lits, marks => do
      let (redundant, marks) ← if s.reasons (lit / 2) = none then pure (false, marks)
        else s.litRedundant fuel (lit / 2) absLevel marks
      let (kept, marks) ← minimize fuel s absLevel lits marks
      pure (if redundant then kept else lit :: kept, marks)

/-- The solver, and the literals of the learnt clause. -/
def conflictAnalysis (fuel : ℕ) (s : Solver) : Option (Solver × List ℕ) := do
  let conflict ← s.conflict
  let a ← find1UIP fuel { s with conflict := none } conflict
  let s := a.solver
  let p ← a.p
  if s.isAssigned p then
    let absLevel := a.learntClause.foldl (fun absLevel lit => absLevel ||| s.getAbstractLevel (lit / 2)) 0
    let (learntClause, marks) ← minimize fuel s absLevel a.learntClause ⟨s.seen, a.learntClause⟩
    let seen := clear marks.seen (marks.toSetUnseen.map (· / 2))
    -- above `trailIndex` a variable of the last level may still be marked
    let seen := clear seen ((s.trail.take (s.trail.length - a.rest.length)).map (· / 2))
    pure (s.setSeen seen, neg p :: learntClause)
  else none

end Analysis

section Backtrack

def undo (s : Solver) (lit : ℕ) : Option Solver := do
  if s.isSat lit then
    let f ← s.cnfFormula
    let id := lit / 2
    let s := { s with
      cnfFormula := some { f with vsidsQueue := f.vsidsQueue.insert id }
      model := Function.update s.model id none
      levels := Function.update s.levels id (-1) }
    match s.reasons id with
    | some reasonClause =>
        pure { s.setLocked reasonClause false with reasons := Function.update s.reasons id none }
    | none => pure s
  else none

def backtrackRound (lvl : ℤ) (s : Solver) : Option Solver :=
  match s.trail with
  | [] => none
  | head :: rest =>
      let decisionLevel := s.levels (head / 2)
      if lvl < decisionLevel then
        { s with trail := rest, decisionLevel := decisionLevel }.undo head
      -- the literal stays: only the level is read off it
      else some { s with decisionLevel := decisionLevel }

def backtrackTo (fuel : ℕ) (lvl : ℤ) (s : Solver) : Option Solver := do
  let s ← loop (fun s => lvl < s.decisionLevel ∧ s.trail ≠ []) (backtrackRound lvl) fuel s
  pure { s with qHead := s.trail.length, decisionLevel := lvl }

/-- The clauses that are not locked are forgotten, the others come back to the front of the list. -/
def forget : List ClauseRef → Solver → CNFFormula → Option (Solver × CNFFormula)
  | [], s, f => some (s, f)
  | cl :: forgotten, s, f =>
      if (s.clauses cl).locked then forget forgotten s { f with learntClauses := cl :: f.learntClauses }
      else do
        let s ← s.unrecordClause cl
        forget forgotten s { f with
          nbClauses := f.nbClauses - 1
          nbLearntClauses := f.nbLearntClauses - 1 }

def reduceLearntClauses (s : Solver) (f : CNFFormula) : Option (Solver × CNFFormula) :=
  let sorted := f.learntClauses.insertionSort fun cl₁ cl₂ =>
    (s.clauses cl₁).activity ≤ (s.clauses cl₂).activity
  forget (sorted.take (f.maxLearnt / 2)) s { f with learntClauses := sorted.drop (f.maxLearnt / 2) }

def learn (s : Solver) (f : CNFFormula) (clause : ClauseRef) : Option (Solver × CNFFormula) := do
  if 1 < (s.lits clause).length then
    let f := { f with
      learntClauses := clause :: f.learntClauses
      nbClauses := f.nbClauses + 1
      nbLearntClauses := f.nbLearntClauses + 1 }
    let f ← (s.lits clause).foldlM (fun f lit => f.incVSIDS (lit / 2)) f
    let (s, f) := s.incVSIDSClause f clause
    let s ← s.recordClause clause
    if f.maxLearnt < f.nbLearntClauses then s.reduceLearntClauses f else pure (s, f)
  else none

/-- The loop that brings a literal of the highest level to the second position. -/
def raiseSecond (levels : ℕ → ℤ) (second : ℕ) : List ℕ → ℕ × List ℕ
  | [] => (second, [])
  | l :: lits =>
      if levels (second / 2) < levels (l / 2) then
        let (last, rest) := raiseSecond levels l lits
        (last, second :: rest)
      else
        let (last, rest) := raiseSecond levels second lits
        (last, l :: rest)

/-- The literals after the loop, and the level to go back to. -/
def backtrackLevel (levels : ℕ → ℤ) : List ℕ → Option (List ℕ × ℤ)
  | [] => none
  | [lit] => some ([lit], 0)
  | lit :: second :: lits =>
      let (second, lits) := raiseSecond levels second lits
      some (lit :: second :: lits, levels (second / 2))

def modifyFormula (s : Solver) (f : CNFFormula → CNFFormula) : Solver :=
  { s with cnfFormula := s.cnfFormula.map f }

/-- After a restart only a learnt clause of one literal is used at once. -/
def restart (fuel : ℕ) (s : Solver) (learntClause : ClauseRef) (lits : List ℕ) : Option Solver := do
  let restartInterval := (toInt (double (s.restartInterval * Settings.restartFactor))).toNat
  let s := { s with restartInterval := restartInterval, nextRestart := s.nbConflicts + restartInterval }
  let s ← s.backtrackTo fuel 0
  let s ← if lits.length = 1 then do s.enqueueLiteral (← lits.head?) (some learntClause) else pure s
  pure (s.modifyFormula CNFFormula.augmentMaxLearnt)

def backjump (fuel : ℕ) (s : Solver) (learntClause : ClauseRef) (lits : List ℕ) (level : ℤ) :
    Option Solver := do
  if level < s.decisionLevel then
    let s ← s.backtrackTo fuel level
    s.enqueueLiteral (← lits.head?) (some learntClause)
  else none

def backtrack (fuel : ℕ) (s : Solver) : Option Solver := do
  if s.decisionLevel = 0 then pure { s with status := .unsatisfiable }
  else
    let s := { s with nbConflicts := s.nbConflicts + 1 }
    let s := s.modifyFormula fun f => f.decayVSIDS.decayVSIDSClause
    let (s, learntLits) ← s.conflictAnalysis fuel
    let (lits, level) ← backtrackLevel s.levels learntLits
    let (s, learntClause) := s.newClause lits
    let s ← if s.nbConflicts = s.nextRestart then s.restart fuel learntClause lits
      else s.backjump fuel learntClause lits level
    let f ← s.cnfFormula
    let (s, f) ← if 1 < lits.length then s.learn f learntClause else pure (s, f)
    pure { s.setFormula f with status := .unknown }

end Backtrack

section Search

/-- The body of `while(cont)`: deduce, and backtrack after a conflict. -/
def propagateRound (fuel : ℕ) (s : Solver) : Option (Solver × Bool) := do
  let s ← s.deduce fuel
  if s.status = .conflict then pure (← s.backtrack fuel, true) else pure (s, false)

def propagate (fuel : ℕ) (s : Solver) : Option Solver := do
  let (s, _) ← loop (fun (_, cont) => cont) (fun (s, _) => s.propagateRound fuel) fuel (s, true)
  pure s

def searchRound (fuel : ℕ) (s : Solver) : Option Solver := do
  (← s.decide fuel).propagate fuel

def search (fuel : ℕ) (s : Solver) : Option (Solver × Result) := do
  let s ← s.deduce fuel
  -- there is no decision yet that could be taken back
  let s := if s.status = .conflict then { s with status := .unsatisfiable } else s
  let s ← loop (fun s => s.status = .unknown) (searchRound fuel) fuel s
  match s.status with
  | .unknown | .conflict => none
  | .timeout => pure (s, .unknown)
  | .unsatisfiable => pure (s, .unsatisfiable)
  | .satisfiable => pure (s, .satisfiable ((List.range s.nbVars).map fun v => s.model v = some true))

end Search

section Clauses

/-- A new solver. -/
def initial (nbVars : ℕ) : Solver where
  nbVars := nbVars
  clauses _ := ⟨[], 0, false⟩
  nbObjects := 0
  nbConflicts := 0
  nbDecisions := 0
  nbSolveCalls := 0
  decisionLevel := 0
  trail := []
  qHead := 0
  reasons _ := none
  levels _ := -1
  model _ := none
  watched _ := []
  incrementallyAddedClauses := []
  learntClauses := []
  seen _ := false
  status := .unknown
  restartInterval := Settings.restartInterval
  nextRestart := Settings.restartInterval
  cnfFormula := none
  conflict := none
  assumptions := []

def resetSolver (s : Solver) : Solver :=
  { s with
    nbConflicts := 0
    nbDecisions := 0
    decisionLevel := 0
    trail := []
    qHead := 0
    reasons := fun _ => none
    levels := fun _ => -1
    model := fun _ => none
    watched := fun _ => []
    seen := fun _ => false
    status := .unknown
    restartInterval := Settings.restartInterval
    nextRestart := Settings.restartInterval }

variable (order : IterationOrder ℕ)

/-- The literals of a clause without repetitions, in the order of a hash-based set. -/
def litsUnique (lits : List ℕ) : List ℕ :=
  order.arrange lits.dedup

/-- Whether a variable occurs twice. -/
def isTautology (lits : List ℕ) : Bool :=
  lits.any fun l₁ => 1 < lits.countP fun l₂ => l₂ / 2 = l₁ / 2

/-- One clause of `initClauses`, with the clauses that are new so far. -/
def initClause (s : Solver) (newClauses : List ClauseRef) (lits : List ℕ) :
    Option (Solver × List ClauseRef) :=
  match litsUnique order lits with
  | [lit] =>
      match s.model (lit / 2) with
      | none => (s.enqueueLiteral lit none).map (·, newClauses)
      | some value =>
          -- odd literals are the negative ones, so this one is false
          if value = (lit % 2 = 1 : Bool) then some ({ s with status := .unsatisfiable }, newClauses)
          else some (s, newClauses)
  | litsUnique =>
      if isTautology litsUnique then some (s, newClauses)
      else
        let (s, clause) := s.newClause litsUnique
        some (s, clause :: newClauses)

def initClauseList : List (List ℕ) → Solver → List ClauseRef → Option (Solver × List ClauseRef)
  | [], s, newClauses => some (s, newClauses)
  | lits :: clauses, s, newClauses => do
      let (s, newClauses) ← s.initClause order newClauses lits
      initClauseList clauses s newClauses

/-- `new CNFFormula(newClauses, nbVars)`, with its requirements and `initVSIDS`. -/
def newFormula (s : Solver) (newClauses : List ClauseRef) : Option CNFFormula :=
  if newClauses.all (fun cl => (s.lits cl).all (· < 2 * s.nbVars)) ∧
      newClauses.all (fun cl => 2 ≤ (s.lits cl).length) ∧
      newClauses.all (fun cl => !isTautology (s.lits cl)) then do
    let queue ← (newClauses.flatMap s.lits).foldlM
      (fun queue lit => (FixedIntDoublePriorityQueue.incScore queue (lit / 2) 1).map Prod.fst)
      (FixedIntDoublePriorityQueue.initial s.nbVars)
    pure {
      originalClauses := newClauses
      nbVar := s.nbVars
      nbClauses := newClauses.length
      learntClauses := []
      nbLearntClauses := 0
      maxLearnt := newClauses.length / 3
      vsidsInc := 1
      vsidsClauseInc := 1
      vsidsQueue := queue }
  else none

def initClauses (clauses : List (List ℕ)) (s : Solver) : Option Solver := do
  let (s, newClauses) ← initClauseList order clauses s []
  let f ← s.newFormula newClauses
  newClauses.foldlM recordClause (s.setFormula f)

def addClause (s : Solver) (lits : List Literal) : Solver :=
  let lits := order.arrange (lits.map fun (lit : Literal) => 2 * lit.id + (1 - lit.polInt)).dedup
  { s with incrementallyAddedClauses := lits :: s.incrementallyAddedClauses }

/-- `clauses.foreach(s.addClause(_))`. -/
def addClauses (clauses : List (List Literal)) (s : Solver) : Solver :=
  clauses.foldl (fun s lits => s.addClause order lits) s

/-- How `solve` begins: a later call forgets all but the clauses. -/
def beginSolve (s : Solver) : Option Solver := do
  let s := { s with nbSolveCalls := s.nbSolveCalls + 1 }
  if 1 < s.nbSolveCalls then
    let f ← s.cnfFormula
    pure { s.resetSolver with learntClauses := f.learntClauses.map s.lits ++ s.learntClauses }
  else pure s

def solve (fuel : ℕ) (s : Solver) (assumps : List Literal) : Option (Solver × Result) := do
  let s ← s.beginSolve
  let s ← s.initClauses order (s.learntClauses ++ s.incrementallyAddedClauses)
  let s := { s with assumptions := assumps.map fun (lit : Literal) => neg (2 * lit.id + lit.polInt) }
  s.search fuel

end Clauses

end Solver

end Renaissance.CafeSat
