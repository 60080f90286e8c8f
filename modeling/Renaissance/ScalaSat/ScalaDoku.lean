import Mathlib.Data.List.Range
import Renaissance.Lib.Propositional

/-!
# The Sudoku solver

`Solver.solve` with the function `solveForSatisfiability` of the SAT solver as a parameter. An array
that is read at an index it does not have throws, and so does `require`.
-/

namespace Renaissance.ScalaDoku

open Propositional

/-- The range `a to b`. -/
def upTo (a b : ℕ) : List ℕ :=
  List.range' a (b + 1 - a)

/-- The element `xs(r)(c)`, if there is one. -/
def cell {α : Type} (xs : List (List α)) (r c : ℕ) : Option α :=
  xs[r]?.bind fun row => row[c]?

/-- The variable `vars(r)(c)(k)`. Each call of `propVar()` makes a new one, in the order of the slots
and of the digits of a slot. -/
def vars (r c k : ℕ) : ℕ :=
  81 * r + 9 * c + k

def propVar (r c k : ℕ) : Formula ℕ :=
  .var (vars r c k)

/-- The clause `!a || !b`. -/
def notBoth (a b : Formula ℕ) : Formula ℕ :=
  .or [.not a, .not b]

def onePerEntry : List (Formula ℕ) :=
  (upTo 0 8).flatMap fun r => (upTo 0 8).map fun c => .or ((upTo 0 8).map (propVar r c))

def uniqueInGrid1 : List (Formula ℕ) :=
  (upTo 0 8).flatMap fun k => (upTo 0 2).flatMap fun i => (upTo 0 2).flatMap fun j =>
    (upTo 0 2).flatMap fun r => (upTo 0 1).flatMap fun c1 => (upTo (c1 + 1) 2).map fun c2 =>
      notBoth (propVar (3 * i + r) (3 * j + c1) k) (propVar (3 * i + r) (3 * j + c2) k)

def uniqueInGrid2 : List (Formula ℕ) :=
  (upTo 0 8).flatMap fun k => (upTo 0 2).flatMap fun i => (upTo 0 2).flatMap fun j =>
    (upTo 0 2).flatMap fun r1 => (upTo 0 2).flatMap fun c1 => (upTo 0 2).flatMap fun c2 =>
      (upTo (r1 + 1) 2).map fun r2 =>
        notBoth (propVar (3 * i + r1) (3 * j + c1) k) (propVar (3 * i + r2) (3 * j + c2) k)

def uniqueInColumns : List (Formula ℕ) :=
  (upTo 0 8).flatMap fun c => (upTo 0 8).flatMap fun k => (upTo 0 7).flatMap fun r1 =>
    (upTo (r1 + 1) 8).map fun r2 => notBoth (propVar r1 c k) (propVar r2 c k)

def uniqueInRows : List (Formula ℕ) :=
  (upTo 0 8).flatMap fun r => (upTo 0 8).flatMap fun k => (upTo 0 7).flatMap fun c1 =>
    (upTo (c1 + 1) 8).map fun c2 => notBoth (propVar r c1 k) (propVar r c2 k)

/-- The given entries with their slots. -/
def givenEntries (sudoku : List (List (Option Int))) : List (ℕ × ℕ × Int) :=
  (upTo 0 8).flatMap fun r => (upTo 0 8).filterMap fun c =>
    (cell sudoku r c).join.map fun digit => (r, c, digit)

/-- `or(vars(r)(c)(digit - 1))`. -/
def forcedEntry : ℕ × ℕ × Int → Except String (Formula ℕ)
  | (r, c, digit) =>
      if 0 ≤ digit - 1 ∧ digit - 1 < 9 then .ok (.or [propVar r c (digit - 1).toNat])
      else .error "ArrayIndexOutOfBoundsException"

def forcedEntries (sudoku : List (List (Option Int))) : Except String (List (Formula ℕ)) :=
  (givenEntries sudoku).mapM forcedEntry

def indexWhere {α : Type} (xs : List α) (p : α → Bool) : Int :=
  match xs.findIdx? p with
  | some i => i
  | none => -1

/-- The digit of each slot. -/
def decode (model : ℕ → Bool) : List (List Int) :=
  (upTo 0 8).map fun r => (upTo 0 8).map fun c =>
    indexWhere ((upTo 0 8).map (vars r c)) (fun v => model v) + 1

def solve (solveForSatisfiability : Formula ℕ → Option (ℕ → Bool))
    (sudoku : List (List (Option Int))) : Except String (Option (List (List Int))) :=
  if sudoku.length = 9 ∧ ∀ row ∈ sudoku, row.length = 9 then do
    let forcedEntries ← forcedEntries sudoku
    let allConstraints := onePerEntry ++ uniqueInColumns ++ uniqueInRows ++ uniqueInGrid1 ++
      uniqueInGrid2 ++ forcedEntries
    .ok ((solveForSatisfiability (.and allConstraints)).map decode)
  else
    .error "requirement failed"

end Renaissance.ScalaDoku
