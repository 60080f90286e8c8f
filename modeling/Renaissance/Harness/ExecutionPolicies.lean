import Renaissance.Lib.JavaInt

/-!
# The built-in execution policies

The three classes of `ExecutionPolicies` as plain objects: each method is a function of the fields and
of the clock reading that it takes. Times are 64-bit and counts 32-bit integers.
-/

namespace Renaissance

open JavaInt

/-- `SECONDS.toNanos`, which saturates. -/
def secondsToNanos (seconds : Int) : Int :=
  max (-9223372036854775808) (min 9223372036854775807 (seconds * 1000000000))

structure FixedOpCount where
  countLimitProvider : String → Int
  countLimit : Int := 0

namespace FixedOpCount

def afterBenchmarkSetUp (policy : FixedOpCount) (benchName : String) : FixedOpCount :=
  { policy with countLimit := policy.countLimitProvider benchName }

def canExecute (policy : FixedOpCount) (opIndex : Int) : Bool :=
  opIndex < policy.countLimit

def isLast (policy : FixedOpCount) (opIndex : Int) : Bool :=
  int (opIndex + 1) = policy.countLimit

end FixedOpCount

structure FixedTime where
  runTimeNanos : Int
  endNanos : Int := 0
  elapsedCount : Int := 0

namespace FixedTime

def afterBenchmarkSetUp (policy : FixedTime) (nanoTime : Int) : FixedTime :=
  { policy with endNanos := long (nanoTime + policy.runTimeNanos), elapsedCount := 0 }

/-- The test that `beforeOperationTearDown` makes on its clock reading. -/
def elapsed (policy : FixedTime) (nanoTime : Int) : Bool :=
  nanoTime ≥ policy.endNanos

def beforeOperationTearDown (policy : FixedTime) (nanoTime : Int) : FixedTime :=
  { policy with
    elapsedCount := int (policy.elapsedCount + if policy.elapsed nanoTime then 1 else 0) }

def canExecute (policy : FixedTime) : Bool :=
  policy.elapsedCount ≤ 1

def isLast (policy : FixedTime) : Bool :=
  policy.elapsedCount = 1

end FixedTime

structure FixedOpTime where
  operationRunTimeNanos : Int
  remainingNanos : Int := 0
  elapsedCount : Int := 0

namespace FixedOpTime

def afterBenchmarkSetUp (policy : FixedOpTime) : FixedOpTime :=
  { policy with remainingNanos := policy.operationRunTimeNanos, elapsedCount := 0 }

/-- The test that `beforeOperationTearDown` makes after it has charged the operation. -/
def elapsed (policy : FixedOpTime) (durationNanos : Int) : Bool :=
  long (policy.remainingNanos - durationNanos) ≤ 0

def beforeOperationTearDown (policy : FixedOpTime) (durationNanos : Int) : FixedOpTime :=
  { policy with
    remainingNanos := long (policy.remainingNanos - durationNanos)
    elapsedCount := int (policy.elapsedCount + if policy.elapsed durationNanos then 1 else 0) }

def canExecute (policy : FixedOpTime) : Bool :=
  policy.elapsedCount ≤ 1

def isLast (policy : FixedOpTime) : Bool :=
  policy.elapsedCount = 1

end FixedOpTime

/-- The built-in policy instance of a harness run. -/
inductive BuiltinPolicy where
  | fixedOpCount (policy : FixedOpCount)
  | fixedTime (policy : FixedTime)
  | fixedOpTime (policy : FixedOpTime)

namespace BuiltinPolicy

def canExecute (opIndex : Int) : BuiltinPolicy → Bool
  | .fixedOpCount policy => policy.canExecute opIndex
  | .fixedTime policy => policy.canExecute
  | .fixedOpTime policy => policy.canExecute

def isLast (opIndex : Int) : BuiltinPolicy → Bool
  | .fixedOpCount policy => policy.isLast opIndex
  | .fixedTime policy => policy.isLast
  | .fixedOpTime policy => policy.isLast

end BuiltinPolicy

end Renaissance
