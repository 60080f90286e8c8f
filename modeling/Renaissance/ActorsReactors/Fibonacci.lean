import Mathlib.Data.Nat.Fib.Basic
import Renaissance.Lib.JavaInt
import Renaissance.Lib.Reactors

/-!
# Fibonacci

`Fibonacci.run` computes a Fibonacci number with a reactor for every call of `fib`, and
`computeExpected` computes it with a loop. A reactor is named by the calls that lead to it.
-/

namespace Renaissance.Fibonacci

open JavaInt Reactors Transition

/-- The reactor that gets the result, and one for every call of `fib`: the last call comes first in the
path, `false` for the argument `n - 1` and `true` for `n - 2`. -/
inductive Reactor
  | root
  | node (path : List Bool)
  deriving DecidableEq, Repr

/-- The arguments and variables of a reactor. -/
inductive Memory
  | root (sz : ℕ)
  | fib (parent : Reactor) (n : ℕ) (sum recv : Int)
  deriving DecidableEq, Repr

abbrev Op := Reactors.Op Reactor Memory Int Int

abbrev State := Reactors.State Reactor Memory Int Int

abbrev Process := Reactors.Process Reactor Memory Int Int

/-- `fib(parent, n)`, with the path of the new reactor. -/
def fib (path : List Bool) (parent : Reactor) (n : ℕ) : Op :=
  .spawn (.node path) (.fib parent n 0 0)

def body : Reactor → Memory → List Op
  | .root, .root sz => [fib [] .root sz]
  | .node path, .fib parent n _ _ =>
      match n with
      | 0 => [.send parent 0, .sealChannel]
      | 1 => [.send parent 1, .sealChannel]
      | n + 2 => [fib (false :: path) (.node path) (n + 1), fib (true :: path) (.node path) n]
  | _, _ => []

/-- A reactor for the argument `0` or `1` installs no handler. -/
def handle : Reactor → Memory → Int → Memory × List Op
  | .root, memory, x => (memory, [.complete x, .sealChannel])
  | .node _, .fib parent (n + 2) sum recv, x =>
      let sum := int (sum + x)
      let recv := int (recv + 1)
      (.fib parent (n + 2) sum recv, if recv = 2 then [.send parent sum, .sealChannel] else [])
  | .node _, memory, _ => (memory, [])

def code : Code Reactor Memory Int Int where
  body := body
  handle := handle

/-- The reactor that gets the result is spawned. -/
def start (sz : ℕ) : State where
  process
    | .root => { memory := .root sz, todo := body .root (.root sz) }
    | .node _ => { memory := .root 0 }
  live := {.root}

def computeWithTail : ℕ → Int → Int → Int
  | 0, one, _ => one
  | n + 1, one, two => computeWithTail n two (int (one + two))

def computeExpected (sz : ℕ) : Int :=
  computeWithTail sz 0 1

/-! ## The expected value -/

/-- The Fibonacci number in 32 bits. -/
def value (n : ℕ) : Int :=
  int (Nat.fib n)

theorem value_add_two (n : ℕ) : int (value n + value (n + 1)) = value (n + 2) := by
  unfold value
  rw [int, wrap_wrap_add, add_comm, wrap_wrap_add, Nat.fib_add_two, add_comm]
  push_cast
  rfl

theorem computeWithTail_value (n k : ℕ) :
    computeWithTail n (value k) (value (k + 1)) = value (n + k) := by
  induction n generalizing k with
  | zero => rw [Nat.zero_add]; rfl
  | succ n ih =>
      rw [computeWithTail, value_add_two, ih, Nat.add_right_comm]
      rfl

theorem value_zero : value 0 = 0 :=
  int_eq_self (by decide) (by decide)

theorem value_one : value 1 = 1 :=
  int_eq_self (by decide) (by decide)

theorem computeExpected_eq (sz : ℕ) : computeExpected sz = value sz := by
  have whole := computeWithTail_value sz 0
  rwa [value_zero, value_one] at whole

/-! ## What a reactor has done -/

/-- What a reactor of `fib` is doing. -/
inductive Status
  | absent
  /-- It has no child, one child or both, and collects. -/
  | bare
  | single
  | collecting
  /-- It sends the sum, seals its channel, and is done. -/
  | sending
  | sealing
  | done
  deriving DecidableEq, Repr

/-- `1` for a reactor that still has to send its sum. -/
def Status.owed : Status → ℕ
  | .sealing | .done => 0
  | _ => 1

/-- The argument of the reactor. -/
def arg (sz : ℕ) : List Bool → ℕ
  | [] => sz
  | false :: path => arg sz path - 1
  | true :: path => arg sz path - 2

/-- The channel that the reactor sends its sum to. -/
def parent : List Bool → Reactor
  | [] => .root
  | _ :: path => .node path

/-- The messages that were received, that wait and that are owed are two, and their sum is right. -/
structure Account (n owed₁ owed₂ : ℕ) (sum : Int) (recv : ℕ) (queue : List Int) : Prop where
  count : recv + queue.length + owed₁ + owed₂ = 2
  total : int (sum + queue.sum + owed₁ * value (n - 1) + owed₂ * value (n - 2)) = value n
  wrapped : int sum = sum

/-- The children of a reactor that has its sum: a leaf has none, and other ones have sent theirs. -/
def Settled (n : ℕ) (child₁ child₂ : Status) : Prop :=
  if n < 2 then child₁ = .absent ∧ child₂ = .absent else child₁.owed = 0 ∧ child₂.owed = 0

/-- The operations, the memory and the channel of a reactor with the argument `n`, with what its
children are doing. -/
inductive Shape (n : ℕ) (path : List Bool) (child₁ child₂ : Status) (r : Process) : Status → Prop
  | absent : r.todo = [] → r.queue = [] → r.isSealed = false → child₁ = .absent →
      child₂ = .absent → Shape n path child₁ child₂ r .absent
  | bare : 2 ≤ n → r.memory = .fib (parent path) n 0 (0 : ℕ) →
      r.todo = [fib (false :: path) (.node path) (n - 1), fib (true :: path) (.node path) (n - 2)] →
      r.isSealed = false → child₁ = .absent → child₂ = .absent →
      Account n child₁.owed child₂.owed 0 0 r.queue → Shape n path child₁ child₂ r .bare
  | single : 2 ≤ n → r.memory = .fib (parent path) n 0 (0 : ℕ) →
      r.todo = [fib (true :: path) (.node path) (n - 2)] →
      r.isSealed = false → child₁ ≠ .absent → child₂ = .absent →
      Account n child₁.owed child₂.owed 0 0 r.queue → Shape n path child₁ child₂ r .single
  | collecting (sum : Int) (recv : ℕ) : 2 ≤ n → r.memory = .fib (parent path) n sum recv →
      r.todo = [] → r.isSealed = false → child₁ ≠ .absent → child₂ ≠ .absent → recv < 2 →
      Account n child₁.owed child₂.owed sum recv r.queue → Shape n path child₁ child₂ r .collecting
  | sending : r.todo = [.send (parent path) (value n), .sealChannel] → r.isSealed = false →
      r.queue = [] → Settled n child₁ child₂ → Shape n path child₁ child₂ r .sending
  | sealing : r.todo = [.sealChannel] → r.queue = [] → Settled n child₁ child₂ →
      Shape n path child₁ child₂ r .sealing
  | done : r.todo = [] → r.queue = [] → Settled n child₁ child₂ → Shape n path child₁ child₂ r .done

/-- What the reactor that gets the result is doing, with the values of the promise. -/
inductive RootShape (sz : ℕ) (child : Status) (r : Process) : List Int → Prop
  | spawning : r.todo = [fib [] .root sz] → r.queue = [] → r.isSealed = false → r.handled = 0 →
      child = .absent → RootShape sz child r []
  | waiting : r.todo = [] → r.queue = [] → r.isSealed = false → r.handled = 0 → child ≠ .absent →
      child.owed = 1 → RootShape sz child r []
  | called : r.todo = [] → r.queue = [value sz] → r.isSealed = false → r.handled = 0 →
      child.owed = 0 → RootShape sz child r []
  | completing : r.todo = [.complete (value sz), .sealChannel] → r.queue = [] → child.owed = 0 →
      RootShape sz child r []
  | sealing : r.todo = [.sealChannel] → r.queue = [] → child.owed = 0 →
      RootShape sz child r [value sz]
  | done : r.todo = [] → r.queue = [] → child.owed = 0 → RootShape sz child r [value sz]

/-- The tree of the reactors with what they are doing. -/
structure Tree (sz : ℕ) (s : State) (status : List Bool → Status) : Prop where
  root : RootShape sz (status []) (s.process .root) s.completed
  node : ∀ path, Shape (arg sz path) path (status (false :: path)) (status (true :: path))
    (s.process (.node path)) (status path)
  live : .root ∈ s.live ∧ ∀ path, .node path ∈ s.live ↔ status path ≠ .absent
  dropped : s.dropped = []

def Invariant (sz : ℕ) (s : State) : Prop :=
  ∃ status, Tree sz s status

theorem Invariant.start (sz : ℕ) : Invariant sz (start sz) := by
  refine ⟨fun _ => .absent, .spawning rfl rfl rfl rfl rfl, fun _ => .absent rfl rfl rfl rfl rfl,
    ⟨Finset.mem_singleton_self _, fun path => ?_⟩, rfl⟩
  simp [Fibonacci.start]

/-! ## What does not change -/

section Frame

variable {sz n : ℕ} {path : List Bool} {child child' child₁ child₁' child₂ child₂' new : Status}
  {r : Process} {completed : List Int} {s : State} {status : List Bool → Status}

/-- A parent does not see the difference. -/
def Same (old new : Status) : Prop :=
  (old = .absent ↔ new = .absent) ∧ old.owed = new.owed

theorem Same.refl (old : Status) : Same old old :=
  ⟨Iff.rfl, rfl⟩

theorem Settled.congr (settled : Settled n child₁ child₂) (same₁ : Same child₁ child₁')
    (same₂ : Same child₂ child₂') : Settled n child₁' child₂' := by
  unfold Settled at settled ⊢
  rwa [← same₁.1, ← same₂.1, ← same₁.2, ← same₂.2]

theorem Shape.congr (shape : Shape n path child₁ child₂ r new) (same₁ : Same child₁ child₁')
    (same₂ : Same child₂ child₂') : Shape n path child₁' child₂' r new := by
  cases shape with
  | absent idle empty opened none₁ none₂ =>
      exact .absent idle empty opened (same₁.1.mp none₁) (same₂.1.mp none₂)
  | bare inner memory todo opened none₁ none₂ account =>
      rw [same₁.2, same₂.2] at account
      exact .bare inner memory todo opened (same₁.1.mp none₁) (same₂.1.mp none₂) account
  | single inner memory todo opened some₁ none₂ account =>
      rw [same₁.2, same₂.2] at account
      exact .single inner memory todo opened (mt same₁.1.mpr some₁) (same₂.1.mp none₂) account
  | collecting sum recv inner memory todo opened some₁ some₂ more account =>
      rw [same₁.2, same₂.2] at account
      exact .collecting sum recv inner memory todo opened (mt same₁.1.mpr some₁) (mt same₂.1.mpr some₂)
        more account
  | sending todo opened empty settled => exact .sending todo opened empty (settled.congr same₁ same₂)
  | sealing todo empty settled => exact .sealing todo empty (settled.congr same₁ same₂)
  | done idle empty settled => exact .done idle empty (settled.congr same₁ same₂)

theorem RootShape.congr (shape : RootShape sz child r completed) (same : Same child child') :
    RootShape sz child' r completed := by
  cases shape with
  | spawning todo empty opened fresh none => exact .spawning todo empty opened fresh (same.1.mp none)
  | waiting todo empty opened fresh some owed =>
      exact .waiting todo empty opened fresh (mt same.1.mpr some) (same.2 ▸ owed)
  | called todo queue opened fresh owed => exact .called todo queue opened fresh (same.2 ▸ owed)
  | completing todo empty owed => exact .completing todo empty (same.2 ▸ owed)
  | sealing todo empty owed => exact .sealing todo empty (same.2 ▸ owed)
  | done todo empty owed => exact .done todo empty (same.2 ▸ owed)

theorem same_update (same : Same (status path) new) (other : List Bool) :
    Same (status other) (Function.update status path new other) := by
  by_cases here : other = path
  · subst here
    rwa [Function.update_self]
  · rw [Function.update_of_ne here]
    exact Same.refl _

theorem update_cons {b : Bool} : Function.update status path new (b :: path) = status (b :: path) :=
  Function.update_of_ne (List.cons_ne_self b path) ..

/-- A reactor that only changes itself. -/
theorem Tree.own (tree : Tree sz s status) (same : Same (status path) new)
    (shape : Shape (arg sz path) path (status (false :: path)) (status (true :: path)) r new) :
    Tree sz (s.set (.node path) r) (Function.update status path new) where
  root := by
    rw [State.set_process_of_ne _ _ (by simp)]
    exact tree.root.congr (same_update same [])
  node other := by
    by_cases here : other = path
    · subst here
      rwa [State.set_process_self, Function.update_self, update_cons, update_cons]
    · rw [State.set_process_of_ne _ _ (by simpa using here), Function.update_of_ne here]
      exact (tree.node other).congr (same_update same _) (same_update same _)
  live := by
    refine ⟨tree.live.1, fun other => ?_⟩
    rw [State.set_live, tree.live.2 other, not_iff_not]
    exact (same_update same other).1
  dropped := tree.dropped

end Frame

/-! ## One turn -/

section Turns

variable {sz n o₁ o₂ recv : ℕ} {path : List Bool} {child₁ child₂ new : Status} {sum : Int}
  {queue : List Int} {r : Process} {s s' : State} {status : List Bool → Status}

/-- What a new reactor is doing. -/
def newborn (n : ℕ) : Status :=
  if n < 2 then .sending else .bare

theorem newborn_owed (n : ℕ) : (newborn n).owed = 1 := by
  unfold newborn
  split <;> rfl

theorem newborn_ne_absent (n : ℕ) : newborn n ≠ .absent := by
  unfold newborn
  split <;> simp

/-- A new reactor has nothing yet. -/
theorem Account.start (inner : 2 ≤ n) : Account n 1 1 0 0 [] where
  count := rfl
  total := by
    obtain ⟨k, rfl⟩ := Nat.exists_eq_add_of_le' inner
    rw [← value_add_two k]
    simp [add_comm]
  wrapped := rfl

/-- The message of the first child arrives. -/
theorem Account.first (account : Account n 1 o₂ sum recv queue) :
    Account n 0 o₂ sum recv (queue ++ [value (n - 1)]) where
  count := by
    have := account.count
    rw [List.length_append, List.length_singleton]
    omega
  total := by
    rw [← account.total, List.sum_append, List.sum_singleton]
    congr 1
    push_cast
    ring
  wrapped := account.wrapped

/-- The message of the second child arrives. -/
theorem Account.second (account : Account n o₁ 1 sum recv queue) :
    Account n o₁ 0 sum recv (queue ++ [value (n - 2)]) where
  count := by
    have := account.count
    rw [List.length_append, List.length_singleton]
    omega
  total := by
    rw [← account.total, List.sum_append, List.sum_singleton]
    congr 1
    push_cast
    ring
  wrapped := account.wrapped

/-- A message is added to the sum. -/
theorem Account.receive {x : Int} (account : Account n o₁ o₂ sum recv (x :: queue)) :
    Account n o₁ o₂ (int (sum + x)) (recv + 1) queue where
  count := by
    have := account.count
    rw [List.length_cons] at this
    omega
  total := by
    rw [← account.total, List.sum_cons, add_assoc, add_assoc, int, wrap_wrap_add]
    congr 1
    ring
  wrapped := Int.bmod_bmod

/-- When two messages were received, the sum is complete. -/
theorem Account.complete (account : Account n o₁ o₂ sum 2 queue) :
    queue = [] ∧ o₁ = 0 ∧ o₂ = 0 ∧ sum = value n := by
  obtain ⟨count, total, wrapped⟩ := account
  have empty : queue = [] := List.eq_nil_of_length_eq_zero (by omega)
  obtain rfl : o₁ = 0 := by omega
  obtain rfl : o₂ = 0 := by omega
  refine ⟨empty, rfl, rfl, ?_⟩
  rw [← wrapped, ← total, empty]
  simp

theorem body_fib (n : ℕ) (path : List Bool) (target : Reactor) :
    body (.node path) (.fib target n 0 0) =
      if n < 2 then [.send target (value n), .sealChannel]
      else [fib (false :: path) (.node path) (n - 1), fib (true :: path) (.node path) (n - 2)] := by
  match n with
  | 0 => rw [value_zero]; rfl
  | 1 => rw [value_one]; rfl
  | n + 2 => rw [if_neg (by omega)]; rfl

/-- The process of a new reactor. -/
def newReactor (path : List Bool) (n : ℕ) : Process where
  memory := .fib (parent path) n 0 0
  todo := body (.node path) (.fib (parent path) n 0 0)

theorem Shape.newborn (n : ℕ) (path : List Bool) :
    Shape n path .absent .absent (newReactor path n) (newborn n) := by
  unfold Fibonacci.newborn newReactor
  rw [body_fib]
  split
  next leaf => exact .sending rfl rfl rfl (by rw [Settled, if_pos leaf]; exact ⟨rfl, rfl⟩)
  next inner => exact .bare (by omega) rfl rfl rfl rfl rfl (Account.start (by omega))

/-- What the spawned child `b` is doing. -/
def spawned (sz : ℕ) (status : List Bool → Status) (path : List Bool) : List Bool → Status :=
  Function.update status path (newborn (arg sz path))

/-- The parent sees the new child, and all other reactors see what they saw before. -/
theorem Tree.node_spawned (tree : Tree sz s status) {b : Bool} (none : status (b :: path) = .absent)
    (same : Same (status path) new)
    (shape : Shape (arg sz path) path (spawned sz status (b :: path) (false :: path))
      (spawned sz status (b :: path) (true :: path)) r new) (other : List Bool) :
    Shape (arg sz other) other
      (spawned sz (Function.update status path new) (b :: path) (false :: other))
      (spawned sz (Function.update status path new) (b :: path) (true :: other))
      (((s.set (.node path) r).set (.node (b :: path)) (newReactor (b :: path)
        (arg sz (b :: path)))).process (.node other))
      (spawned sz (Function.update status path new) (b :: path) other) := by
  unfold spawned at shape ⊢
  by_cases child : other = b :: path
  · -- the new reactor has no children yet
    subst child
    rw [State.set_process_self, Function.update_self]
    have above (x : Bool) : Function.update (Function.update status path new) (b :: path)
        (newborn (arg sz (b :: path))) (x :: b :: path) = .absent := by
      have longer : x :: b :: path ≠ path := fun same => by
        have := congrArg List.length same
        simp only [List.length_cons] at this
        omega
      rw [update_cons, Function.update_of_ne longer]
      have before := tree.node (b :: path)
      rw [none] at before
      cases before with
      | absent _ _ _ none₁ none₂ => cases x <;> assumption
    rw [above, above]
    exact Shape.newborn _ _
  · rw [State.set_process_of_ne _ _ (by simpa using child), Function.update_of_ne child]
    by_cases here : other = path
    · subst here
      rw [State.set_process_self, Function.update_self]
      have seen (x : Bool) : Function.update (Function.update status other new) (b :: other)
          (newborn (arg sz (b :: other))) (x :: other) =
          Function.update status (b :: other) (newborn (arg sz (b :: other))) (x :: other) := by
        unfold Function.update
        simp
      rwa [seen, seen]
    · rw [State.set_process_of_ne _ _ (by simpa using here), Function.update_of_ne here]
      have seen (x : Bool) : Same (status (x :: other))
          (Function.update (Function.update status path new) (b :: path)
            (newborn (arg sz (b :: path))) (x :: other)) := by
        rw [Function.update_of_ne (by simp [here])]
        exact same_update same _
      exact (tree.node other).congr (seen false) (seen true)

/-- A reactor spawns a child. -/
theorem Tree.spawn (tree : Tree sz s status) {b : Bool} (none : status (b :: path) = .absent)
    (same : Same (status path) new)
    (shape : Shape (arg sz path) path (spawned sz status (b :: path) (false :: path))
      (spawned sz status (b :: path) (true :: path)) r new) :
    Tree sz ((s.set (.node path) r).perform code (.node path)
        (fib (b :: path) (.node path) (arg sz (b :: path))))
      (spawned sz (Function.update status path new) (b :: path)) where
  root := by
    show RootShape sz _ (((s.set (.node path) r).set (.node (b :: path))
      (newReactor (b :: path) (arg sz (b :: path)))).process .root) s.completed
    rw [State.set_process_of_ne _ _ (by simp), State.set_process_of_ne _ _ (by simp), spawned,
      Function.update_of_ne (by simp)]
    exact tree.root.congr (same_update same [])
  node := tree.node_spawned none same shape
  live := by
    refine ⟨Finset.mem_insert_of_mem tree.live.1, fun other => ?_⟩
    show Reactor.node other ∈ insert (Reactor.node (b :: path)) s.live ↔ _
    rw [Finset.mem_insert, tree.live.2 other, spawned]
    by_cases child : other = b :: path
    · subst child
      rw [Function.update_self]
      exact iff_of_true (.inl rfl) (newborn_ne_absent _)
    · have alike := not_congr (same_update same other).1
      rw [Function.update_of_ne child]
      simpa [child] using alike
  dropped := tree.dropped

/-- A child that sends is seen by a parent that collects. -/
theorem Shape.open_of_sending {b : Bool} (shape : Shape n path child₁ child₂ r new)
    (sends : (if b then child₂ else child₁) = .sending) :
    r.isSealed = false ∧ 2 ≤ n ∧ Shape n path (if b then child₁ else .sealing)
      (if b then .sealing else child₂)
      { r with queue := r.queue ++ [value (n - if b then 2 else 1)] } new := by
  have unsettled (settled : Settled n child₁ child₂) : False := by
    unfold Settled at settled
    split at settled
    · cases b <;> simp_all
    · cases b <;> simp_all [Status.owed]
  cases shape with
  | absent _ _ _ none₁ none₂ => cases b <;> simp_all
  | bare _ _ _ _ none₁ none₂ => cases b <;> simp_all
  | single inner memory todo opened some₁ none₂ account =>
      cases b with
      | false =>
          refine ⟨opened, inner, .single inner memory todo opened (by simp) none₂ ?_⟩
          obtain rfl : child₁ = .sending := sends
          exact account.first
      | true => simp_all
  | collecting sum recv inner memory todo opened some₁ some₂ more account =>
      cases b with
      | false =>
          refine ⟨opened, inner, .collecting sum recv inner memory todo opened (by simp) some₂ more ?_⟩
          obtain rfl : child₁ = .sending := sends
          exact account.first
      | true =>
          refine ⟨opened, inner, .collecting sum recv inner memory todo opened some₁ (by simp) more ?_⟩
          obtain rfl : child₂ = .sending := sends
          exact account.second
  | sending _ _ _ settled => exact (unsettled settled).elim
  | sealing _ _ settled => exact (unsettled settled).elim
  | done _ _ settled => exact (unsettled settled).elim

theorem live_update (live : ∀ other, .node other ∈ s.live ↔ status other ≠ .absent)
    (old : status path ≠ .absent) (now : new ≠ .absent) (other : List Bool) :
    .node other ∈ s.live ↔ Function.update status path new other ≠ .absent := by
  rw [live other]
  by_cases here : other = path
  · subst here
    rw [Function.update_self]
    exact iff_of_true old now
  · rw [Function.update_of_ne here]

/-- A reactor that has sent its sum. -/
theorem Tree.sealing (tree : Tree sz s status) (sends : status path = .sending) :
    Shape (arg sz path) path (status (false :: path)) (status (true :: path))
      { s.process (.node path) with todo := [.sealChannel] } .sealing := by
  have shape := tree.node path
  rw [sends] at shape
  cases shape with
  | sending todo opened empty settled => exact .sealing rfl empty settled

/-- A reactor sends its sum to another reactor of `fib`, whose channel is open. -/
theorem Tree.send_node (tree : Tree sz s status) {b : Bool} (sends : status (b :: path) = .sending) :
    Tree sz ((s.set (.node (b :: path))
        { s.process (.node (b :: path)) with todo := [.sealChannel] }).send (.node path)
        (value (arg sz (b :: path)))) (Function.update status (b :: path) .sealing) := by
  have less : arg sz (b :: path) = arg sz path - if b then 2 else 1 := by cases b <;> rfl
  have mine : (if b then status (true :: path) else status (false :: path)) = .sending := by
    cases b <;> exact sends
  obtain ⟨opened, -, after⟩ := (tree.node path).open_of_sending mine
  have apart : Reactor.node path ≠ .node (b :: path) := by simp
  have opened' : ((s.set (.node (b :: path))
      { s.process (.node (b :: path)) with todo := [.sealChannel] }).process
      (.node path)).isSealed = false := by
    rwa [State.set_process_of_ne _ _ apart]
  rw [State.send_eq _ opened']
  refine ⟨?_, fun other => ?_, ⟨tree.live.1, ?_⟩, tree.dropped⟩
  · rw [State.set_process_of_ne _ _ (by simp), State.set_process_of_ne _ _ (by simp),
      Function.update_of_ne (by simp)]
    exact tree.root
  · by_cases above : other = path
    · -- the parent gets the message
      subst above
      rw [State.set_process_self, State.set_process_of_ne _ _ apart, less,
        Function.update_of_ne (List.cons_ne_self b other).symm]
      cases b with
      | false =>
          rw [Function.update_self, Function.update_of_ne (by simp)]
          exact after
      | true =>
          rw [Function.update_self, Function.update_of_ne (by simp)]
          exact after
    · rw [State.set_process_of_ne _ _ (by simpa using above)]
      by_cases here : other = b :: path
      · subst here
        rw [State.set_process_self, Function.update_self, update_cons, update_cons]
        exact tree.sealing sends
      · rw [State.set_process_of_ne _ _ (by simpa using here), Function.update_of_ne here,
          Function.update_of_ne (by simp [above]), Function.update_of_ne (by simp [above])]
        exact tree.node other
  · exact live_update tree.live.2 (by rw [sends]; simp) (by simp)

/-- The first reactor of `fib` sends its sum to the root. -/
theorem Tree.send_root (tree : Tree sz s status) (sends : status [] = .sending) :
    Tree sz ((s.set (.node []) { s.process (.node []) with todo := [.sealChannel] }).send .root
        (value sz)) (Function.update status [] .sealing) := by
  have root : (s.process .root).isSealed = false ∧ RootShape sz .sealing
      { s.process .root with queue := (s.process .root).queue ++ [value sz] } s.completed := by
    have shape := tree.root
    rw [sends] at shape
    generalize s.completed = completed at shape
    cases shape with
    | waiting todo empty opened fresh _ _ =>
        exact ⟨opened, .called todo (by rw [empty]; rfl) opened fresh rfl⟩
    | spawning _ _ _ _ none => cases none
    | called _ _ _ _ owed | completing _ _ owed | sealing _ _ owed | done _ _ owed => cases owed
  have opened : ((s.set (.node []) { s.process (.node []) with todo := [.sealChannel] }).process
      .root).isSealed = false := by
    rw [State.set_process_of_ne _ _ (by simp)]
    exact root.1
  rw [State.send_eq _ opened]
  refine ⟨?_, fun other => ?_, ⟨tree.live.1, ?_⟩, tree.dropped⟩
  · rw [State.set_process_self, State.set_process_of_ne _ _ (by simp), Function.update_self]
    exact root.2
  · rw [State.set_process_of_ne _ _ (by simp)]
    by_cases here : other = []
    · subst here
      rw [State.set_process_self, Function.update_self, update_cons, update_cons]
      exact tree.sealing sends
    · rw [State.set_process_of_ne _ _ (by simpa using here), Function.update_of_ne here,
        Function.update_of_ne (by simp), Function.update_of_ne (by simp)]
      exact tree.node other
  · exact live_update tree.live.2 (by rw [sends]; simp) (by simp)

/-- A reactor carries out an operation. -/
theorem Tree.perform (tree : Tree sz s status) {op : Op} {ops : List Op}
    (doing : (s.process (.node path)).todo = op :: ops) :
    ∃ status', Tree sz ((s.set (.node path) { s.process (.node path) with todo := ops }).perform code
      (.node path) op) status' := by
  have shape := tree.node path
  have still (child : Bool) : spawned sz status (child :: path) (child :: path) =
      newborn (arg sz (child :: path)) := Function.update_self ..
  generalize now : status path = mine at shape
  cases shape with
  | absent idle | collecting _ _ _ _ idle | done idle => rw [idle] at doing; cases doing
  | bare inner memory todo opened none₁ none₂ account =>
      rw [todo] at doing
      cases doing
      have same : Same (status path) .single := by rw [now]; exact ⟨by simp, rfl⟩
      refine ⟨_, tree.spawn none₁ same ?_⟩
      have other : spawned sz status (false :: path) (true :: path) = .absent := by
        rw [spawned, Function.update_of_ne (by simp), none₂]
      rw [still, other]
      rw [none₁, none₂] at account
      refine .single inner memory rfl opened (newborn_ne_absent _) rfl ?_
      rw [newborn_owed]
      exact account
  | single inner memory todo opened some₁ none₂ account =>
      rw [todo] at doing
      cases doing
      have same : Same (status path) .collecting := by rw [now]; exact ⟨by simp, rfl⟩
      refine ⟨_, tree.spawn none₂ same ?_⟩
      have other : spawned sz status (true :: path) (false :: path) = status (false :: path) := by
        rw [spawned, Function.update_of_ne (by simp)]
      rw [still, other]
      rw [none₂] at account
      refine .collecting 0 0 inner memory rfl opened some₁ (newborn_ne_absent _) Nat.two_pos ?_
      rw [newborn_owed]
      exact account
  | sending todo opened empty settled =>
      rw [todo] at doing
      cases doing
      cases path with
      | nil => exact ⟨_, tree.send_root now⟩
      | cons b path => exact ⟨_, tree.send_node now⟩
  | sealing todo empty settled =>
      rw [todo] at doing
      cases doing
      rw [State.perform_sealChannel]
      have same : Same (status path) .done := by rw [now]; exact ⟨by simp, rfl⟩
      exact ⟨_, tree.own same (.done rfl empty settled)⟩

/-- What a reactor does with the first or second message. -/
theorem handle_collecting (path : List Bool) (target : Reactor) (inner : 2 ≤ n) (more : recv < 2)
    (x : Int) :
    code.handle (.node path) (.fib target n sum recv) x =
      (.fib target n (int (sum + x)) (recv + 1 : ℕ),
        if recv + 1 = 2 then [.send target (int (sum + x)), .sealChannel] else []) := by
  obtain ⟨k, rfl⟩ := Nat.exists_eq_add_of_le' inner
  have counted : int ((recv : Int) + 1) = (recv + 1 : ℕ) := by
    rw [int_eq_self (by omega) (by omega)]
    rfl
  show handle (.node path) (.fib target (k + 2) sum recv) x = _
  unfold handle
  dsimp only
  rw [counted]
  by_cases last : recv + 1 = 2
  · rw [if_pos last, if_pos (by omega)]
  · rw [if_neg last, if_neg (by omega)]

/-- Only a reactor that collects results waits with a message. -/
theorem Shape.collecting_of_waiting {mine : Status} {x : Int} {rest : List Int}
    (shape : Shape n path child₁ child₂ r mine) (idle : r.todo = []) (waiting : r.queue = x :: rest) :
    mine = .collecting := by
  cases shape with
  | absent _ empty | sending _ _ empty | sealing _ empty | done _ empty =>
      rw [empty] at waiting
      cases waiting
  | bare _ _ todo | single _ _ todo => rw [idle] at todo; cases todo
  | collecting => rfl

/-- A reactor takes a message. -/
theorem Tree.deliver (tree : Tree sz s status) {x : Int} {rest : List Int}
    (idle : (s.process (.node path)).todo = [])
    (waiting : (s.process (.node path)).queue = x :: rest) :
    ∃ status', Tree sz (s.deliver code (.node path) x rest) status' := by
  have shape := tree.node path
  have now := shape.collecting_of_waiting idle waiting
  rw [now] at shape
  cases shape with
  | collecting sum recv inner memory _ opened some₁ some₂ more account =>
      rw [waiting] at account
      have account' := account.receive
      rw [State.deliver_eq x rest opened, memory, handle_collecting path _ inner more]
      by_cases last : recv + 1 = 2
      · rw [last] at account'
        obtain ⟨empty, owed₁, owed₂, total⟩ := account'.complete
        have same : Same (status path) .sending := by rw [now]; exact ⟨by simp, rfl⟩
        refine ⟨_, tree.own same (.sending ?_ opened empty ?_)⟩
        · rw [if_pos last, total]
        · rw [Settled, if_neg (by omega)]
          exact ⟨owed₁, owed₂⟩
      · have same : Same (status path) .collecting := by rw [now]; exact Same.refl _
        refine ⟨_, tree.own same
          (.collecting (int (sum + x)) (recv + 1) inner rfl ?_ opened some₁ some₂ (by omega) account')⟩
        rw [if_neg last]

/-- A change of the root that leaves the reactors of `fib` alone. -/
theorem Tree.own_root (tree : Tree sz s status) (shape : RootShape sz (status []) r s.completed) :
    Tree sz (s.set .root r) status where
  root := by
    rw [State.set_process_self]
    exact shape
  node path := by
    rw [State.set_process_of_ne _ _ (by simp)]
    exact tree.node path
  live := tree.live
  dropped := tree.dropped

/-- The root calls `fib`. -/
theorem Tree.spawn_root (tree : Tree sz s status) (none : status [] = .absent)
    (opened : (s.process .root).isSealed = false) (empty : (s.process .root).queue = [])
    (fresh : (s.process .root).handled = 0) (promise : s.completed = []) :
    Tree sz ((s.set .root { s.process .root with todo := [] }).perform code .root (fib [] .root sz))
      (Function.update status [] (newborn sz)) where
  root := by
    show RootShape sz _ (((s.set .root { s.process .root with todo := [] }).set (.node [])
      (newReactor [] sz)).process .root) s.completed
    rw [State.set_process_of_ne _ _ (by simp), State.set_process_self, Function.update_self, promise]
    exact .waiting rfl empty opened fresh (newborn_ne_absent sz) (newborn_owed sz)
  node other := by
    show Shape (arg sz other) other _ _ (((s.set .root { s.process .root with todo := [] }).set
      (.node []) (newReactor [] sz)).process (.node other)) _
    rw [Function.update_of_ne (by simp), Function.update_of_ne (by simp)]
    by_cases here : other = []
    · subst here
      rw [State.set_process_self, Function.update_self]
      have before := tree.node []
      rw [none] at before
      cases before with
      | absent _ _ _ none₁ none₂ =>
          rw [none₁, none₂]
          exact Shape.newborn sz []
    · rw [State.set_process_of_ne _ _ (by simpa using here), State.set_process_of_ne _ _ (by simp),
        Function.update_of_ne here]
      exact tree.node other
  live := by
    refine ⟨Finset.mem_insert_of_mem tree.live.1, fun other => ?_⟩
    show Reactor.node other ∈ insert (Reactor.node []) s.live ↔ _
    rw [Finset.mem_insert, tree.live.2 other]
    by_cases here : other = []
    · subst here
      rw [Function.update_self]
      exact iff_of_true (.inl rfl) (newborn_ne_absent _)
    · rw [Function.update_of_ne here]
      simp [here]
  dropped := tree.dropped

/-- The reactor that gets the result waits with a message only before it takes the result. -/
theorem RootShape.called_of_waiting {child : Status} {completed : List Int} {x : Int} {rest : List Int}
    (shape : RootShape sz child r completed) (waiting : r.queue = x :: rest) :
    completed = [] ∧ r.queue = [value sz] ∧ r.isSealed = false ∧ r.handled = 0 ∧ child.owed = 0 := by
  cases shape with
  | spawning _ empty | waiting _ empty | completing _ empty | sealing _ empty | done _ empty =>
      rw [empty] at waiting
      cases waiting
  | called _ queue opened fresh owed => exact ⟨rfl, queue, opened, fresh, owed⟩

theorem Tree.turn_root (tree : Tree sz s status) (moves : step code .root s = some s') :
    ∃ status', Tree sz s' status' := by
  have shape := tree.root
  generalize promise : s.completed = completed at shape
  rcases step_cases moves with ⟨op, ops, doing, rfl⟩ | ⟨x, rest, idle, waiting, rfl⟩
  · cases shape with
    | waiting idle | called idle | done idle => rw [idle] at doing; cases doing
    | spawning todo empty opened fresh none =>
        rw [todo] at doing
        cases doing
        exact ⟨_, tree.spawn_root none opened empty fresh promise⟩
    | completing todo empty owed =>
        rw [todo] at doing
        cases doing
        have after : Tree sz { s.set .root { s.process .root with todo := [.sealChannel] } with
            completed := s.completed ++ [value sz] } status := by
          refine ⟨?_, fun path => ?_, tree.live, tree.dropped⟩
          · rw [State.set_process_self, promise]
            exact .sealing rfl empty owed
          · rw [State.set_process_of_ne _ _ (by simp)]
            exact tree.node path
        exact ⟨_, after⟩
    | sealing todo empty owed =>
        rw [todo] at doing
        cases doing
        rw [State.perform_sealChannel]
        exact ⟨_, tree.own_root (promise ▸ .done rfl empty owed)⟩
  · obtain ⟨rfl, queue, opened, -, owed⟩ := shape.called_of_waiting waiting
    rw [queue] at waiting
    obtain ⟨rfl, rfl⟩ := List.cons.inj waiting
    rw [State.deliver_eq (value sz) [] opened]
    exact ⟨_, tree.own_root (by rw [promise]; exact .completing rfl rfl owed)⟩

theorem Invariant.turn (inv : Invariant sz s) {k : Reactor} (moves : step code k s = some s') :
    Invariant sz s' := by
  obtain ⟨status, tree⟩ := inv
  cases k with
  | root => exact tree.turn_root moves
  | node path =>
      rcases step_cases moves with ⟨op, ops, doing, rfl⟩ | ⟨x, rest, idle, waiting, rfl⟩
      · exact tree.perform doing
      · exact tree.deliver idle waiting

/-! ## The end of a run -/

/-- What may come of a call of `fib`. -/
def callCost : ℕ → ℕ
  | 0 | 1 => 4
  | n + 2 => callCost (n + 1) + callCost n + 4

/-- What a reactor may still pay for. -/
def credit : Reactor → Memory → ℕ → ℕ
  | .root, _, handled => if handled = 0 then 2 else 0
  | .node _, .fib _ n _ recv, _ => if 2 ≤ n ∧ recv < 2 then 3 else 0
  | .node _, .root _, _ => 0

def cost : Op → ℕ
  | .send _ _ => 2
  | .spawn _ (.fib _ n _ _) => callCost n
  | .spawn _ (.root sz) => callCost sz + 3
  | .complete _ | .sealChannel => 1

theorem four_le_callCost (n : ℕ) : 4 ≤ callCost n := by
  match n with
  | 0 | 1 => exact le_rfl
  | n + 2 => exact Nat.le_add_left 4 _

theorem covers : Covers code cost credit where
  send _ _ := Nat.lt_succ_self 1
  spawn j memory := by
    cases j with
    | root =>
        cases memory with
        | root sz =>
            show 2 + (callCost sz + 0) < callCost sz + 3
            omega
        | fib target n sum recv =>
            have := four_le_callCost n
            show 2 + 0 < callCost n
            omega
    | node path =>
        cases memory with
        | root sz =>
            show 0 + 0 < callCost sz + 3
            omega
        | fib target n sum recv =>
            match n with
            | 0 | 1 => exact Nat.lt_succ_self 3
            | n + 2 =>
                have few : credit (.node path) (.fib target (n + 2) sum recv) 0 ≤ 3 := by
                  show (if 2 ≤ n + 2 ∧ recv < 2 then 3 else 0) ≤ 3
                  split <;> omega
                show _ + (callCost (n + 1) + (callCost n + 0)) < callCost (n + 1) + callCost n + 4
                omega
  complete _ := Nat.one_pos
  sealChannel := Nat.one_pos

theorem Invariant.lowers (inv : Invariant sz s) {k : Reactor} (moves : step code k s = some s') :
    load cost credit s' < load cost credit s := by
  obtain ⟨status, tree⟩ := inv
  cases k with
  | root =>
      refine load_lt covers tree.live.1 moves fun x rest _ waiting _ => ?_
      obtain ⟨-, -, -, fresh, -⟩ := tree.root.called_of_waiting waiting
      rw [fresh]
      exact le_rfl
  | node path =>
      have shape := tree.node path
      have mem : Reactor.node path ∈ s.live := by
        rw [tree.live.2 path]
        intro none
        rw [none] at shape
        cases shape with
        | absent idle empty =>
            rw [step_eq_none idle empty] at moves
            cases moves
      refine load_lt covers mem moves fun x rest idle waiting _ => ?_
      rw [shape.collecting_of_waiting idle waiting] at shape
      cases shape with
      | collecting sum recv inner memory _ _ _ _ more account =>
          have left : credit (.node path) (.fib (parent path) (arg sz path) sum recv)
              (s.process (.node path)).handled = 3 := if_pos ⟨inner, by omega⟩
          rw [memory, handle_collecting path _ inner more, left]
          unfold credit
          dsimp only
          by_cases last : recv + 1 = 2
          · rw [if_pos last, if_neg (by omega)]
            exact le_rfl
          · rw [if_neg last]
            split <;> simp

/-- What holds when everything is over. -/
structure Finished (sz : ℕ) (s : State) : Prop where
  completed : s.completed = [computeExpected sz]
  idle : ∀ k, (s.process k).todo = [] ∧ (s.process k).queue = []

/-- Nobody waits for a message that does not come: below a reactor that collects there would be
another one. -/
theorem Tree.none_collecting (tree : Tree sz s status)
    (idle : ∀ k, (s.process k).todo = [] ∧ (s.process k).queue = []) (n : ℕ) :
    ∀ path, arg sz path = n → status path ≠ .collecting := by
  induction n using Nat.strong_induction_on with
  | _ n ih =>
      intro path size collects
      have owes (b : Bool) (some : status (b :: path) ≠ .absent)
          (owed : (status (b :: path)).owed ≠ 0) : status (b :: path) = .collecting := by
        have shape := tree.node (b :: path)
        generalize status (b :: path) = child at some owed shape
        cases shape with
        | absent => exact absurd rfl some
        | bare _ _ todo | single _ _ todo => rw [(idle _).1] at todo; cases todo
        | sending todo | sealing todo => rw [(idle _).1] at todo; cases todo
        | done => exact absurd rfl owed
        | collecting => rfl
      have shape := tree.node path
      rw [collects] at shape
      cases shape with
      | collecting sum recv inner _ _ _ some₁ some₂ more account =>
          have count := account.count
          rw [(idle _).2, List.length_nil] at count
          by_cases first : (status (false :: path)).owed = 0
          · have second : (status (true :: path)).owed ≠ 0 := by omega
            exact ih (n - 2) (by omega) (true :: path) (by rw [arg, size]) (owes true some₂ second)
          · exact ih (n - 1) (by omega) (false :: path) (by rw [arg, size]) (owes false some₁ first)

theorem Invariant.stuck (inv : Invariant sz s) (stuck : ∀ k s', step code k s ≠ some s') :
    Finished sz s := by
  obtain ⟨status, tree⟩ := inv
  have idle := idle_of_stuck stuck
  refine ⟨?_, idle⟩
  rw [computeExpected_eq]
  have shape := tree.root
  generalize s.completed = completed at shape
  cases shape with
  | spawning todo | completing todo => rw [(idle _).1] at todo; cases todo
  | called _ queue => rw [(idle _).2] at queue; cases queue
  | sealing | done => rfl
  | waiting _ _ _ _ some owed =>
      have top := tree.node []
      have never := tree.none_collecting idle sz [] rfl
      generalize status [] = child at some owed top never
      cases top with
      | absent => exact absurd rfl some
      | bare _ _ todo | single _ _ todo => rw [(idle _).1] at todo; cases todo
      | sending todo | sealing todo => rw [(idle _).1] at todo; cases todo
      | done => cases owed
      | collecting => exact absurd rfl never

theorem Invariant.on_the_way (inv : Invariant sz s) :
    s.dropped = [] ∧ (s.completed = [] ∨ s.completed = [computeExpected sz]) := by
  obtain ⟨status, tree⟩ := inv
  refine ⟨tree.dropped, ?_⟩
  rw [computeExpected_eq]
  have shape := tree.root
  generalize s.completed = completed at shape
  cases shape with
  | spawning | waiting | called | completing => exact .inl rfl
  | sealing | done => exact .inr rfl

/-- Every run completes the promise exactly once and with the expected value, and no message comes to a
sealed channel. -/
theorem fibonacci_finishes (sz : ℕ) :
    Inevitable (step code) (Finished sz) (start sz) ∧
    ∀ s, Reachable (step code) (start sz) s → s.dropped = [] ∧
      (s.completed = [] ∨ s.completed = [computeExpected sz]) := by
  constructor
  · refine inevitable_of_measure (load cost credit) (fun k s s' inv moves => Invariant.turn inv moves)
      (fun s inv running => ?_) (fun k s s' inv moves => inv.lowers moves) (Invariant.start sz)
    by_contra stuck
    push Not at stuck
    exact running (inv.stuck stuck)
  · intro s reachable
    exact (reachable.invariant (Invariant.start sz) fun k s s' inv moves => inv.turn moves).on_the_way

/-- The value overflows from `47` on. -/
example : computeExpected 46 = 1836311903 ∧ computeExpected 47 = -1323752223 := by
  decide +kernel

end Turns

end Renaissance.Fibonacci
