import Mathlib.Algebra.BigOperators.Group.Finset.Basic
import Mathlib.Algebra.Order.BigOperators.Group.Finset
import Renaissance.Lib.Transition

/-!
# Reactors

Processes that send messages over FIFO channels. A process owns one channel and carries out its
operations one by one; only when none is left it takes the next message from its channel, and what it
does with the message are its next operations. All processes take turns in any order, between any two
operations. A message that comes to a sealed channel, or is found in one, is dropped.

* `step`: one process takes its turn;
* `step_cases`: the three things that a turn can be;
* `load_lt`: operations and messages are paid from the credit of the processes, so nobody goes on for
  ever;
* `idle_of_stuck`: where nobody can move, all operations are done and all channels are empty.
-/

namespace Reactors

/-- What a process does next, with processes named by `κ`. The result of a run goes to a promise of the
type `ν`. -/
inductive Op (κ σ μ ν : Type)
  | send (target : κ) (m : μ)
  /-- The new process starts with this memory. -/
  | spawn (k : κ) (memory : σ)
  | complete (v : ν)
  /-- The process seals its own channel. -/
  | sealChannel

/-- What a process does when it starts and what it does with a message. -/
structure Code (κ σ μ ν : Type) where
  body : κ → σ → List (Op κ σ μ ν)
  handle : κ → σ → μ → σ × List (Op κ σ μ ν)

structure Process (κ σ μ ν : Type) where
  memory : σ
  todo : List (Op κ σ μ ν) := []
  queue : List μ := []
  isSealed : Bool := false
  /-- How many messages were handled. -/
  handled : ℕ := 0

structure State (κ σ μ ν : Type) where
  process : κ → Process κ σ μ ν
  /-- The processes that were spawned. -/
  live : Finset κ
  /-- The values that the promise was completed with. -/
  completed : List ν := []
  dropped : List (κ × μ) := []

section Steps

variable {κ σ μ ν : Type} [DecidableEq κ] (code : Code κ σ μ ν)

namespace State

def set (s : State κ σ μ ν) (k : κ) (r : Process κ σ μ ν) : State κ σ μ ν :=
  { s with process := Function.update s.process k r }

def send (s : State κ σ μ ν) (target : κ) (m : μ) : State κ σ μ ν :=
  let r := s.process target
  if r.isSealed then { s with dropped := s.dropped ++ [(target, m)] }
  else s.set target { r with queue := r.queue ++ [m] }

/-- The process `k` carries out an operation. -/
def perform (s : State κ σ μ ν) (k : κ) : Op κ σ μ ν → State κ σ μ ν
  | .send target m => s.send target m
  | .spawn j memory =>
      { s.set j { memory := memory, todo := code.body j memory } with live := insert j s.live }
  | .complete v => { s with completed := s.completed ++ [v] }
  | .sealChannel => s.set k { s.process k with isSealed := true }

/-- The process `k` takes the message `m`, and `rest` stays in its channel. -/
def deliver (s : State κ σ μ ν) (k : κ) (m : μ) (rest : List μ) : State κ σ μ ν :=
  let r := s.process k
  if r.isSealed then
    { s.set k { r with queue := rest } with dropped := s.dropped ++ [(k, m)] }
  else
    let after := code.handle k r.memory m
    s.set k { r with
      memory := after.1
      todo := after.2
      queue := rest
      handled := r.handled + 1 }

@[simp] theorem set_live (s : State κ σ μ ν) (k : κ) (r : Process κ σ μ ν) :
    (s.set k r).live = s.live :=
  rfl

@[simp] theorem set_completed (s : State κ σ μ ν) (k : κ) (r : Process κ σ μ ν) :
    (s.set k r).completed = s.completed :=
  rfl

@[simp] theorem set_dropped (s : State κ σ μ ν) (k : κ) (r : Process κ σ μ ν) :
    (s.set k r).dropped = s.dropped :=
  rfl

@[simp] theorem set_process_self (s : State κ σ μ ν) (k : κ) (r : Process κ σ μ ν) :
    (s.set k r).process k = r :=
  Function.update_self ..

@[simp] theorem set_process_of_ne (s : State κ σ μ ν) {k j : κ} (r : Process κ σ μ ν) (other : j ≠ k) :
    (s.set k r).process j = s.process j :=
  Function.update_of_ne other ..

theorem send_eq {s : State κ σ μ ν} {target : κ} (m : μ) (opened : (s.process target).isSealed = false) :
    s.send target m = s.set target { s.process target with queue := (s.process target).queue ++ [m] } :=
  if_neg (by simp [opened])

theorem send_sealed {s : State κ σ μ ν} {target : κ} (m : μ)
    (closed : (s.process target).isSealed = true) :
    s.send target m = { s with dropped := s.dropped ++ [(target, m)] } :=
  if_pos closed

/-- A message is either in the channel or dropped, and it is dropped only if the channel is sealed. -/
theorem send_spec (s : State κ σ μ ν) (target : κ) (m : μ) : ∃ queue dropped,
    s.send target m =
      { s.set target { s.process target with queue := queue } with dropped := dropped } ∧
    queue.length + dropped.length = (s.process target).queue.length + s.dropped.length + 1 ∧
    ((s.process target).isSealed = false → dropped = s.dropped) := by
  unfold send
  dsimp only
  split
  next closed =>
    refine ⟨(s.process target).queue, s.dropped ++ [(target, m)], ?_, ?_, fun opened => ?_⟩
    · unfold set
      rw [Function.update_eq_self]
    · rw [List.length_append, List.length_singleton, Nat.add_assoc]
    · rw [opened] at closed
      cases closed
  next =>
    refine ⟨(s.process target).queue ++ [m], s.dropped, rfl, ?_, fun _ => rfl⟩
    rw [List.length_append, List.length_singleton, Nat.add_right_comm]

variable {code} in
/-- A process that has just taken its operation seals its channel. -/
theorem perform_sealChannel (s : State κ σ μ ν) (k : κ) (r : Process κ σ μ ν) :
    (s.set k r).perform code k .sealChannel = s.set k { r with isSealed := true } := by
  simp only [perform, set, Function.update_self, Function.update_idem]

variable {code} in
theorem deliver_eq {s : State κ σ μ ν} {k : κ} (m : μ) (rest : List μ)
    (opened : (s.process k).isSealed = false) :
    s.deliver code k m rest = s.set k { s.process k with
      memory := (code.handle k (s.process k).memory m).1
      todo := (code.handle k (s.process k).memory m).2
      queue := rest
      handled := (s.process k).handled + 1 } :=
  if_neg (by simp [opened])

variable {code} in
theorem deliver_sealed {s : State κ σ μ ν} {k : κ} (m : μ) (rest : List μ)
    (closed : (s.process k).isSealed = true) :
    s.deliver code k m rest =
      { s.set k { s.process k with queue := rest } with dropped := s.dropped ++ [(k, m)] } :=
  if_pos closed

end State

/-- The process `k` takes its turn. -/
def step (k : κ) (s : State κ σ μ ν) : Option (State κ σ μ ν) :=
  let r := s.process k
  match r.todo, r.queue with
  | op :: ops, _ => some ((s.set k { r with todo := ops }).perform code k op)
  | [], m :: rest => some (s.deliver code k m rest)
  | [], [] => none

variable {code} {s s' : State κ σ μ ν} {k : κ}

theorem step_cases (moves : step code k s = some s') :
    (∃ op ops, (s.process k).todo = op :: ops ∧
      s' = (s.set k { s.process k with todo := ops }).perform code k op) ∨
    (∃ m rest, (s.process k).todo = [] ∧ (s.process k).queue = m :: rest ∧
      s' = s.deliver code k m rest) := by
  unfold step at moves
  dsimp only at moves
  split at moves
  next op ops doing =>
    cases moves
    exact .inl ⟨op, ops, doing, rfl⟩
  next m rest idle waiting =>
    cases moves
    exact .inr ⟨m, rest, idle, waiting, rfl⟩
  next => cases moves

theorem step_eq_none (idle : (s.process k).todo = []) (empty : (s.process k).queue = []) :
    step code k s = none := by
  unfold step
  dsimp only
  rw [idle, empty]

/-- Where nobody can move, all operations are done and all channels are empty. -/
theorem idle_of_stuck (stuck : ∀ k s', step code k s ≠ some s') (k : κ) :
    (s.process k).todo = [] ∧ (s.process k).queue = [] := by
  cases doing : (s.process k).todo with
  | cons op ops =>
      refine absurd ?_ (stuck k ((s.set k { s.process k with todo := ops }).perform code k op))
      simp only [step, doing]
  | nil =>
      cases waiting : (s.process k).queue with
      | nil => exact ⟨rfl, rfl⟩
      | cons m rest =>
          refine absurd ?_ (stuck k (s.deliver code k m rest))
          simp only [step, doing, waiting]

end Steps

/-! ## Nobody goes on for ever -/

section Load

variable {κ σ μ ν : Type} [DecidableEq κ] {code : Code κ σ μ ν} {cost : Op κ σ μ ν → ℕ}
  {credit : κ → σ → ℕ → ℕ} {s s' : State κ σ μ ν} {k : κ}

/-- The cost of an operation covers what comes of it: a message in a channel counts as one, and a new
process comes with its credit and the operations of its body. The credit of a process depends on its
memory and on how many messages it has handled. -/
structure Covers (code : Code κ σ μ ν) (cost : Op κ σ μ ν → ℕ) (credit : κ → σ → ℕ → ℕ) : Prop where
  send : ∀ target m, 1 < cost (.send target m)
  spawn : ∀ j memory,
    credit j memory 0 + ((code.body j memory).map cost).sum < cost (.spawn j memory)
  complete : ∀ v, 0 < cost (.complete v)
  sealChannel : 0 < cost .sealChannel

/-- What a process may still do. -/
def weight (cost : Op κ σ μ ν → ℕ) (credit : κ → σ → ℕ → ℕ) (k : κ) (r : Process κ σ μ ν) : ℕ :=
  credit k r.memory r.handled + (r.todo.map cost).sum + r.queue.length

def load (cost : Op κ σ μ ν → ℕ) (credit : κ → σ → ℕ → ℕ) (s : State κ σ μ ν) : ℕ :=
  ∑ k ∈ s.live, weight cost credit k (s.process k)

variable (cost credit) in
theorem load_set (r : Process κ σ μ ν) (mem : k ∈ s.live) :
    load cost credit (s.set k r) + weight cost credit k (s.process k) =
      load cost credit s + weight cost credit k r := by
  have others : ∑ j ∈ s.live.erase k, weight cost credit j ((s.set k r).process j) =
      ∑ j ∈ s.live.erase k, weight cost credit j (s.process j) := by
    refine Finset.sum_congr rfl fun j other => ?_
    rw [s.set_process_of_ne r (Finset.ne_of_mem_erase other)]
  have whole : load cost credit (s.set k r) = ∑ j ∈ s.live, weight cost credit j
      ((s.set k r).process j) := rfl
  rw [whole, load, ← Finset.add_sum_erase _ _ mem, ← Finset.add_sum_erase s.live _ mem, others,
    s.set_process_self]
  omega

/-- A process outside of the sum does not count. -/
theorem load_set_of_notMem (r : Process κ σ μ ν) (absent : k ∉ s.live) :
    load cost credit (s.set k r) = load cost credit s := by
  refine Finset.sum_congr rfl fun j mem => ?_
  rw [s.set_process_of_ne r (ne_of_mem_of_not_mem mem absent)]

variable (cost credit) in
theorem load_send_le (s : State κ σ μ ν) (target : κ) (m : μ) :
    load cost credit (s.send target m) ≤ load cost credit s + 1 := by
  unfold State.send
  dsimp only
  split
  · exact Nat.le_succ _
  · by_cases mem : target ∈ s.live
    · have changed := load_set cost credit
        { s.process target with queue := (s.process target).queue ++ [m] } mem
      simp only [weight, List.length_append, List.length_singleton] at changed
      omega
    · rw [load_set_of_notMem _ mem]
      exact Nat.le_succ _

variable (cost credit) in
theorem load_spawn_le (s : State κ σ μ ν) (j : κ) (r : Process κ σ μ ν) :
    load cost credit { s.set j r with live := insert j s.live } ≤
      load cost credit s + weight cost credit j r := by
  by_cases mem : j ∈ s.live
  · have changed := load_set cost credit r mem
    rw [Finset.insert_eq_of_mem mem]
    have same : load cost credit { s.set j r with live := s.live } = load cost credit (s.set j r) := rfl
    omega
  · have whole : load cost credit { s.set j r with live := insert j s.live } =
        weight cost credit j r + load cost credit (s.set j r) := by
      rw [load, Finset.sum_insert mem, s.set_process_self]
      rfl
    rw [whole, load_set_of_notMem r mem, add_comm]

theorem load_perform_lt (covers : Covers code cost credit) (mem : k ∈ s.live) (op : Op κ σ μ ν) :
    load cost credit (s.perform code k op) < load cost credit s + cost op := by
  cases op with
  | send target m =>
      have sent := load_send_le cost credit s target m
      have := covers.send target m
      show load cost credit (s.send target m) < _
      omega
  | spawn j memory =>
      have spawned := load_spawn_le cost credit s j { memory := memory, todo := code.body j memory }
      have := covers.spawn j memory
      refine lt_of_le_of_lt spawned ?_
      simp only [weight, List.length_nil]
      omega
  | complete v => exact Nat.lt_add_of_pos_right (covers.complete v)
  | sealChannel =>
      have changed := load_set cost credit
        { s.process k with isSealed := true } mem
      have := covers.sealChannel
      show load cost credit (s.set k { s.process k with isSealed := true }) < _
      simp only [weight] at changed
      dsimp only
      omega

/-- Every turn lowers the load, if the handler pays for what it starts. -/
theorem load_lt (covers : Covers code cost credit) (mem : k ∈ s.live)
    (moves : step code k s = some s')
    (pays : ∀ m rest, (s.process k).todo = [] → (s.process k).queue = m :: rest →
      (s.process k).isSealed = false →
      credit k (code.handle k (s.process k).memory m).1 ((s.process k).handled + 1) +
          ((code.handle k (s.process k).memory m).2.map cost).sum ≤
        credit k (s.process k).memory (s.process k).handled) :
    load cost credit s' < load cost credit s := by
  rcases step_cases moves with ⟨op, ops, doing, rfl⟩ | ⟨m, rest, idle, waiting, rfl⟩
  · have performed := load_perform_lt covers (s := s.set k { s.process k with todo := ops }) mem op
    have changed := load_set cost credit
      { s.process k with todo := ops } mem
    simp only [weight, doing, List.map_cons, List.sum_cons] at changed
    dsimp only at performed ⊢
    omega
  · unfold State.deliver
    dsimp only
    split
    next =>
      have changed := load_set cost credit
        { s.process k with queue := rest } mem
      simp only [weight, waiting, List.length_cons] at changed
      show load cost credit (s.set k { s.process k with queue := rest }) < _
      dsimp only
      omega
    next opened =>
      have paid := pays m rest idle waiting (Bool.not_eq_true _ ▸ opened)
      have changed := load_set cost credit { s.process k with
        memory := (code.handle k (s.process k).memory m).1
        todo := (code.handle k (s.process k).memory m).2
        queue := rest
        handled := (s.process k).handled + 1 } mem
      simp only [weight, idle, waiting, List.map_nil, List.sum_nil, List.length_cons] at changed
      omega

end Load

end Reactors
