import Renaissance.Lib.JavaInt
import Renaissance.Lib.Reactors

/-!
# ThreadRing

The workers of `ThreadRing.run` with a ring of any size and the token that they forward. `rounds` is
how often a worker really handles the token: a worker that starts at `0` counts down until its counter
overflows and comes back.

* `circulates_rounds`: every run ends after `rounds` rounds, whatever the size;
* `threadRing_iff`: these are `sz / size` rounds exactly if there is at least one.
-/

namespace Renaissance.ThreadRing

open JavaInt Reactors Transition

/-- The thread that calls `run`, and the workers `ring(i)`. -/
inductive Thread
  | main
  | worker (i : ℕ)
  deriving DecidableEq, Repr

abbrev Op := Reactors.Op Thread Int Int Int

abbrev State := Reactors.State Thread Int Int Int

/-- `ThreadRing.RING_SIZE`. -/
def ringSize : ℕ :=
  1000

/-- The handler of the worker `i` in a ring of `length` workers. -/
def onToken (length i : ℕ) (rounds x : Int) : Int × List Op :=
  let rounds := int (rounds - 1)
  (rounds,
    (if rounds = 0 then
      .sealChannel :: (if i + 1 = length then [.complete rounds] else [])
    else []) ++
    [.send (.worker ((i + 1) % length)) x])

/-- The memory of a worker is its variable `rounds`. Its body only installs the handler, and nothing
sends to the calling thread. -/
def code (length : ℕ) : Code Thread Int Int Int where
  body _ _ := []
  handle
    | .main, rounds, _ => (rounds, [])
    | .worker i, rounds, x => onToken length i rounds x

/-- The ring is created, and the calling thread has to send the token to the first worker. -/
def start (length : ℕ) (sz : Int) : State where
  process
    | .main => { memory := 0, todo := [.send (.worker 0) 666] }
    | .worker _ => { memory := sz.tdiv length }
  live := insert .main ((Finset.range length).image .worker)

/-- How often a worker handles the token before its counter is `0`. -/
def rounds (length : ℕ) (sz : Int) : ℕ :=
  if sz.tdiv length = 0 then 2 ^ 32 else (sz.tdiv length).toNat

/-! ## The invariant -/

variable {length n c q : ℕ} {m : Int} {s s' : State} {r : Process Thread Int Int Int}

/-- A counter that starts at `m` is `0` after `n` steps and not before. -/
structure Counts (m : Int) (n : ℕ) : Prop where
  positive : 1 ≤ n
  zero : ∀ h : ℕ, 1 ≤ h → h ≤ n → (int (m - h) = 0 ↔ h = n)

theorem counts_rounds {sz : Int} (nonneg : 0 ≤ sz) (fits : sz ≤ 2147483647) :
    Counts (sz.tdiv length) (rounds length sz) := by
  have low : 0 ≤ sz.tdiv length := Int.tdiv_nonneg nonneg (Int.natCast_nonneg _)
  have high : sz.tdiv length ≤ sz := Int.tdiv_le_self _ nonneg
  have small {x : Int} : int x = 0 ↔ (4294967296 : Int) ∣ x := Int.dvd_iff_bmod_eq_zero.symm
  unfold rounds
  split
  next none =>
    refine ⟨Nat.one_le_two_pow, fun h one most => ?_⟩
    rw [none, small]
    omega
  next some =>
    refine ⟨by omega, fun h one most => ?_⟩
    rw [small]
    omega

/-- A worker has handled `h` messages and waits for the next one. -/
structure Rests (m : Int) (n : ℕ) (r : Process Thread Int Int Int) (h : ℕ) : Prop where
  todo : r.todo = []
  queue : r.queue = []
  handled : r.handled = h
  memory : r.memory = int (m - h)
  isSealed : r.isSealed = decide (h = n)

/-- The first `c` workers have handled `q + 1` messages and the other ones `q`. -/
def At (q c j : ℕ) : ℕ :=
  q + if j < c then 1 else 0

/-- What the worker `c` has to do when it has handled `q + 1` messages, its channel, and what the promise
was completed with. -/
inductive Does (length n c q : ℕ) : List Op → Bool → List Int → Prop
  | forward : q + 1 < n → Does length n c q [.send (.worker ((c + 1) % length)) 666] false []
  | leave : q + 1 = n → c + 1 < length →
      Does length n c q [.sealChannel, .send (.worker ((c + 1) % length)) 666] false []
  | left : q + 1 = n → c + 1 < length →
      Does length n c q [.send (.worker ((c + 1) % length)) 666] true []
  | last : q + 1 = n → c + 1 = length → Does length n c q
      [.sealChannel, .complete 0, .send (.worker ((c + 1) % length)) 666] false []
  | complete : q + 1 = n → c + 1 = length →
      Does length n c q [.complete 0, .send (.worker ((c + 1) % length)) 666] true []
  | close : q + 1 = n → c + 1 = length →
      Does length n c q [.send (.worker ((c + 1) % length)) 666] true [0]

/-- Where the token is. -/
inductive Token (length n : ℕ) (m : Int) (s : State) : Prop
  | starting : (s.process .main).todo = [.send (.worker 0) 666] → s.completed = [] → s.dropped = [] →
      (∀ j < length, Rests m n (s.process (.worker j)) 0) → Token length n m s
  | waiting (q c : ℕ) : (s.process .main).todo = [] → s.completed = [] → s.dropped = [] → q < n →
      c < length → (∀ j < length, j ≠ c → Rests m n (s.process (.worker j)) (At q c j)) →
      (s.process (.worker c)).queue = [666] →
      Rests m n { s.process (.worker c) with queue := [] } q → Token length n m s
  | working (q c : ℕ) : (s.process .main).todo = [] → s.dropped = [] → q < n → c < length →
      (∀ j < length, j ≠ c → Rests m n (s.process (.worker j)) (At q c j)) →
      Does length n c q (s.process (.worker c)).todo (s.process (.worker c)).isSealed s.completed →
      Rests m n { s.process (.worker c) with todo := [], isSealed := decide (q + 1 = n) } (q + 1) →
      Token length n m s
  | finished : (s.process .main).todo = [] → s.completed = [0] → s.dropped = [(.worker 0, 666)] →
      (∀ j < length, Rests m n (s.process (.worker j)) n) → Token length n m s

/-- Nobody but the workers of the ring gets messages. -/
structure Closed (length : ℕ) (s : State) : Prop where
  live : s.live = insert .main ((Finset.range length).image .worker)
  main : (s.process .main).queue = []
  others : ∀ j, length ≤ j → (s.process (.worker j)).todo = [] ∧ (s.process (.worker j)).queue = []

structure Invariant (length n : ℕ) (m : Int) (s : State) : Prop where
  closed : Closed length s
  token : Token length n m s

theorem Invariant.start {sz : Int} (m_eq : m = sz.tdiv length) (counts : Counts m n)
    (fits : int m = m) : Invariant length n m (start length sz) where
  closed := ⟨rfl, rfl, fun _ _ => ⟨rfl, rfl⟩⟩
  token := by
    refine .starting rfl rfl rfl fun j _ => ⟨rfl, rfl, rfl, ?_, ?_⟩
    · rw [Nat.cast_zero, sub_zero, fits]
      exact m_eq.symm
    · have := counts.positive
      exact (decide_eq_false (by omega)).symm

/-! ## One turn -/

theorem at_self (q c : ℕ) : At q c c = q := by
  unfold At
  rw [if_neg (lt_irrefl c), add_zero]

/-- When the worker `c` is done with the token, it is like the ones before it. -/
theorem at_succ {j : ℕ} (other : j ≠ c) : At q (c + 1) j = At q c j := by
  unfold At
  split <;> split <;> omega

/-- The token is sent to the next worker, which still takes messages. -/
theorem Token.send (main : (s.process .main).todo = []) (completed : s.completed = [])
    (dropped : s.dropped = []) (more : q < n) (inside : c < length)
    (round : ∀ j < length, Rests m n (s.process (.worker j)) (At q c j)) :
    Token length n m (s.send (.worker c) 666) := by
  have mine := round c inside
  rw [at_self] at mine
  have opened : (s.process (.worker c)).isSealed = false := by
    rw [mine.isSealed]
    exact decide_eq_false more.ne
  rw [State.send_eq 666 opened]
  refine .waiting q c ?_ completed dropped more inside (fun j within other => ?_) ?_ ?_
  · rwa [State.set_process_of_ne _ _ (by simp)]
  · rw [State.set_process_of_ne _ _ (by simpa using other)]
    exact round j within
  · rw [State.set_process_self, mine.queue]
    rfl
  · rw [State.set_process_self]
    exact { mine with queue := rfl }

/-- The worker `c` has sent the token on. -/
theorem round_succ {r : Process Thread Int Int Int} (mine : Rests m n r (q + 1))
    (others : ∀ j < length, j ≠ c → Rests m n (s.process (.worker j)) (At q c j)) (j : ℕ)
    (within : j < length) : Rests m n ((s.set (.worker c) r).process (.worker j)) (At q (c + 1) j) := by
  by_cases same : j = c
  · subst same
    rw [State.set_process_self]
    have now : At q (j + 1) j = q + 1 := by
      unfold At
      rw [if_pos (Nat.lt_succ_self j)]
    rwa [now]
  · rw [State.set_process_of_ne _ _ (by simpa using same), at_succ same]
    exact others j within same

/-- A whole round. -/
theorem at_length {j : ℕ} (within : j < length) : At q length j = At (q + 1) 0 j := by
  unfold At
  rw [if_pos within, if_neg (Nat.not_lt_zero j)]

/-- The worker `c` sends the token on as the last thing it does. -/
theorem Token.forward (main : (s.process .main).todo = []) (dropped : s.dropped = [])
    (more : q < n) (inside : c < length)
    (others : ∀ j < length, j ≠ c → Rests m n (s.process (.worker j)) (At q c j))
    (rests : Rests m n { s.process (.worker c) with todo := [], isSealed := decide (q + 1 = n) } (q + 1))
    (closed : (s.process (.worker c)).isSealed = decide (q + 1 = n))
    (completed : s.completed = if q + 1 = n ∧ c + 1 = length then [0] else []) :
    Token length n m
      ((s.set (.worker c) { s.process (.worker c) with todo := [] }).send
        (.worker ((c + 1) % length)) 666) := by
  rw [← closed] at rests
  have round := round_succ rests others
  have main' : ((s.set (.worker c) { s.process (.worker c) with todo := [] }).process .main).todo =
      [] := by
    rwa [State.set_process_of_ne _ _ (by simp)]
  by_cases around : c + 1 = length
  · rw [around, Nat.mod_self]
    rw [around] at round
    have next : ∀ j < length, Rests m n
        ((s.set (.worker c) { s.process (.worker c) with todo := [] }).process (.worker j))
        (At (q + 1) 0 j) := fun j within => at_length within ▸ round j within
    by_cases last : q + 1 = n
    · -- the first worker has sealed its channel
      have ended : ∀ j < length, Rests m n
          ((s.set (.worker c) { s.process (.worker c) with todo := [] }).process (.worker j)) n := by
        intro j within
        have := next j within
        rwa [At, if_neg (Nat.not_lt_zero j), Nat.add_zero, last] at this
      have sealed : ((s.set (.worker c) { s.process (.worker c) with todo := [] }).process
          (.worker 0)).isSealed = true := by
        rw [(ended 0 (by omega)).isSealed]
        exact decide_eq_true rfl
      rw [State.send_sealed 666 sealed]
      rw [if_pos ⟨last, around⟩] at completed
      refine .finished main' completed ?_ ended
      rw [State.set_dropped, dropped]
      rfl
    · refine Token.send main' ?_ dropped (by omega) (by omega) next
      rw [State.set_completed, completed, if_neg fun both => last both.1]
  · rw [Nat.mod_eq_of_lt (by omega)]
    refine Token.send main' ?_ dropped more (by omega) round
    rw [State.set_completed, completed, if_neg fun both => around both.2]

theorem Rests.not_moves {k : Thread} {h : ℕ} (rests : Rests m n (s.process k) h) :
    step (code length) k s ≠ some s' := by
  rw [step_eq_none rests.todo rests.queue]
  exact (Option.some_ne_none s').symm

/-- The worker `c` carries out an operation. -/
theorem Token.work (main : (s.process .main).todo = []) (dropped : s.dropped = []) (more : q < n)
    (inside : c < length)
    (others : ∀ j < length, j ≠ c → Rests m n (s.process (.worker j)) (At q c j))
    (does : Does length n c q (s.process (.worker c)).todo (s.process (.worker c)).isSealed s.completed)
    (rests : Rests m n { s.process (.worker c) with todo := [], isSealed := decide (q + 1 = n) } (q + 1))
    {op : Op} {ops : List Op} (doing : (s.process (.worker c)).todo = op :: ops) :
    Token length n m ((s.set (.worker c) { s.process (.worker c) with todo := ops }).perform
      (code length) (.worker c) op) := by
  have others' (r : Process Thread Int Int Int) : ∀ j < length, j ≠ c →
      Rests m n ((s.set (.worker c) r).process (.worker j)) (At q c j) := by
    intro j within other
    rw [State.set_process_of_ne _ _ (by simpa using other)]
    exact others j within other
  have main' (r : Process Thread Int Int Int) :
      ((s.set (.worker c) r).process .main).todo = [] := by
    rwa [State.set_process_of_ne _ _ (by simp)]
  generalize todo_eq : (s.process (.worker c)).todo = todo at does
  generalize closed_eq : (s.process (.worker c)).isSealed = closed at does
  generalize completed_eq : s.completed = completed at does
  rw [todo_eq] at doing
  -- the token goes on in the first three cases, and stays where it is in the others
  cases does with
  | forward again =>
      cases doing
      exact Token.forward main dropped more inside others rests
        (by rw [closed_eq]; exact (decide_eq_false again.ne).symm)
        (by rw [completed_eq, if_neg fun both => again.ne both.1])
  | left last before =>
      cases doing
      exact Token.forward main dropped more inside others rests
        (by rw [closed_eq]; exact (decide_eq_true last).symm)
        (by rw [completed_eq, if_neg fun both => before.ne both.2])
  | close last around =>
      cases doing
      exact Token.forward main dropped more inside others rests
        (by rw [closed_eq]; exact (decide_eq_true last).symm)
        (by rw [completed_eq, if_pos ⟨last, around⟩])
  | leave last before =>
      cases doing
      rw [State.perform_sealChannel]
      refine .working q c (main' _) dropped more inside (others' _) ?_ ?_
      all_goals rw [State.set_process_self]
      · rw [State.set_completed, completed_eq]
        exact .left last before
      · exact { rests with }
  | last last around =>
      cases doing
      rw [State.perform_sealChannel]
      refine .working q c (main' _) dropped more inside (others' _) ?_ ?_
      all_goals rw [State.set_process_self]
      · rw [State.set_completed, completed_eq]
        exact .complete last around
      · exact { rests with }
  | complete last around =>
      cases doing
      refine .working q c
        (main' { s.process (.worker c) with todo := [.send (.worker ((c + 1) % length)) 666] }) dropped
        more inside
        (others' { s.process (.worker c) with todo := [.send (.worker ((c + 1) % length)) 666] }) ?_ ?_
      all_goals
        unfold State.perform
        dsimp only
        rw [State.set_process_self]
      · rw [State.set_completed, completed_eq, closed_eq]
        exact .close last around
      · exact { rests with }

/-- The worker `c` takes the token. -/
theorem Token.take (counts : Counts m n) (main : (s.process .main).todo = [])
    (completed : s.completed = []) (dropped : s.dropped = []) (more : q < n) (inside : c < length)
    (others : ∀ j < length, j ≠ c → Rests m n (s.process (.worker j)) (At q c j))
    (rests : Rests m n { s.process (.worker c) with queue := [] } q) :
    Token length n m (s.deliver (code length) (.worker c) 666 []) := by
  have opened : (s.process (.worker c)).isSealed = false := by
    rw [rests.isSealed]
    exact decide_eq_false more.ne
  have memory : int ((s.process (.worker c)).memory - 1) = int (m - (q + 1 : ℕ)) := by
    rw [rests.memory, sub_eq_add_neg, int, wrap_wrap_add]
    push_cast
    congr 1
    omega
  rw [State.deliver_eq 666 [] opened]
  refine .working q c ?_ dropped more inside (fun j within other => ?_) ?_ ?_
  · rwa [State.set_process_of_ne _ _ (by simp)]
  · rw [State.set_process_of_ne _ _ (by simpa using other)]
    exact others j within other
  · rw [State.set_process_self, State.set_completed, completed]
    show Does length n c q (onToken length c (s.process (.worker c)).memory 666).2
      (s.process (.worker c)).isSealed []
    unfold onToken
    dsimp only
    rw [memory, opened]
    have zero := counts.zero (q + 1) (Nat.le_add_left 1 q) more
    by_cases last : q + 1 = n
    · rw [if_pos (zero.mpr last), zero.mpr last]
      by_cases around : c + 1 = length
      · rw [if_pos around]
        exact .last last around
      · rw [if_neg around]
        exact .leave last (by omega)
    · rw [if_neg (mt zero.mp last)]
      exact .forward (by omega)
  · rw [State.set_process_self]
    exact {
      todo := rfl
      queue := rfl
      handled := by rw [← rests.handled]
      memory := memory
      isSealed := rfl }

theorem Closed.set (closed : Closed length s) (inside : c < length) (r : Process Thread Int Int Int) :
    Closed length (s.set (.worker c) r) where
  live := closed.live
  main := by
    rw [State.set_process_of_ne _ _ (by simp)]
    exact closed.main
  others j beyond := by
    rw [State.set_process_of_ne _ _ (by simp; omega)]
    exact closed.others j beyond

theorem Closed.send (closed : Closed length s) (inside : c < length) (x : Int) :
    Closed length (s.send (.worker c) x) := by
  unfold State.send
  dsimp only
  split
  · exact { closed with }
  · exact closed.set inside _

theorem Closed.perform (closed : Closed length s) (inside : c < length) {op : Op} {ops : List Op}
    {isSealed : Bool} {completed : List Int}
    (does : Does length n c q (op :: ops) isSealed completed) :
    Closed length (s.perform (code length) (.worker c) op) := by
  have next : (c + 1) % length < length := Nat.mod_lt _ (by omega)
  cases does with
  | forward | left | close => exact closed.send next 666
  | leave | last => exact closed.set inside _
  | complete => exact { closed with }

theorem Closed.deliver (closed : Closed length s) (inside : c < length) (x : Int) (rest : List Int) :
    Closed length (s.deliver (code length) (.worker c) x rest) := by
  unfold State.deliver
  dsimp only
  split
  · exact { closed.set inside _ with }
  · exact closed.set inside _

theorem Invariant.turn_main (inv : Invariant length n m s) (counts : Counts m n)
    (positive : 1 ≤ length) (moves : step (code length) .main s = some s') :
    Invariant length n m s' := by
  obtain ⟨closed, token⟩ := inv
  rcases step_cases moves with ⟨op, ops, doing, rfl⟩ | ⟨x, rest, -, waiting, rfl⟩
  · cases token with
    | starting main completed dropped round =>
        rw [main] at doing
        cases doing
        have still : Closed length (s.set .main { s.process .main with todo := [] }) := by
          refine ⟨closed.live, ?_, fun j beyond => ?_⟩
          · rw [State.set_process_self]
            exact closed.main
          · rw [State.set_process_of_ne _ _ (by simp)]
            exact closed.others j beyond
        refine ⟨still.send positive 666, Token.send ?_ completed dropped counts.positive positive ?_⟩
        · rw [State.set_process_self]
        · intro j within
          rw [State.set_process_of_ne _ _ (by simp), At, if_neg (Nat.not_lt_zero j)]
          exact round j within
    | waiting _ _ main | working _ _ main | finished main => rw [main] at doing; cases doing
  · rw [closed.main] at waiting
    cases waiting

theorem Invariant.turn_worker (inv : Invariant length n m s) (counts : Counts m n) {i : ℕ}
    (moves : step (code length) (.worker i) s = some s') : Invariant length n m s' := by
  obtain ⟨closed, token⟩ := inv
  have inside : i < length := by
    by_contra beyond
    obtain ⟨idle, empty⟩ := closed.others i (by omega)
    rw [step_eq_none idle empty] at moves
    cases moves
  cases token with
  | starting _ _ _ round => exact absurd moves (round i inside).not_moves
  | finished _ _ _ round => exact absurd moves (round i inside).not_moves
  | waiting q c main completed dropped more _ others queue rests =>
      have mine : i = c := by
        by_contra other
        exact (others i inside other).not_moves moves
      subst mine
      have idle : (s.process (.worker i)).todo = [] := rests.todo
      rcases step_cases moves with ⟨op, ops, doing, rfl⟩ | ⟨x, rest, -, waiting, rfl⟩
      · rw [idle] at doing
        cases doing
      · rw [queue] at waiting
        cases waiting
        exact ⟨closed.deliver inside _ _,
          Token.take counts main completed dropped more inside others rests⟩
  | working q c main dropped more _ others does rests =>
      have mine : i = c := by
        by_contra other
        exact (others i inside other).not_moves moves
      subst mine
      rcases step_cases moves with ⟨op, ops, doing, rfl⟩ | ⟨x, rest, -, waiting, rfl⟩
      · refine ⟨(closed.set inside _).perform inside (doing ▸ does),
          Token.work main dropped more inside others does rests doing⟩
      · have empty : (s.process (.worker i)).queue = [] := rests.queue
        rw [empty] at waiting
        cases waiting

theorem Invariant.turn (inv : Invariant length n m s) (counts : Counts m n) (positive : 1 ≤ length)
    {k : Thread} (moves : step (code length) k s = some s') : Invariant length n m s' := by
  cases k with
  | main => exact inv.turn_main counts positive moves
  | worker i => exact inv.turn_worker counts moves

/-! ## The end of a run -/

/-- What a worker may still cost when it has handled `handled` of `n` messages. -/
def credit (n : ℕ) : Thread → Int → ℕ → ℕ
  | .main, _, _ => 0
  | .worker _, _, handled => 4 * (n - handled)

def cost (n : ℕ) : Op → ℕ
  | .send _ _ => 2
  | .spawn j memory => credit n j memory 0 + 1
  | .complete _ | .sealChannel => 1

theorem covers (length n : ℕ) : Covers (code length) (cost n) (credit n) where
  send _ _ := Nat.lt_succ_self 1
  spawn _ _ := Nat.lt_succ_self _
  complete _ := Nat.one_pos
  sealChannel := Nat.one_pos

theorem cost_onToken (length n i : ℕ) (rounds x : Int) :
    ((onToken length i rounds x).2.map (cost n)).sum ≤ 4 := by
  unfold onToken
  dsimp only
  split
  · split
    · exact le_rfl
    · exact Nat.le_succ 3
  · exact Nat.le_add_right 2 2

/-- A worker in whose channel the token is has rounds left. -/
theorem Token.handled_lt (token : Token length n m s) {i : ℕ} (inside : i < length) {x : Int}
    {rest : List Int} (waiting : (s.process (.worker i)).queue = x :: rest) :
    (s.process (.worker i)).handled < n := by
  cases token with
  | starting _ _ _ round | finished _ _ _ round =>
      rw [(round i inside).queue] at waiting
      cases waiting
  | waiting q c _ _ _ more _ others _ rests =>
      by_cases mine : i = c
      · subst mine
        exact lt_of_eq_of_lt rests.handled more
      · rw [(others i inside mine).queue] at waiting
        cases waiting
  | working q c _ _ _ _ others _ rests =>
      by_cases mine : i = c
      · subst mine
        have empty : (s.process (.worker i)).queue = [] := rests.queue
        rw [empty] at waiting
        cases waiting
      · rw [(others i inside mine).queue] at waiting
        cases waiting

theorem Invariant.lowers (inv : Invariant length n m s) {k : Thread}
    (moves : step (code length) k s = some s') :
    load (cost n) (credit n) s' < load (cost n) (credit n) s := by
  obtain ⟨closed, token⟩ := inv
  cases k with
  | main =>
      have mem : Thread.main ∈ s.live := closed.live ▸ Finset.mem_insert_self _ _
      refine load_lt (covers length n) mem moves fun x rest _ waiting _ => ?_
      rw [closed.main] at waiting
      cases waiting
  | worker i =>
      have inside : i < length := by
        by_contra beyond
        obtain ⟨idle, empty⟩ := closed.others i (by omega)
        rw [step_eq_none idle empty] at moves
        cases moves
      have mem : Thread.worker i ∈ s.live := by
        rw [closed.live]
        exact Finset.mem_insert_of_mem (Finset.mem_image_of_mem _ (Finset.mem_range.mpr inside))
      refine load_lt (covers length n) mem moves fun x rest _ waiting _ => ?_
      have more := token.handled_lt inside waiting
      have price := cost_onToken length n i (s.process (.worker i)).memory x
      show 4 * (n - (_ + 1)) + ((onToken length i _ x).2.map (cost n)).sum ≤ 4 * (n - _)
      omega

/-- How often the token was handled. -/
def delivered (length : ℕ) (s : State) : ℕ :=
  ∑ j ∈ Finset.range length, (s.process (.worker j)).handled

/-- What holds when everything is over. -/
structure Finished (length n : ℕ) (s : State) : Prop where
  delivered : delivered length s = length * n
  handled : ∀ j < length, (s.process (.worker j)).handled = n
  completed : s.completed = [0]
  /-- The first worker has sealed its channel. -/
  dropped : s.dropped = [(.worker 0, 666)]
  idle : ∀ k, (s.process k).todo = [] ∧ (s.process k).queue = []

theorem Invariant.stuck (inv : Invariant length n m s)
    (stuck : ∀ k s', step (code length) k s ≠ some s') : Finished length n s := by
  have idle := idle_of_stuck stuck
  cases inv.token with
  | starting main => rw [(idle .main).1] at main; cases main
  | waiting q c _ _ _ _ _ _ queue => rw [(idle (.worker c)).2] at queue; cases queue
  | working q c _ _ _ _ _ does =>
      rw [(idle (.worker c)).1] at does
      cases does
  | finished _ completed dropped round =>
      have handled : ∀ j < length, (s.process (.worker j)).handled = n :=
        fun j within => (round j within).handled
      refine ⟨?_, handled, completed, dropped, idle⟩
      unfold ThreadRing.delivered
      rw [Finset.sum_congr rfl fun j mem => handled j (Finset.mem_range.mp mem), Finset.sum_const,
        Finset.card_range, smul_eq_mul]

/-- No worker handles the token more than `n` times on the way. -/
theorem Invariant.handled_le (inv : Invariant length n m s) {j : ℕ} (within : j < length) :
    (s.process (.worker j)).handled ≤ n := by
  have at_le (q c : ℕ) (more : q < n) : At q c j ≤ n := by
    unfold At
    split <;> omega
  cases inv.token with
  | starting _ _ _ round => rw [(round j within).handled]; exact Nat.zero_le n
  | finished _ _ _ round => exact (round j within).handled.le
  | waiting q c _ _ _ more _ others _ rests =>
      by_cases mine : j = c
      · subst mine
        exact rests.handled.le.trans more.le
      · rw [(others j within mine).handled]
        exact at_le q c more
  | working q c _ _ more _ others _ rests =>
      by_cases mine : j = c
      · subst mine
        exact rests.handled.le.trans more
      · rw [(others j within mine).handled]
        exact at_le q c more

theorem Invariant.promise (inv : Invariant length n m s) :
    s.completed = [] ∨ s.completed = [0] := by
  cases inv.token with
  | starting _ completed | waiting _ _ _ completed => exact .inl completed
  | finished _ completed => exact .inr completed
  | working q c _ _ _ _ _ does =>
      generalize (s.process (.worker c)).todo = todo at does
      generalize (s.process (.worker c)).isSealed = isSealed at does
      generalize s.completed = completed at does
      cases does with
      | forward | leave | left | last | complete => exact .inl rfl
      | close => exact .inr rfl

/-- Every run hands the token round `n` times, completes the promise exactly once and with `0`, and
loses the token at the first worker. -/
def Circulates (length n : ℕ) (sz : Int) : Prop :=
  Inevitable (step (code length)) (Finished length n) (start length sz) ∧
  ∀ s, Reachable (step (code length)) (start length sz) s → delivered length s ≤ length * n ∧
    (∀ j < length, (s.process (.worker j)).handled ≤ n) ∧ (s.completed = [] ∨ s.completed = [0])

theorem circulates_rounds {sz : Int} (positive : 1 ≤ length) (nonneg : 0 ≤ sz)
    (fits : sz ≤ 2147483647) : Circulates length (rounds length sz) sz := by
  have counts : Counts (sz.tdiv length) (rounds length sz) := counts_rounds nonneg fits
  have low : 0 ≤ sz.tdiv length := Int.tdiv_nonneg nonneg (Int.natCast_nonneg _)
  have high : sz.tdiv length ≤ sz := Int.tdiv_le_self _ nonneg
  have start : Invariant length (rounds length sz) (sz.tdiv length) (start length sz) :=
    .start rfl counts (int_eq_self (by omega) (by omega))
  constructor
  · refine inevitable_of_measure (load (cost _) (credit _))
      (fun k s s' inv moves => Invariant.turn inv counts positive moves) (fun s inv running => ?_)
      (fun k s s' inv moves => inv.lowers moves) start
    by_contra stuck
    push Not at stuck
    exact running (inv.stuck stuck)
  · intro s reachable
    have inv := reachable.invariant start fun k s s' inv moves => inv.turn counts positive moves
    refine ⟨?_, fun j within => inv.handled_le within, inv.promise⟩
    have most := Finset.sum_le_card_nsmul (Finset.range length)
      (fun j => (s.process (.worker j)).handled) (rounds length sz)
      fun j mem => inv.handled_le (Finset.mem_range.mp mem)
    rwa [Finset.card_range, smul_eq_mul] at most

/-- With less than one round, the token goes round until the counters overflow. -/
theorem not_circulates {sz : Int} (positive : 1 ≤ length) (nonneg : 0 ≤ sz) (few : sz < length)
    (fits : sz ≤ 2147483647) : ¬ Circulates length (sz.tdiv length).toNat sz := by
  intro circulates
  have none : sz.tdiv length = 0 := Int.tdiv_eq_zero_of_lt nonneg few
  obtain ⟨s, reachable, finished⟩ := (circulates_rounds positive nonneg fits).1.reachable
  have most := (circulates.2 s reachable).2.1 0 positive
  rw [finished.handled 0 positive, rounds, if_pos none, none] at most
  exact absurd most (by decide)

/-- The token is handed round `sz / length` times exactly if this is at least one round. -/
theorem threadRing_iff {sz : Int} (positive : 1 ≤ length) (nonneg : 0 ≤ sz)
    (fits : sz ≤ 2147483647) : Circulates length (sz.tdiv length).toNat sz ↔ length ≤ sz := by
  constructor
  · intro circulates
    by_contra few
    exact not_circulates positive nonneg (by omega) fits circulates
  · intro round
    have some : sz.tdiv length ≠ 0 := by
      have one : (1 : ℤ) ≤ sz / length := (Int.le_ediv_iff_mul_le (by omega)).mpr (by omega)
      rw [Int.tdiv_eq_ediv_of_nonneg nonneg]
      omega
    have circulates := circulates_rounds positive nonneg fits
    rwa [rounds, if_neg some] at circulates

/-- Three workers and eight messages: two rounds. -/
theorem threadRing_iff_three : Circulates 3 ((8 : ℤ).tdiv (3 : ℕ)).toNat 8 ↔ ((3 : ℕ) : ℤ) ≤ 8 :=
  threadRing_iff (by decide) (by decide) (by decide)

/-- The ring of the benchmark with a scaling factor of `0.0001`. -/
theorem not_circulates_small :
    ¬ Circulates ringSize ((250 : ℤ).tdiv ringSize).toNat 250 :=
  not_circulates (by decide) (by decide) (by decide) (by decide)

end Renaissance.ThreadRing
