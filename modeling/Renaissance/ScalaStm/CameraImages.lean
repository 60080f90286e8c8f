import Mathlib.Algebra.Order.BigOperators.Group.Finset
import Renaissance.ScalaStm.ForkOwners

/-!
# How many images the camera takes

With `M` meals in blocks of `2 ^ k`, a philosopher whose thread has `round` iterations behind it has
notified the controller of `round / 2 ^ k` blocks. The invariant `Counted` follows these blocks through
the counters of the controller to the images, and `remaining` bounds the transactions that are left, so
every interleaving comes to the same end.
-/

namespace Renaissance.RealityShowPhilosophers

open JavaInt Transition

variable {P M k : ℕ} {s s' : State P}

theorem isBlockComplete_iff {n : ℕ} (bits : k < 31) (fits : n < 2147483648) :
    CameraController.isBlockComplete (2 ^ k) n = true ↔ 2 ^ k ∣ n := by
  have small : (2 ^ k : ℤ) < 2147483648 := by
    have := Nat.pow_lt_pow_right (a := 2) (by omega) bits
    exact_mod_cast this
  have positive : (0 : ℤ) < 2 ^ k := Int.pow_pos (by decide)
  unfold CameraController.isBlockComplete
  dsimp only
  rw [int_eq_self (by omega) (by omega), beq_iff_eq, and_mask_eq_zero_iff fits bits]

/-- The blocks that the controller was notified of. -/
def completed (k : ℕ) (phase : Fin P → Phase) : ℕ :=
  ∑ i, (phase i).round / 2 ^ k

theorem completed_update (phase : Fin P → Phase) (i : Fin P) (next : Phase) :
    completed k (Function.update phase i next) + (phase i).round / 2 ^ k =
      completed k phase + next.round / 2 ^ k :=
  sum_update_add (fun phase : Phase => phase.round / 2 ^ k) phase i next

/-- A change of place within a block is not noticed. -/
theorem completed_same {phase : Fin P → Phase} {i : Fin P} {next : Phase}
    (same : next.round / 2 ^ k = (phase i).round / 2 ^ k) :
    completed k (Function.update phase i next) = completed k phase := by
  have := completed_update (k := k) phase i next
  omega

/-- A report ends a block. -/
theorem completed_report {phase : Fin P → Phase} {i : Fin P} {round : ℕ}
    (reporting : phase i = .reporting round) (complete : 2 ^ k ∣ round + 1) :
    completed k (Function.update phase i (.thinking (round + 1))) = completed k phase + 1 := by
  have := completed_update (k := k) phase i (.thinking (round + 1))
  rw [reporting] at this
  simp only [Phase.round] at this
  rw [Nat.succ_div_of_dvd complete] at this
  omega

theorem completed_le (fed : ∀ i, Fed M (2 ^ k) (s.mealsEaten i) (s.phase i)) :
    completed k s.phase ≤ P * (M / 2 ^ k) := by
  have each : ∀ i ∈ Finset.univ, (s.phase i).round / 2 ^ k ≤ M / 2 ^ k := by
    intro i _
    refine Nat.div_le_div_right ?_
    have within := (fed i).within
    cases h : s.phase i <;> simp only [h, Phase.eaten, Phase.round] at within ⊢ <;> omega
  have sum := Finset.sum_le_card_nsmul _ _ _ each
  rwa [Finset.card_univ, Fintype.card_fin, smul_eq_mul] at sum

/-- What `run` returns: all forks are free, everybody has eaten `M` meals, and there is one image for
each block. -/
def expected (P M k : ℕ) : Snapshot × ℕ :=
  ((List.replicate P none, List.replicate P (M : ℤ)), M / 2 ^ k)

/-- The counters of the controller against the places of the threads. -/
structure Counted (M k : ℕ) (s : State P) : Prop where
  blocks : s.controller.blockCount = completed k s.phase
  requests : s.controller.requestCount = (completed k s.phase / P : ℕ)
  scans : 0 ≤ s.controller.scanCount ∧ s.controller.scanCount ≤ s.controller.requestCount
  images : s.images.length + (if s.camera = .scanning then 1 else 0) = s.controller.scanCount
  ended : s.camera = .ended →
    s.controller.terminate ∧ s.controller.scanCount = s.controller.requestCount
  terminate : s.controller.terminate ↔ s.main ≠ .joiningPhilosophers
  finished : s.main ≠ .joiningPhilosophers → ∀ i, (s.phase i).Finished M
  returned : ∀ result, s.main = .returned result → result = expected P M k

theorem Counted.start : Counted M k ({} : State P) := by
  have nothing : completed k (fun _ : Fin P => Phase.thinking 0) = 0 := by
    simp [completed, Phase.round]
  refine ⟨?_, ?_, ⟨le_rfl, le_rfl⟩, rfl, fun _ => by contradiction, by simp, by simp, by simp⟩
  · rw [nothing]
    rfl
  · rw [nothing, Nat.zero_div]
    rfl

/-- A philosopher who changes the place within a block leaves the counters right. -/
theorem Counted.same {i : Fin P} {next : Phase} {owner : Fin P → Option String}
    {mealsEaten : Fin P → Int} (counted : Counted M k s)
    (same : next.round / 2 ^ k = (s.phase i).round / 2 ^ k) (busy : ¬ (s.phase i).Finished M) :
    Counted M k { s with
      owner := owner, mealsEaten := mealsEaten, phase := Function.update s.phase i next } where
  blocks := by rw [completed_same same]; exact counted.blocks
  requests := by rw [completed_same same]; exact counted.requests
  scans := counted.scans
  images := counted.images
  ended := counted.ended
  terminate := counted.terminate
  finished late := absurd (counted.finished late i) busy
  returned result returned := by
    have late : s.main ≠ .joiningPhilosophers := by
      intro early
      rw [show s.main = .returned result from returned] at early
      cases early
    exact absurd (counted.finished late i) busy

/-- Every `P`-th block makes a request. -/
theorem notifyBlockComplete_counts {c : CameraController} {n : ℕ} (blocks : c.blockCount = n)
    (requests : c.requestCount = (n / P : ℕ)) (fits : n < 2147483647) :
    c.notifyBlockComplete P = { c with
      blockCount := (n + 1 : ℕ)
      requestCount := ((n + 1) / P : ℕ) } := by
  have nextBlock : int (c.blockCount + 1) = (n + 1 : ℕ) := by
    rw [blocks, int_eq_self (by omega) (by omega)]
    rfl
  have nextRequest : int (c.requestCount + 1) = (n / P + 1 : ℕ) := by
    have few : n / P ≤ n := Nat.div_le_self n P
    generalize n / P = q at requests few
    rw [requests, int_eq_self (by omega) (by omega)]
    rfl
  have turn : ((n + 1 : ℕ) : ℤ).tmod P = 0 ↔ P ∣ n + 1 := by
    rw [← Int.ofNat_tmod, Int.natCast_eq_zero, Nat.dvd_iff_mod_eq_zero]
  unfold CameraController.notifyBlockComplete
  dsimp only
  rw [nextBlock, Nat.succ_div]
  simp only [turn]
  split
  next => rw [nextRequest]
  next => rw [Nat.add_zero (n / P), ← requests]

theorem Counted.report {i : Fin P} {round : ℕ} (counted : Counted M k s)
    (reporting : s.phase i = .reporting round) (complete : 2 ^ k ∣ round + 1)
    (fits : completed k s.phase < 2147483647) : Counted M k (s.report i round) := by
  have more := completed_report reporting complete
  have notified := notifyBlockComplete_counts counted.blocks counted.requests fits
  have early : s.main = .joiningPhilosophers := by
    by_contra late
    have finished := counted.finished late i
    rw [reporting] at finished
    exact finished
  have running : s.controller.terminate = false := by
    rw [Bool.eq_false_iff, Ne, counted.terminate, not_not]
    exact early
  have grows : s.controller.requestCount ≤ ((completed k s.phase + 1) / P : ℕ) := by
    rw [counted.requests]
    exact_mod_cast Nat.div_le_div_right (Nat.le_succ _)
  unfold State.report
  rw [notified]
  exact {
    blocks := by rw [more]
    requests := by rw [more]
    scans := ⟨counted.scans.1, counted.scans.2.trans grows⟩
    images := counted.images
    ended := fun ended => absurd (counted.ended ended).1 (by simp [running])
    terminate := counted.terminate
    finished := fun late => absurd early late
    returned := fun result returned => by
      rw [show s.main = .returned result from returned] at early
      cases early }

theorem Counted.scanned (counted : Counted M k s) (fits : completed k s.phase < 2147483648)
    (requested : s.controller.scanCount < s.controller.requestCount) :
    int (s.controller.scanCount + 1) = s.controller.scanCount + 1 := by
  have few : completed k s.phase / P ≤ completed k s.phase := Nat.div_le_self _ P
  have requests := counted.requests
  have scans := counted.scans
  generalize completed k s.phase / P = q at requests few
  exact int_eq_self (by omega) (by omega)

theorem Finished.round_eq {mealsEaten : Int} {phase : Phase} (fed : Fed M (2 ^ k) mealsEaten phase)
    (finished : phase.Finished M) : phase = .thinking M := by
  cases phase with
  | thinking round =>
      have within := fed.within
      simp only [Phase.Finished, Phase.eaten] at finished within
      rw [show round = M by omega]
  | eating round | reporting round => exact finished.elim

/-- What is left when all threads have ended. -/
theorem Counted.result (positive : 0 < P) (counted : Counted M k s)
    (seated : Seated s.owner s.phase) (fed : ∀ i, Fed M (2 ^ k) (s.mealsEaten i) (s.phase i))
    (joining : s.main = .joiningCamera) (ended : s.camera = .ended) :
    (s.stateSnapshot, s.images.length) = expected P M k := by
  have finished := counted.finished (by rw [joining]; nofun)
  have thinking : ∀ i, s.phase i = .thinking M := fun i => Finished.round_eq (fed i) (finished i)
  have free : s.owner = fun _ => none := by
    funext j
    rw [Option.eq_none_iff_forall_ne_some]
    intro n owned
    obtain ⟨i, eating, -⟩ := seated.owner_eats j n owned
    rw [thinking i] at eating
    exact eating
  have full : s.mealsEaten = fun _ => (M : ℤ) := by
    funext i
    rw [(fed i).eaten, thinking i]
    rfl
  have blocks : completed k s.phase = P * (M / 2 ^ k) := by
    simp [completed, thinking, Phase.round]
  have images := counted.images
  rw [ended, (counted.ended ended).2, counted.requests, blocks, Nat.mul_div_cancel_left _ positive]
    at images
  have length : s.images.length = M / 2 ^ k := by
    simp only [reduceCtorEq, if_false, add_zero, Nat.cast_inj] at images
    exact images
  rw [expected, State.stateSnapshot, free, full, length, List.ofFn_const, List.ofFn_const]

theorem Move.counted (positive : 0 < P) (bits : k < 31) (meals : M < 2147483648)
    (fits : P * (M / 2 ^ k) < 2147483648) (move : Move M (2 ^ k) s s')
    (seated : Seated s.owner s.phase) (fed : ∀ i, Fed M (2 ^ k) (s.mealsEaten i) (s.phase i))
    (counted : Counted M k s) : Counted M k s' := by
  have fed' : ∀ i, Fed M (2 ^ k) (s'.mealsEaten i) (s'.phase i) := move.fed (by omega) fed
  have bound := completed_le fed
  cases move with
  | takeForks thinking left =>
      refine counted.same (by rw [thinking]; rfl) ?_
      rw [thinking, Phase.Finished, not_not]
      exact left
  | @eat i round eating =>
      refine counted.same ?_ (by rw [eating]; exact id)
      have left := (fed i).eating round eating
      have eaten : int (s.mealsEaten i + 1) = (round + 1 : ℕ) := by
        rw [(fed i).eaten, eating]
        exact int_eq_self (by simp only [Phase.eaten]; omega) (by simp only [Phase.eaten]; omega)
      rw [eaten, eating]
      split
      next => rfl
      next incomplete =>
        rw [isBlockComplete_iff bits (by omega)] at incomplete
        exact Nat.succ_div_of_not_dvd incomplete
  | @report i round reporting =>
      have complete := (fed i).reporting round reporting
      have within := (fed i).within
      rw [reporting] at within
      simp only [Phase.eaten] at within
      rw [show (round + 1 : ℤ) = (round + 1 : ℕ) from rfl, isBlockComplete_iff bits (by omega)]
        at complete
      have bound' := completed_le fed'
      simp only [State.report] at bound'
      rw [completed_report reporting complete] at bound'
      exact counted.report reporting complete (by omega)
  | request awaiting requested =>
      rw [counted.scanned (by omega) requested, if_pos (by exact counted.scans.1)]
      exact { counted with
        scans := ⟨by have := counted.scans; dsimp only; omega, by dsimp only; omega⟩
        images := by
          have := counted.images
          rw [awaiting] at this
          simpa using this
        ended := fun ended => by cases ended }
  | endOfProcessing awaiting nothing terminate =>
      exact { counted with
        images := by
          have := counted.images
          rw [awaiting] at this
          simpa using this
        ended := fun _ => ⟨terminate, by have := counted.scans; dsimp only; omega⟩ }
  | scan scanning =>
      exact { counted with
        images := by
          have := counted.images
          rw [scanning] at this
          simpa using this
        ended := fun ended => by cases ended }
  | shutdown joining finished =>
      exact { counted with
        ended := fun ended => ⟨rfl, (counted.ended ended).2⟩
        terminate := by simp [CameraController.shutdown]
        finished := fun _ => finished
        returned := fun _ returned => by cases returned }
  | collect joining ended =>
      have late : s.main ≠ .joiningPhilosophers := by simp [joining]
      exact { counted with
        terminate := by simp [counted.terminate, late]
        finished := fun _ => counted.finished late
        returned := fun result returned => by
          cases returned
          exact counted.result positive seated fed joining ended }

/-- The invariant of the whole show. -/
structure Show (M k : ℕ) (s : State P) : Prop where
  seated : Seated s.owner s.phase
  fed : ∀ i, Fed M (2 ^ k) (s.mealsEaten i) (s.phase i)
  counted : Counted M k s

theorem Show.start : Show M k ({} : State P) :=
  ⟨Seated.start, fun _ => Fed.start, Counted.start⟩

/-- An upper bound for the transactions of a philosopher that are left. -/
def Phase.remaining (M : ℕ) : Phase → ℕ
  | .thinking round => 3 * (M - round)
  | .eating round => 3 * (M - round) - 1
  | .reporting round => 3 * (M - round) - 2

def CameraPhase.remaining : CameraPhase → ℕ
  | .scanning => 2
  | .awaiting => 1
  | .ended => 0

def MainPhase.remaining : MainPhase → ℕ
  | .joiningPhilosophers => 2
  | .joiningCamera => 1
  | .returned _ => 0

/-- An upper bound for the transactions that are left. Each block that may still be completed can
become a request, which takes the camera two of them. -/
def remaining (M k : ℕ) (s : State P) : ℕ :=
  ∑ i, (s.phase i).remaining M + (2 * (M / 2 ^ k - s.controller.scanCount.toNat) +
    s.camera.remaining) + s.main.remaining

theorem remaining_update (phase : Fin P → Phase) (i : Fin P) (next : Phase)
    (less : next.remaining M < (phase i).remaining M) :
    ∑ j, (Function.update phase i next j).remaining M < ∑ j, (phase j).remaining M := by
  have := sum_update_add (fun phase : Phase => phase.remaining M) phase i next
  omega

theorem notifyBlockComplete_scanCount (c : CameraController) (philosopherCount : Int) :
    (c.notifyBlockComplete philosopherCount).scanCount = c.scanCount := by
  unfold CameraController.notifyBlockComplete
  dsimp only
  split <;> rfl

theorem Move.lowers (fits : P * (M / 2 ^ k) < 2147483648)
    (move : Move M (2 ^ k) s s') (show' : Show M k s) : remaining M k s' < remaining M k s := by
  unfold remaining
  cases move with
  | @takeForks i round thinking left =>
      have less : (Phase.eating round).remaining M < (s.phase i).remaining M := by
        rw [thinking]
        simp only [Phase.remaining]
        omega
      have := remaining_update s.phase i _ less
      dsimp only
      omega
  | @eat i round eating =>
      have left := (show'.fed i).eating round eating
      have less : ∀ next : Phase, next = .reporting round ∨ next = .thinking (round + 1) →
          next.remaining M < (s.phase i).remaining M := by
        rintro next (rfl | rfl)
        all_goals
          rw [eating]
          simp only [Phase.remaining]
          omega
      simp only [State.eat]
      split
      next =>
        have := remaining_update s.phase i _ (less _ (.inl rfl))
        omega
      next =>
        have := remaining_update s.phase i _ (less _ (.inr rfl))
        omega
  | @report i round reporting =>
      have within := (show'.fed i).within
      have less : (Phase.thinking (round + 1)).remaining M < (s.phase i).remaining M := by
        rw [reporting] at within ⊢
        simp only [Phase.remaining, Phase.eaten] at within ⊢
        omega
      have := remaining_update s.phase i _ less
      simp only [State.report, notifyBlockComplete_scanCount]
      omega
  | request awaiting requested =>
      have bound := completed_le show'.fed
      have enough : completed k s.phase / P ≤ M / 2 ^ k := Nat.div_le_of_le_mul bound
      have counted := show'.counted
      have scans := counted.scans
      have requests := counted.requests
      rw [counted.scanned (by omega) requested, if_pos (by exact scans.1), awaiting]
      generalize completed k s.phase / P = q at requests enough
      generalize M / 2 ^ k = K at enough
      simp only [CameraPhase.remaining]
      omega
  | endOfProcessing awaiting => simp [awaiting, CameraPhase.remaining]
  | scan scanning => simp [scanning, CameraPhase.remaining]
  | shutdown joining => simp [joining, MainPhase.remaining, CameraController.shutdown]
  | collect joining => simp [joining, MainPhase.remaining]

/-- Until the result is there, some thread can move. -/
theorem Show.progress (show' : Show M k s) (running : ∀ result, s.main ≠ .returned result) :
    ∃ a s', step M (2 ^ k) a s = some s' := by
  by_cases finished : ∀ i, (s.phase i).Finished M
  · have counted := show'.counted
    cases main : s.main with
    | joiningPhilosophers => exact ⟨.main, _, by rw [step, State.mainStep, main]; exact if_pos finished⟩
    | returned result => exact absurd main (running result)
    | joiningCamera =>
        cases camera : s.camera with
        | ended => exact ⟨.main, _, by rw [step, State.mainStep, main]; exact if_pos camera⟩
        | scanning => exact ⟨.camera, _, by rw [step, State.cameraStep, camera]⟩
        | awaiting =>
            have terminate : s.controller.terminate := by
              rw [counted.terminate, main]
              nofun
            refine ⟨.camera, ?_⟩
            rw [← Option.isSome_iff_exists, step, State.cameraStep, camera]
            dsimp only
            rw [Option.isSome_map, CameraController.awaitRequest]
            split
            next => rfl
            next => rfl
  · push Not at finished
    obtain ⟨i, unfinished⟩ := finished
    obtain ⟨k, moves⟩ := philosopher_moves (2 ^ k) show'.seated unfinished
    exact ⟨.philosopher k, Option.isSome_iff_exists.mp moves⟩

/-- However the transactions are interleaved, `run` comes to an end and returns the expected result,
and it cannot return anything else. -/
theorem run_inevitable (philosophers : 1 ≤ P) (meals : M ≤ 2147483647) (block : 2 ^ k ≤ 2147483647)
    (fits : P * (M / 2 ^ k) ≤ 2147483647) :
    Inevitable (step (P := P) M (2 ^ k)) (fun s => s.main = .returned (expected P M k)) {} ∧
    ∀ s : State P, Reachable (step M (2 ^ k)) {} s → ∀ result, s.main = .returned result →
      result = expected P M k := by
  have bits : k < 31 := by
    by_contra many
    have := Nat.pow_le_pow_right (n := 2) (by omega) (Nat.le_of_not_lt many)
    omega
  have keeps : ∀ a (s s' : State P), Show M k s → step M (2 ^ k) a s = some s' → Show M k s' := by
    intro a s s' before moves
    have move := step_move moves
    exact ⟨move.seated before.seated, move.fed (by omega) before.fed,
      move.counted philosophers bits (by omega) (by omega) before.seated before.fed before.counted⟩
  constructor
  · refine inevitable_of_measure (remaining M k) keeps (fun s before running => ?_)
      (fun a s s' before moves => (step_move moves).lowers (by omega) before) Show.start
    refine before.progress fun result returned => running ?_
    rw [returned, before.counted.returned result returned]
  · intro s reachable
    exact (reachable.invariant Show.start keeps).counted.returned

/-- Three philosophers, five meals each in blocks of two: two images. -/
theorem run_inevitable_three :
    Inevitable (step (P := 3) (5 : ℕ) (2 ^ 1)) (fun s => s.main = .returned
      (([none, none, none], [5, 5, 5]), 2)) {} ∧
    ∀ s : State 3, Reachable (step (5 : ℕ) (2 ^ 1)) {} s → ∀ result, s.main = .returned result →
      result = (([none, none, none], [5, 5, 5]), 2) :=
  run_inevitable (M := 5) (k := 1) (by decide) (by decide) (by decide) (by decide)

end Renaissance.RealityShowPhilosophers
