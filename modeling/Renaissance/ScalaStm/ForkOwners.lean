import Renaissance.ScalaStm.RealityShowPhilosophers

/-!
# Who owns the forks

`Move` lists what one transaction can do, so that an invariant is proved by cases on it. The invariant
`Seated` ties the owner of each fork to the philosophers that are between their two transactions.
From it follow the mutual exclusion of neighbours and that some philosopher can always move while
meals are left.
-/

namespace Renaissance.RealityShowPhilosophers

open JavaInt Transition

variable {P : ℕ} {mealCount blockMealCount : Int} {s s' : State P}

/-- What one transaction does, with what it found. -/
inductive Move (mealCount blockMealCount : Int) (s : State P) : State P → Prop
  | takeForks {i : Fin P} {round : ℕ} : s.phase i = .thinking round → round < mealCount →
      s.owner (left i) = none → s.owner (right i) = none →
      Move mealCount blockMealCount s { s with
        owner := Function.update (Function.update s.owner (left i) (some (name i))) (right i)
          (some (name i))
        phase := Function.update s.phase i (.eating round) }
  | eat {i : Fin P} {round : ℕ} : s.phase i = .eating round →
      Move mealCount blockMealCount s (s.eat blockMealCount i round)
  | report {i : Fin P} {round : ℕ} : s.phase i = .reporting round →
      Move mealCount blockMealCount s (s.report i round)
  | request : s.camera = .awaiting → s.controller.scanCount < s.controller.requestCount →
      Move mealCount blockMealCount s { s with
        controller := { s.controller with scanCount := int (s.controller.scanCount + 1) }
        camera := if s.controller.scanCount ≥ 0 then .scanning else .ended }
  | endOfProcessing : s.camera = .awaiting → ¬ s.controller.scanCount < s.controller.requestCount →
      s.controller.terminate = true → Move mealCount blockMealCount s { s with camera := .ended }
  | scan : s.camera = .scanning →
      Move mealCount blockMealCount s
        { s with images := s.images ++ [s.stateSnapshot], camera := .awaiting }
  | shutdown : s.main = .joiningPhilosophers → (∀ i, (s.phase i).Finished mealCount) →
      Move mealCount blockMealCount s
        { s with controller := s.controller.shutdown, main := .joiningCamera }
  | collect : s.main = .joiningCamera → s.camera = .ended →
      Move mealCount blockMealCount s
        { s with main := .returned (s.stateSnapshot, s.images.length) }

theorem philosopher_move {i : Fin P} (moves : s.philosopher mealCount blockMealCount i = some s') :
    Move mealCount blockMealCount s s' := by
  unfold State.philosopher at moves
  split at moves
  next round thinking =>
    split at moves
    next left =>
      unfold State.takeForks at moves
      split at moves
      next free =>
        cases moves
        exact .takeForks thinking left (Option.isNone_iff_eq_none.mp free.1)
          (Option.isNone_iff_eq_none.mp free.2)
      next => cases moves
    next => cases moves
  next round eating =>
    cases moves
    exact .eat eating
  next round reporting =>
    cases moves
    exact .report reporting

theorem camera_move (moves : s.cameraStep = some s') : Move mealCount blockMealCount s s' := by
  unfold State.cameraStep at moves
  split at moves
  next awaiting =>
    unfold CameraController.awaitRequest at moves
    split at moves
    next requested =>
      cases moves
      exact .request awaiting requested
    next nothing =>
      split at moves
      next terminate =>
        cases moves
        exact .endOfProcessing awaiting nothing terminate
      next => cases moves
  next scanning =>
    cases moves
    exact .scan scanning
  next => cases moves

theorem main_move (moves : s.mainStep mealCount = some s') :
    Move mealCount blockMealCount s s' := by
  unfold State.mainStep at moves
  split at moves
  next joining =>
    split at moves
    next finished =>
      cases moves
      exact .shutdown joining finished
    next => cases moves
  next joining =>
    split at moves
    next ended =>
      cases moves
      exact .collect joining ended
    next => cases moves
  next => cases moves

theorem step_move {a : Action P} (moves : step mealCount blockMealCount a s = some s') :
    Move mealCount blockMealCount s s' := by
  cases a with
  | philosopher i => exact philosopher_move moves
  | camera => exact camera_move moves
  | main => exact main_move moves

theorem name_injective : Function.Injective (name (P := P)) := by
  intro i j same
  have digits : Nat.repr i.val = Nat.repr j.val := (String.append_right_inj _).mp same
  rw [Nat.repr_eq_ofList_toDigits, Nat.repr_eq_ofList_toDigits, String.ofList_inj] at digits
  have read := congrArg (fun digits => Nat.ofDigitChars 10 digits 0) digits
  simp only [Nat.ofDigitChars_ten_toDigits] at read
  exact Fin.ext read

theorem update_forks (owner : Fin P → Option String) (i j : Fin P) (n : Option String) :
    Function.update (Function.update owner (left i) n) (right i) n j =
      if j = left i ∨ j = right i then n else owner j := by
  simp only [Function.update_apply]
  split <;> simp_all

/-- A fork is owned exactly by a philosopher who sits at it and is between the two transactions. -/
structure Seated (owner : Fin P → Option String) (phase : Fin P → Phase) : Prop where
  eater_owns : ∀ i, (phase i).Eating →
    owner (left i) = some (name i) ∧ owner (right i) = some (name i)
  owner_eats : ∀ j n, owner j = some n →
    ∃ i, (phase i).Eating ∧ (j = left i ∨ j = right i) ∧ n = name i

namespace Seated

variable {owner : Fin P → Option String} {phase : Fin P → Phase} {i : Fin P} {next : Phase}

theorem start : Seated (fun _ : Fin P => none) fun _ => .thinking 0 :=
  ⟨fun _ eating => eating.elim, fun _ _ owned => nomatch owned⟩

/-- The owner of a fork that is between its transactions is the only one there. -/
theorem owner_of_eating (seated : Seated owner phase) (eating : (phase i).Eating) {j : Fin P}
    (at' : j = left i ∨ j = right i) : owner j = some (name i) := by
  obtain ⟨ownsLeft, ownsRight⟩ := seated.eater_owns i eating
  rcases at' with rfl | rfl
  · exact ownsLeft
  · exact ownsRight

theorem take (seated : Seated owner phase) {round : ℕ} (thinking : ¬ (phase i).Eating)
    (leftFree : owner (left i) = none) (rightFree : owner (right i) = none) :
    Seated (Function.update (Function.update owner (left i) (some (name i))) (right i)
        (some (name i))) (Function.update phase i (.eating round)) := by
  refine ⟨fun k eating => ?_, fun j n owned => ?_⟩
  · rw [update_forks, update_forks]
    by_cases same : k = i
    · subst same
      simp
    · -- another one who eats owns forks that were not free
      rw [Function.update_of_ne same] at eating
      have keeps : ∀ j, j = left k ∨ j = right k → ¬ (j = left i ∨ j = right i) := by
        intro j at' free
        have owned := seated.owner_of_eating eating at'
        rcases free with isLeft | isRight
        · rw [isLeft, leftFree] at owned; cases owned
        · rw [isRight, rightFree] at owned; cases owned
      rw [if_neg (keeps _ (.inl rfl)), if_neg (keeps _ (.inr rfl))]
      exact seated.eater_owns k eating
  · rw [update_forks] at owned
    split at owned
    next taken =>
      cases owned
      exact ⟨i, by simp [Phase.Eating], taken, rfl⟩
    next =>
      obtain ⟨k, eating, at', named⟩ := seated.owner_eats j n owned
      have other : k ≠ i := by
        rintro rfl
        exact thinking eating
      exact ⟨k, by rwa [Function.update_of_ne other], at', named⟩

theorem release (seated : Seated owner phase) (eating : (phase i).Eating)
    (stops : ¬ next.Eating) :
    Seated (Function.update (Function.update owner (left i) none) (right i) none)
      (Function.update phase i next) := by
  refine ⟨fun k eats => ?_, fun j n owned => ?_⟩
  · have other : k ≠ i := by
      rintro rfl
      rw [Function.update_self] at eats
      exact stops eats
    rw [Function.update_of_ne other] at eats
    -- a fork of both would have two owners
    have keeps : ∀ j, j = left k ∨ j = right k → ¬ (j = left i ∨ j = right i) := by
      intro j mine his
      have owned := seated.owner_of_eating eats mine
      rw [seated.owner_of_eating eating his, Option.some.injEq] at owned
      exact other (name_injective owned).symm
    rw [update_forks, update_forks, if_neg (keeps _ (.inl rfl)), if_neg (keeps _ (.inr rfl))]
    exact seated.eater_owns k eats
  · rw [update_forks] at owned
    split at owned
    next => cases owned
    next kept =>
      obtain ⟨k, eats, at', named⟩ := seated.owner_eats j n owned
      have other : k ≠ i := by
        rintro rfl
        exact kept at'
      exact ⟨k, by rwa [Function.update_of_ne other], at', named⟩

theorem idle (seated : Seated owner phase) (before : ¬ (phase i).Eating) (after : ¬ next.Eating) :
    Seated owner (Function.update phase i next) := by
  have same : ∀ k, (Function.update phase i next k).Eating ↔ (phase k).Eating := by
    intro k
    by_cases h : k = i
    · subst h
      simp [before, after]
    · rw [Function.update_of_ne h]
  refine ⟨fun k eating => seated.eater_owns k ((same k).mp eating), fun j n owned => ?_⟩
  obtain ⟨k, eating, rest⟩ := seated.owner_eats j n owned
  exact ⟨k, (same k).mpr eating, rest⟩

end Seated

theorem Move.seated (move : Move mealCount blockMealCount s s') (seated : Seated s.owner s.phase) :
    Seated s'.owner s'.phase := by
  cases move with
  | takeForks thinking _ leftFree rightFree =>
      exact seated.take (by rw [thinking]; exact id) leftFree rightFree
  | eat eating =>
      refine seated.release (by rw [eating]; trivial) ?_
      split <;> exact id
  | report reporting => exact seated.idle (by rw [reporting]; exact id) id
  | request | endOfProcessing | scan | shutdown | collect => exact seated

/-- The meals eaten when the thread is at this place. -/
def Phase.eaten : Phase → ℕ
  | .thinking round | .eating round => round
  | .reporting round => round + 1

/-- What the place of a thread says about its meals: how many there were, that the loop is not left
too late, and that only a complete block is reported. -/
structure Fed (mealCount blockMealCount : Int) (mealsEaten : Int) (phase : Phase) : Prop where
  eaten : mealsEaten = phase.eaten
  within : (phase.eaten : Int) ≤ max 0 mealCount
  eating : ∀ round, phase = .eating round → round < mealCount
  reporting : ∀ round, phase = .reporting round →
    CameraController.isBlockComplete blockMealCount (round + 1)

theorem Fed.start : Fed mealCount blockMealCount 0 (.thinking 0) :=
  ⟨rfl, le_max_left _ _, fun _ => nofun, fun _ => nofun⟩

theorem Move.fed (fits : mealCount ≤ 2147483647) (move : Move mealCount blockMealCount s s')
    (fed : ∀ i, Fed mealCount blockMealCount (s.mealsEaten i) (s.phase i)) (k : Fin P) :
    Fed mealCount blockMealCount (s'.mealsEaten k) (s'.phase k) := by
  have before := fed k
  cases move with
  | @takeForks i round thinking left =>
      by_cases same : k = i
      · subst same
        dsimp only
        rw [Function.update_self]
        obtain ⟨eaten, within, -, -⟩ := before
        rw [thinking] at eaten within
        exact ⟨eaten, within, fun _ h => by cases h; exact left, fun _ => nofun⟩
      · dsimp only
        rwa [Function.update_of_ne same]
  | @eat i round eating =>
      by_cases same : k = i
      · subst same
        obtain ⟨eaten, within, left, -⟩ := before
        have left := left round eating
        rw [eating] at eaten
        have exact : int (s.mealsEaten k + 1) = round + 1 := by
          rw [eaten]
          exact int_eq_self (by simp only [Phase.eaten]; omega) (by simp only [Phase.eaten]; omega)
        dsimp only [State.eat]
        rw [Function.update_self, Function.update_self, exact]
        split
        next complete => exact ⟨rfl, by simp only [Phase.eaten]; omega, fun _ => nofun,
            fun _ h => by cases h; exact complete⟩
        next => exact ⟨rfl, by simp only [Phase.eaten]; omega, fun _ => nofun, fun _ => nofun⟩
      · dsimp only [State.eat]
        rwa [Function.update_of_ne same, Function.update_of_ne same]
  | @report i round reporting =>
      by_cases same : k = i
      · subst same
        obtain ⟨eaten, within, -, -⟩ := before
        rw [reporting] at eaten within
        dsimp only [State.report]
        rw [Function.update_self]
        exact ⟨eaten, within, fun _ => nofun, fun _ => nofun⟩
      · dsimp only [State.report]
        rwa [Function.update_of_ne same]
  | request | endOfProcessing | scan | shutdown | collect => exact before

theorem reachable_seated (reachable : Reachable (step mealCount blockMealCount) {} s) :
    Seated s.owner s.phase :=
  reachable.invariant Seated.start fun _ _ _ seated moves => (step_move moves).seated seated

theorem reachable_fed (fits : mealCount ≤ 2147483647)
    (reachable : Reachable (step mealCount blockMealCount) {} s) (i : Fin P) :
    Fed mealCount blockMealCount (s.mealsEaten i) (s.phase i) :=
  reachable.invariant (I := fun s => ∀ i, Fed mealCount blockMealCount (s.mealsEaten i) (s.phase i))
    (fun _ => Fed.start) (fun _ _ _ fed moves => (step_move moves).fed fits fed) i

/-- While a thread has not left its loop, it can move itself or waits for one that can. -/
theorem philosopher_moves (blockMealCount : Int) (seated : Seated s.owner s.phase) {i : Fin P}
    (unfinished : ¬ (s.phase i).Finished mealCount) :
    ∃ k, (s.philosopher mealCount blockMealCount k).isSome := by
  cases phase : s.phase i with
  | eating round => exact ⟨i, by rw [State.philosopher, phase]; rfl⟩
  | reporting round => exact ⟨i, by rw [State.philosopher, phase]; rfl⟩
  | thinking round =>
      have left' : round < mealCount := by
        rw [phase, Phase.Finished, not_not] at unfinished
        exact unfinished
      by_cases free : s.owner (left i) = none ∧ s.owner (right i) = none
      · refine ⟨i, ?_⟩
        rw [State.philosopher, phase]
        dsimp only
        rw [if_pos left', State.takeForks, if_pos (by simp [free])]
        rfl
      · -- the owner of a fork that is taken can give it back
        obtain ⟨j, n, owned⟩ : ∃ j n, s.owner j = some n := by
          by_contra none
          push Not at none
          exact free ⟨Option.eq_none_iff_forall_ne_some.mpr (none _),
            Option.eq_none_iff_forall_ne_some.mpr (none _)⟩
        obtain ⟨k, eating, -⟩ := seated.owner_eats j n owned
        refine ⟨k, ?_⟩
        rw [State.philosopher]
        cases phase' : s.phase k with
        | eating round => rfl
        | thinking round | reporting round => rw [phase'] at eating; exact eating.elim

/-- An image shows a state that the show was in. -/
theorem reachable_images (reachable : Reachable (step mealCount blockMealCount) {} s) :
    ∀ image ∈ s.images,
      ∃ t : State P, Reachable (step mealCount blockMealCount) {} t ∧ image = t.stateSnapshot := by
  let I (s : State P) := Reachable (step mealCount blockMealCount) {} s ∧ ∀ image ∈ s.images,
    ∃ t : State P, Reachable (step mealCount blockMealCount) {} t ∧ image = t.stateSnapshot
  have kept : I s := by
    refine reachable.invariant ⟨.start, fun _ seen => nomatch seen⟩ fun a s s' before moves => ?_
    refine ⟨before.1.next moves, ?_⟩
    cases step_move moves with
    | scan =>
        intro image seen
        rcases List.mem_append.mp seen with earlier | now
        · exact before.2 image earlier
        · exact ⟨s, before.1, List.mem_singleton.mp now⟩
    | takeForks | eat | report | request | endOfProcessing | shutdown | collect => exact before.2
  exact kept.2

/-- How the forks are shared out in a state. -/
structure Exclusive (s : State P) : Prop where
  owner : ∀ j, s.owner j = none ∨ ∃ i, (j = left i ∨ j = right i) ∧ s.owner j = some (name i)
  eating : ∀ i, (s.phase i).Eating →
    s.owner (left i) = some (name i) ∧ s.owner (right i) = some (name i)
  others : ∀ i, ¬ (s.phase i).Eating → ∀ j, s.owner j ≠ some (name i)
  neighbours : ∀ i k, i ≠ k → right i = left k → ¬ ((s.phase i).Eating ∧ (s.phase k).Eating)

theorem Seated.exclusive (seated : Seated s.owner s.phase) : Exclusive s where
  owner j := by
    cases owned : s.owner j with
    | none => exact .inl rfl
    | some n =>
        obtain ⟨i, -, at', rfl⟩ := seated.owner_eats j n owned
        exact .inr ⟨i, at', rfl⟩
  eating := seated.eater_owns
  others i thinking j owned := by
    obtain ⟨k, eating, -, named⟩ := seated.owner_eats j _ owned
    rw [name_injective named] at thinking
    exact thinking eating
  neighbours i k other shared both := by
    have mine := (seated.eater_owns i both.1).2
    rw [shared, (seated.eater_owns k both.2).1, Option.some.injEq] at mine
    exact other (name_injective mine).symm

/-- In every state of every interleaving the forks are exclusive, every image of the camera shows such
a state, and some philosopher can move while meals are left. -/
theorem philosophers_exclude (fits : mealCount ≤ 2147483647)
    (reachable : Reachable (step mealCount blockMealCount) {} s) :
    Exclusive s ∧
    (∀ image ∈ s.images, ∃ t : State P, Reachable (step mealCount blockMealCount) {} t ∧ Exclusive t ∧
      image = t.stateSnapshot) ∧
    ((∃ i, s.mealsEaten i < mealCount) →
      ∃ i, (step mealCount blockMealCount (.philosopher i) s).isSome) := by
  refine ⟨(reachable_seated reachable).exclusive, ?_, ?_⟩
  · intro image seen
    obtain ⟨t, reached, shown⟩ := reachable_images reachable image seen
    exact ⟨t, reached, (reachable_seated reached).exclusive, shown⟩
  · rintro ⟨i, left⟩
    refine philosopher_moves blockMealCount (reachable_seated reachable) (i := i) fun finished => ?_
    have eaten := (reachable_fed fits reachable i).eaten
    cases phase : s.phase i with
    | thinking round =>
        rw [phase] at eaten finished
        exact finished (eaten ▸ left)
    | eating round | reporting round => rw [phase] at finished; exact finished

/-- Two philosophers have a meal each, the camera takes an image, and the first one eats again. -/
def secondMeal : List (Action 2) :=
  [0, 0, 0, 1, 1, 1].map .philosopher ++ [.camera, .camera, .philosopher 0]

theorem philosophers_exclude_secondMeal :
    ∃ s, run (step 2 1) secondMeal {} = some s ∧ Exclusive s ∧
      (∀ image ∈ s.images, ∃ t : State 2, Reachable (step 2 1) {} t ∧ Exclusive t ∧
        image = t.stateSnapshot) ∧
      ((∃ i, s.mealsEaten i < 2) → ∃ i, (step 2 1 (.philosopher i) s).isSome) := by
  obtain ⟨s, leads⟩ := Option.isSome_iff_exists.mp
    (show (run (step 2 1) secondMeal {}).isSome by rfl)
  exact ⟨s, leads, philosophers_exclude (by decide) ⟨secondMeal, leads⟩⟩

example : (run (step 2 1) secondMeal {}).map (fun s => (s.owner 1, s.mealsEaten 1, s.images)) =
    some (some "philosopher-0", 1, [([none, none], [1, 1])]) := by
  decide

end Renaissance.RealityShowPhilosophers
