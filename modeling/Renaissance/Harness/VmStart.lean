import Mathlib.Data.Int.ConditionallyCompleteOrder
import Mathlib.Data.List.Pairwise
import Mathlib.Logic.Relation
import Mathlib.Order.ConditionallyCompleteLattice.Basic
import Renaissance.Lib.JavaInt
import Renaissance.Lib.StreakSearch

/-!
# The clock of the harness

`getVmStartNanos` looks for the value of `nanoTime()` at the time of a value of `currentTimeMillis()`. A
sample is taken around the moment at which the milliseconds change. The loop keeps the narrowest sample and
stops when ten others were no better.

`sampling_synchronizes_iff` says that it stops, and when it has kept the right sample.
-/

namespace Renaissance.VmStart

open JavaInt StreakSearch

/-- The results of `currentTimeMillis()` and `nanoTime()`. The calls alternate. -/
structure Clock where
  millis : ℕ → ℤ
  nanos : ℕ → ℤ
  nanos_long : ∀ i, -9223372036854775808 ≤ nanos i ∧ nanos i < 9223372036854775808
  nanos_monotone : ∀ i j, i ≤ j → nanos i ≤ nanos j

structure Sample where
  nanosBefore : ℤ
  nanosAfter : ℤ
  currentMillis : ℤ
  deriving DecidableEq

structure Sync where
  syncNanos : ℤ := 0
  syncMillis : ℤ := 0
  nanosDiffMin : ℤ := 9223372036854775807
  streakLength : ℕ := 0

def streakLengthMax : ℕ := 10

def Sample.nanosDiff (sample : Sample) : ℤ :=
  long (sample.nanosAfter - sample.nanosBefore)

/-- The middle of a sample. -/
def Sample.estimate (sample : Sample) : ℤ :=
  (long (sample.nanosBefore + sample.nanosAfter)).tdiv 2

/-- What the loop does with a sample. -/
def Sync.add (sync : Sync) (sample : Sample) : Sync :=
  let streakLength := sync.streakLength + 1
  if sample.nanosDiff < sync.nanosDiffMin then
    { nanosDiffMin := sample.nanosDiff, streakLength := 0,
      syncNanos := sample.estimate, syncMillis := sample.currentMillis }
  else { sync with streakLength }

namespace Clock

variable (clock : Clock)

/-- At most `reads` rounds of the inner loop. The number of the next reading comes with the sample. -/
def awaitFlip (lastMillis : ℤ) : ℕ → ℕ → ℤ → Option (Sample × ℕ)
  | 0, _, _ => none
  | reads + 1, next, nanosAfter =>
      let nanosBefore := nanosAfter
      let currentMillis := clock.millis next
      let nanosAfter := clock.nanos next
      if currentMillis = lastMillis then awaitFlip lastMillis reads (next + 1) nanosAfter
      else some ({ nanosBefore, nanosAfter, currentMillis }, next + 1)

def takeSample (reads next : ℕ) : Option (Sample × ℕ) :=
  clock.awaitFlip (clock.millis next) reads (next + 1) (clock.nanos next)

/-- At most `rounds` rounds of the outer loop, with the samples that are taken. -/
def sampling (reads : ℕ) : ℕ → ℕ → Sync → Option (List Sample × Sync)
  | 0, _, _ => none
  | rounds + 1, next, sync => do
      let (sample, next) ← clock.takeSample reads next
      let sync := sync.add sample
      if sync.streakLength < streakLengthMax then
        let (samples, sync) ← sampling reads rounds next sync
        pure (sample :: samples, sync)
      else pure ([sample], sync)

end Clock

/-- `MILLISECONDS.toNanos`. -/
def toNanos (millis : ℤ) : ℤ :=
  if millis > 9223372036854 then 9223372036854775807
  else if millis < -9223372036854 then -9223372036854775808
  else millis * 1000000

def getVmStartNanos (clock : Clock) (vmStartMillis : ℤ) (reads rounds : ℕ) : Option ℤ := do
  let (_, sync) ← clock.sampling reads rounds 0 {}
  let uptimeMillis := long (sync.syncMillis - vmStartMillis)
  pure (long (sync.syncNanos - toNanos uptimeMillis))

/-! ## What the estimate should be -/

def Sample.width (sample : Sample) : ℤ :=
  sample.nanosAfter - sample.nanosBefore

/-- The estimate is inside of the first of the narrowest samples. -/
def Synchronized (samples : List Sample) (sync : Sync) : Prop :=
  ∃ sample ∈ samples.argmin Sample.width,
    sample.nanosBefore ≤ sync.syncNanos ∧ sync.syncNanos ≤ sample.nanosAfter ∧
      sync.syncMillis = sample.currentMillis

/-- No width and not the sum of the readings around the first of the narrowest samples is too large. -/
def Representable (samples : List Sample) : Prop :=
  (∀ sample ∈ samples, sample.width < 9223372036854775808) ∧
    ∀ sample ∈ samples.argmin Sample.width,
      -9223372036854775808 ≤ sample.nanosBefore + sample.nanosAfter ∧
        sample.nanosBefore + sample.nanosAfter < 9223372036854775808

/-- One round of the outer loop and another one follows. -/
def Continues (clock : Clock) (now later : ℕ × Sync) : Prop :=
  ∃ reads sample, clock.takeSample reads now.1 = some (sample, later.1) ∧
    later.2 = now.2.add sample ∧ later.2.streakLength < streakLengthMax

/-- Wherever the outer loop comes to, the milliseconds change at some time. -/
def LoopsEnd (clock : Clock) : Prop :=
  ∀ state, Relation.ReflTransGen (Continues clock) (0, {}) state →
    ∃ later > state.1, clock.millis later ≠ clock.millis state.1

/-! ## The samples of a run -/

/-- What is read at two neighbouring positions. -/
def Clock.sampleAt (clock : Clock) (i : ℕ) : Sample where
  nanosBefore := clock.nanos i
  nanosAfter := clock.nanos (i + 1)
  currentMillis := clock.millis (i + 1)

/-- The first samples from a reading on: between two neighbouring positions, the milliseconds change. -/
inductive Samples (clock : Clock) : ℕ → List Sample → Prop
  | nil (next : ℕ) : Samples clock next []
  | cons {next i : ℕ} {samples : List Sample} : next ≤ i →
      (∀ k, next < k → k ≤ i → clock.millis k = clock.millis next) →
      clock.millis (i + 1) ≠ clock.millis next → Samples clock (i + 2) samples →
      Samples clock next (clock.sampleAt i :: samples)

/-- The samples are representable up to where, by their exact widths, ten in a row are no narrower than
those before. -/
def Clock.Representable (clock : Clock) : Prop :=
  ∃ samples, Samples clock 0 samples ∧
    Stops Sample.width 9223372036854775807 streakLengthMax samples ∧ VmStart.Representable samples

variable {clock : Clock} {next next' reads rounds : ℕ} {lastMillis : ℤ} {sample : Sample}
  {samples : List Sample} {sync sync' : Sync}

theorem awaitFlip_some
    (found : clock.awaitFlip lastMillis reads (next + 1) (clock.nanos next) = some (sample, next')) :
    ∃ i ≥ next, sample = clock.sampleAt i ∧ next' = i + 2 ∧
      (∀ k, next < k → k ≤ i → clock.millis k = lastMillis) ∧ clock.millis (i + 1) ≠ lastMillis := by
  induction reads generalizing next with
  | zero => cases found
  | succ reads ih =>
      rw [Clock.awaitFlip] at found
      split at found
      · next same =>
        obtain ⟨i, later, isSample, isNext, still, flips⟩ := ih found
        refine ⟨i, Nat.le_of_succ_le later, isSample, isNext, fun k after before => ?_, flips⟩
        rcases Nat.eq_or_lt_of_le (Nat.succ_le_of_lt after) with rfl | after
        · exact same
        · exact still k after before
      · next flips =>
        cases found
        refine ⟨next, Nat.le_refl next, rfl, rfl, fun k after before => ?_, flips⟩
        exact absurd after (Nat.not_lt_of_ge before)

theorem awaitFlip_ends (clock : Clock) {d : ℕ} (flips : clock.millis (next + 1 + d) ≠ lastMillis) :
    ∃ result, ∀ reads > d,
      clock.awaitFlip lastMillis reads (next + 1) (clock.nanos next) = some result := by
  induction d generalizing next with
  | zero =>
      refine ⟨(clock.sampleAt next, next + 2), fun reads enough => ?_⟩
      obtain ⟨reads, rfl⟩ := Nat.exists_eq_succ_of_ne_zero (Nat.ne_of_gt enough)
      exact if_neg flips
  | succ d ih =>
      by_cases same : clock.millis (next + 1) = lastMillis
      · obtain ⟨result, found⟩ := ih (show clock.millis (next + 1 + 1 + d) ≠ lastMillis by
          rwa [Nat.add_right_comm (next + 1) 1 d])
        refine ⟨result, fun reads enough => ?_⟩
        obtain ⟨reads, rfl⟩ := Nat.exists_eq_succ_of_ne_zero (Nat.ne_of_gt (Nat.zero_lt_of_lt enough))
        rw [Clock.awaitFlip, if_pos same, found reads (Nat.lt_of_succ_lt_succ enough)]
      · refine ⟨(clock.sampleAt next, next + 2), fun reads enough => ?_⟩
        obtain ⟨reads, rfl⟩ := Nat.exists_eq_succ_of_ne_zero (Nat.ne_of_gt (Nat.zero_lt_of_lt enough))
        exact if_neg same

theorem sampling_some (short : sync.streakLength < streakLengthMax)
    (sampled : clock.sampling reads rounds next sync = some (samples, sync')) :
    Samples clock next samples ∧ sync' = samples.foldl Sync.add sync ∧
      streakLengthMax ≤ sync'.streakLength ∧
      ∀ front, front <+: samples → front ≠ samples →
        (front.foldl Sync.add sync).streakLength < streakLengthMax := by
  induction rounds generalizing next sync samples with
  | zero => cases sampled
  | succ rounds ih =>
      rw [Clock.sampling] at sampled
      obtain ⟨⟨sample, next'⟩, taken, rest⟩ := Option.bind_eq_some_iff.mp sampled
      obtain ⟨i, later, rfl, rfl, still, flips⟩ := awaitFlip_some taken
      dsimp only at rest
      split at rest
      · next again =>
        obtain ⟨⟨others, last⟩, sampled', same⟩ := Option.bind_eq_some_iff.mp rest
        cases same
        obtain ⟨taken', folds, long, goesOn⟩ := ih again sampled'
        refine ⟨.cons later still flips taken', folds, long, fun front shorter different => ?_⟩
        rcases List.prefix_cons_iff.mp shorter with rfl | ⟨front', rfl, shorter'⟩
        · exact short
        · exact goesOn front' shorter' fun same => different (congrArg _ same)
      · next long =>
        cases rest
        refine ⟨.cons later still flips (.nil _), rfl, Nat.le_of_not_lt long,
          fun front shorter different => ?_⟩
        rcases List.prefix_cons_iff.mp shorter with rfl | ⟨front', rfl, shorter'⟩
        · exact short
        · exact absurd (congrArg _ (List.prefix_nil.mp shorter')) different

theorem Samples.mem (taken : Samples clock next samples) (mem : sample ∈ samples) :
    ∃ i ≥ next, sample = clock.sampleAt i := by
  induction taken with
  | nil => cases mem
  | cons later _ _ _ ih =>
      rcases List.mem_cons.mp mem with rfl | mem
      · exact ⟨_, later, rfl⟩
      · obtain ⟨i, later', same⟩ := ih mem
        exact ⟨i, by omega, same⟩

theorem Samples.ordered (taken : Samples clock next samples) :
    samples.Pairwise fun first second => first.nanosAfter ≤ second.nanosBefore := by
  induction taken with
  | nil => exact .nil
  | cons _ _ _ taken ih =>
      refine .cons (fun second mem => ?_) ih
      obtain ⟨i, later, rfl⟩ := taken.mem mem
      exact clock.nanos_monotone _ _ (by omega)

/-- The clock decides where a sample is taken. -/
theorem Samples.prefix_or_prefix {others : List Sample} (taken : Samples clock next samples)
    (taken' : Samples clock next others) : samples <+: others ∨ others <+: samples := by
  induction taken generalizing others with
  | nil => exact .inl (List.nil_prefix)
  | @cons next i samples later still flips _ ih =>
      cases taken' with
      | nil => exact .inr (List.nil_prefix)
      | @cons _ j others later' still' flips' taken' =>
          have same : i = j := by
            rcases Nat.lt_trichotomy i j with less | same | less
            · exact absurd (still' (i + 1) (Nat.lt_succ_of_le later) less) flips
            · exact same
            · exact absurd (still (j + 1) (Nat.lt_succ_of_le later') less) flips'
          subst same
          simp only [List.cons_prefix_cons, true_and]
          exact ih taken'

/-! ## What is kept -/

/-- The variables of the loop say what a search keeps that goes by the computed widths. -/
structure Represents (sync : Sync) (search : Search Sample) : Prop where
  least : sync.nanosDiffMin = search.least Sample.nanosDiff 9223372036854775807
  streak : sync.streakLength = search.streak
  kept : ∀ sample ∈ search.kept,
    sync.syncNanos = sample.estimate ∧ sync.syncMillis = sample.currentMillis

def narrowest (samples : List Sample) : Search Sample :=
  samples.foldl (Search.add Sample.nanosDiff 9223372036854775807) {}

theorem Represents.add {search : Search Sample} (represents : Represents sync search)
    (sample : Sample) :
    Represents (sync.add sample) (search.add Sample.nanosDiff 9223372036854775807 sample) := by
  obtain ⟨least, streak, kept⟩ := represents
  rw [Sync.add, Search.add, least]
  split
  · refine ⟨rfl, rfl, fun sample' same => ?_⟩
    cases same
    exact ⟨rfl, rfl⟩
  · exact ⟨rfl, congrArg (· + 1) streak, kept⟩

theorem represents_foldl {search : Search Sample} (represents : Represents sync search)
    (samples : List Sample) :
    Represents (samples.foldl Sync.add sync)
      (samples.foldl (Search.add Sample.nanosDiff 9223372036854775807) search) := by
  induction samples generalizing sync search with
  | nil => exact represents
  | cons sample samples ih => exact ih (represents.add sample)

theorem represents_empty : Represents {} {} :=
  ⟨rfl, rfl, fun _ same => by cases same⟩

theorem represents_narrowest (samples : List Sample) :
    Represents (samples.foldl Sync.add {}) (narrowest samples) :=
  represents_foldl represents_empty samples

/-! ## Computed widths -/

theorem Samples.width_nonneg (taken : Samples clock next samples) (mem : sample ∈ samples) :
    0 ≤ sample.width := by
  obtain ⟨i, -, rfl⟩ := taken.mem mem
  exact Int.sub_nonneg_of_le (clock.nanos_monotone i (i + 1) (Nat.le_succ i))

theorem Samples.long (taken : Samples clock next samples) (mem : sample ∈ samples) :
    -9223372036854775808 ≤ sample.nanosBefore ∧ sample.nanosAfter < 9223372036854775808 := by
  obtain ⟨i, -, rfl⟩ := taken.mem mem
  exact ⟨(clock.nanos_long i).1, (clock.nanos_long (i + 1)).2⟩

theorem Samples.nanosDiff_of_narrow (taken : Samples clock next samples) (mem : sample ∈ samples)
    (narrow : sample.width < 9223372036854775808) : sample.nanosDiff = sample.width :=
  long_eq_self (Int.le_trans (by decide) (taken.width_nonneg mem)) narrow

theorem Samples.nanosDiff_of_wide (taken : Samples clock next samples) (mem : sample ∈ samples)
    (wide : 9223372036854775808 ≤ sample.width) :
    sample.nanosDiff = sample.width - 18446744073709551616 := by
  have bounds := taken.long mem
  refine long_of_ge wide ?_
  omega

/-- Different samples are apart. -/
theorem Samples.apart {other : Sample} (taken : Samples clock next samples) (mem : sample ∈ samples)
    (mem' : other ∈ samples) (different : sample ≠ other) :
    sample.nanosAfter ≤ other.nanosBefore ∨ other.nanosAfter ≤ sample.nanosBefore := by
  have symm : Std.Symm fun first second : Sample =>
      first.nanosAfter ≤ second.nanosBefore ∨ second.nanosAfter ≤ first.nanosBefore :=
    ⟨fun _ _ => Or.symm⟩
  have either : samples.Pairwise fun first second =>
      first.nanosAfter ≤ second.nanosBefore ∨ second.nanosAfter ≤ first.nanosBefore :=
    taken.ordered.imp Or.inl
  exact either.forall mem mem' different

/-- Three samples of the largest width that can be computed do not fit. -/
theorem Samples.exists_width_lt (taken : Samples clock next samples) (several : 3 ≤ samples.length) :
    ∃ sample ∈ samples, sample.width < 9223372036854775807 := by
  by_contra none'
  have large : ∀ sample ∈ samples, 9223372036854775807 ≤ sample.nanosAfter - sample.nanosBefore :=
    fun sample mem => Int.le_of_not_gt fun less => none' ⟨sample, mem, less⟩
  match samples, several with
  | first :: second :: third :: rest, _ =>
      have ordered := taken.ordered
      rw [List.pairwise_cons, List.pairwise_cons] at ordered
      have before := ordered.1 second (by simp)
      have after := ordered.2.1 third (by simp)
      have low := (taken.long (show first ∈ _ by simp)).1
      have high := (taken.long (show third ∈ _ by simp)).2
      have width₁ := large first (by simp)
      have width₂ := large second (by simp)
      have width₃ := large third (by simp)
      omega

/-- There is at most one wide sample, and it is the only one with a negative width. -/
theorem Samples.argmin_of_wide (taken : Samples clock next samples) (mem : sample ∈ samples)
    (wide : 9223372036854775808 ≤ sample.width) :
    samples.argmin Sample.nanosDiff = some sample := by
  have negative := taken.nanosDiff_of_wide mem wide
  have bounds := taken.long mem
  have others : ∀ other ∈ samples, other ≠ sample → sample.nanosDiff < other.nanosDiff := by
    intro other mem' different
    have apart := taken.apart mem' mem different
    have bounds' := taken.long mem'
    have nonneg := taken.width_nonneg mem'
    simp only [Sample.width] at wide negative nonneg
    rw [taken.nanosDiff_of_narrow mem' (by rw [Sample.width]; omega), negative, Sample.width]
    omega
  refine List.argmin_eq_some_iff.mpr ⟨mem, fun other mem' => ?_, fun other mem' least => ?_⟩
  · by_cases same : other = sample
    · rw [same]
    · exact Int.le_of_lt (others other mem' same)
  · by_cases same : other = sample
    · rw [same]
    · exact absurd (others other mem' same) (Int.not_lt_of_ge least)

/-- The middle of a sample is inside of it if the sum does not overflow. -/
theorem estimate_between_iff (ordered : sample.nanosBefore ≤ sample.nanosAfter)
    (low : -9223372036854775808 ≤ sample.nanosBefore)
    (high : sample.nanosAfter < 9223372036854775808) :
    sample.nanosBefore ≤ sample.estimate ∧ sample.estimate ≤ sample.nanosAfter ↔
      -9223372036854775808 ≤ sample.nanosBefore + sample.nanosAfter ∧
        sample.nanosBefore + sample.nanosAfter < 9223372036854775808 := by
  have bounds := two_mul_tdiv_two (JavaInt.long (sample.nanosBefore + sample.nanosAfter))
  rw [← Sample.estimate] at bounds
  rcases Int.lt_or_le (sample.nanosBefore + sample.nanosAfter) (-9223372036854775808) with below | least
  · rw [long_of_lt (by omega) below] at bounds
    omega
  · rcases Int.lt_or_le (sample.nanosBefore + sample.nanosAfter) 9223372036854775808 with most | above
    · rw [long_eq_self least most] at bounds
      omega
    · rw [long_of_ge above (by omega)] at bounds
      omega

/-- The middle of a wide sample is not in another one. -/
theorem Samples.estimate_of_wide {other : Sample} (taken : Samples clock next samples)
    (mem : sample ∈ samples) (wide : 9223372036854775808 ≤ sample.width) (mem' : other ∈ samples)
    (narrow : other.width < 9223372036854775808) :
    ¬(other.nanosBefore ≤ sample.estimate ∧ sample.estimate ≤ other.nanosAfter) := by
  have bounds := taken.long mem
  have apart := taken.apart mem mem' (fun same => by rw [same] at wide; omega)
  have middle := two_mul_tdiv_two (JavaInt.long (sample.nanosBefore + sample.nanosAfter))
  rw [← Sample.estimate] at middle
  rw [Sample.width] at wide
  rw [long_eq_self (by omega) (by omega)] at middle
  omega

theorem synchronized_iff (taken : Samples clock next samples) (several : 3 ≤ samples.length) :
    Synchronized samples (samples.foldl Sync.add {}) ↔ Representable samples := by
  obtain ⟨narrow, memNarrow, belowMax⟩ := taken.exists_width_lt several
  have isNarrow : narrow.width < 9223372036854775808 := Int.lt_trans belowMax (by decide)
  rcases foldl_add_cases Sample.nanosDiff 9223372036854775807 samples with
    ⟨-, above⟩ | ⟨kept, isKept, least, -⟩
  · rw [← taken.nanosDiff_of_narrow memNarrow isNarrow] at belowMax
    exact absurd belowMax (Int.not_lt_of_ge (above narrow memNarrow))
  obtain ⟨nanos, millis⟩ := (represents_narrowest samples).kept kept isKept
  rw [Synchronized, nanos, millis]
  by_cases someWide : ∃ sample ∈ samples, 9223372036854775808 ≤ sample.width
  · obtain ⟨sample, mem, wide⟩ := someWide
    have same : kept = sample := Option.some.inj (least.symm.trans (taken.argmin_of_wide mem wide))
    refine iff_of_false ?_ fun representable => Int.not_lt_of_ge wide (representable.1 sample mem)
    rintro ⟨right, isRight, before, after, -⟩
    have atMost := List.le_of_mem_argmin memNarrow isRight
    exact taken.estimate_of_wide mem wide (List.argmin_mem isRight) (Int.lt_of_le_of_lt atMost isNarrow)
      (same ▸ ⟨before, after⟩)
  · have allNarrow : ∀ sample ∈ samples, sample.width < 9223372036854775808 :=
      fun sample mem => Int.lt_of_not_ge fun wide => someWide ⟨sample, mem, wide⟩
    have right : samples.argmin Sample.width = some kept := by
      rw [← least]
      exact argmin_congr fun sample mem => (taken.nanosDiff_of_narrow mem (allNarrow sample mem)).symm
    have mem := List.argmin_mem right
    have between := estimate_between_iff (Int.le_of_sub_nonneg (taken.width_nonneg mem))
      (taken.long mem).1 (taken.long mem).2
    have sums : Representable samples ↔ -9223372036854775808 ≤ kept.nanosBefore + kept.nanosAfter ∧
        kept.nanosBefore + kept.nanosAfter < 9223372036854775808 := by
      rw [Representable, right]
      exact ⟨fun representable => representable.2 kept rfl,
        fun fits => ⟨allNarrow, fun sample same => by cases same; exact fits⟩⟩
    rw [sums, ← between, right]
    constructor
    · rintro ⟨sample, same, before, after, -⟩
      cases same
      exact ⟨before, after⟩
    · exact fun inside => ⟨kept, rfl, inside.1, inside.2, rfl⟩

/-! ## The loop ends -/

theorem nanosDiff_ge (sample : Sample) : -9223372036854775808 ≤ sample.nanosDiff :=
  Int.le_bmod (by decide)

/-- How many computed widths are smaller. -/
def height (nanosDiff : ℤ) : ℕ :=
  (nanosDiff + 9223372036854775808).toNat

theorem height_lt (sample : Sample) (nanosDiffMin : ℤ) (smaller : sample.nanosDiff < nanosDiffMin) :
    height sample.nanosDiff < height nanosDiffMin := by
  have least := nanosDiff_ge sample
  rw [height, height]
  omega

theorem sampling_ends {search : Search Sample} (represents : Represents sync search)
    (short : search.streak < streakLengthMax)
    (ends : ∀ state, Relation.ReflTransGen (Continues clock) (next, sync) state →
      ∃ later > state.1, clock.millis later ≠ clock.millis state.1) :
    ∃ result enough, ∀ reads ≥ enough, ∀ rounds ≥ enough,
      clock.sampling reads rounds next sync = some result := by
  induction rank : search.rank Sample.nanosDiff 9223372036854775807 height streakLengthMax
      using Nat.strong_induction_on generalizing search next sync with
  | h n ih =>
      obtain ⟨later, after, flips⟩ := ends (next, sync) .refl
      obtain ⟨d, rfl⟩ := Nat.exists_eq_add_of_le (show next + 1 ≤ later from after)
      obtain ⟨⟨sample, next'⟩, taken⟩ := awaitFlip_ends clock flips
      have found : ∀ reads > d, clock.takeSample reads next = some (sample, next') := taken
      have kept := represents.add sample
      by_cases again : (sync.add sample).streakLength < streakLengthMax
      · have lower : (search.add Sample.nanosDiff 9223372036854775807 sample).rank
            Sample.nanosDiff 9223372036854775807 height streakLengthMax < n :=
          rank ▸ rank_add_lt height_lt short sample
        have continues : Continues clock (next, sync) (next', sync.add sample) :=
          ⟨d + 1, sample, found (d + 1) (Nat.lt_succ_self d), rfl, again⟩
        obtain ⟨⟨samples, last⟩, enough, rest⟩ := ih _ lower kept (kept.streak ▸ again)
          (fun state reached => ends state (.head continues reached)) rfl
        refine ⟨(sample :: samples, last), max enough d + 1, fun reads hr rounds hr' => ?_⟩
        obtain ⟨rounds, rfl⟩ := Nat.exists_eq_succ_of_ne_zero (Nat.ne_of_gt (Nat.zero_lt_of_lt hr'))
        rw [Clock.sampling, found reads (by omega)]
        simp only [Option.bind_eq_bind, Option.bind_some, if_pos again,
          rest reads (by omega) rounds (by omega)]
        rfl
      · refine ⟨([sample], sync.add sample), d + 1, fun reads hr rounds hr' => ?_⟩
        obtain ⟨rounds, rfl⟩ := Nat.exists_eq_succ_of_ne_zero (Nat.ne_of_gt (Nat.zero_lt_of_lt hr'))
        rw [Clock.sampling, found reads (by omega)]
        simp only [Option.bind_eq_bind, Option.bind_some, if_neg again]
        rfl

theorem getVmStartNanos_ends (vmStartMillis : ℤ) (ends : LoopsEnd clock) :
    ∃ vmStartNanos enough, ∀ reads ≥ enough, ∀ rounds ≥ enough,
      getVmStartNanos clock vmStartMillis reads rounds = some vmStartNanos := by
  obtain ⟨⟨samples, sync⟩, enough, sampled⟩ := sampling_ends represents_empty (by decide) ends
  refine ⟨long (sync.syncNanos - toNanos (long (sync.syncMillis - vmStartMillis))), enough,
    fun reads hr rounds hr' => ?_⟩
  rw [getVmStartNanos, sampled reads hr rounds hr']
  rfl

theorem several_of_sampling
    (sampled : clock.sampling reads rounds next {} = some (samples, sync')) : 3 ≤ samples.length := by
  obtain ⟨-, rfl, long, -⟩ := sampling_some (by decide) sampled
  have most : (narrowest samples).streak ≤ 0 + samples.length := streak_foldl_le samples {}
  rw [(represents_narrowest samples).streak] at long
  exact Nat.le_trans (by decide) (Nat.le_trans long (Nat.zero_add samples.length ▸ most))

theorem synchronized_iff_of_sampling
    (sampled : clock.sampling reads rounds next {} = some (samples, sync')) :
    Synchronized samples sync' ↔ Representable samples := by
  obtain ⟨taken, rfl, -⟩ := sampling_some (by decide) sampled
  exact synchronized_iff taken (several_of_sampling sampled)

theorem stops_of_sampling
    (sampled : clock.sampling reads rounds next {} = some (samples, sync')) :
    Stops Sample.nanosDiff 9223372036854775807 streakLengthMax samples := by
  obtain ⟨-, rfl, long, goesOn⟩ := sampling_some (by decide) sampled
  refine ⟨?_, fun front shorter different => ?_⟩
  · rw [(represents_narrowest samples).streak] at long
    exact long
  · have short := goesOn front shorter different
    rw [(represents_narrowest front).streak] at short
    exact short

/-- As long as the widths can be computed, the same samples are taken as with exact widths. -/
theorem representable_iff_of_sampling
    (sampled : clock.sampling reads rounds 0 {} = some (samples, sync')) :
    Representable samples ↔ clock.Representable := by
  have taken := (sampling_some (by decide) sampled).1
  have stops := stops_of_sampling sampled
  constructor
  · intro representable
    have same : ∀ sample ∈ samples, sample.nanosDiff = sample.width :=
      fun sample mem => taken.nanosDiff_of_narrow mem (representable.1 sample mem)
    exact ⟨samples, taken, stops.congr same, representable⟩
  · rintro ⟨others, taken', stops', representable⟩
    have same : ∀ sample ∈ others, sample.width = sample.nanosDiff :=
      fun sample mem => (taken'.nanosDiff_of_narrow mem (representable.1 sample mem)).symm
    rwa [← stops'.eq_of_prefix stops same (taken'.prefix_or_prefix taken)]

/-- For every clock, the loop ends after finitely many samples. What it has kept is inside of the first of
the narrowest ones exactly if, up to where exact widths would end the loop, all widths can be computed and
the sum of the two readings around that sample can be, too. -/
theorem sampling_synchronizes_iff (clock : Clock) (ends : LoopsEnd clock) :
    ∃ samples sync,
      (∃ enough, ∀ reads ≥ enough, ∀ rounds ≥ enough,
        clock.sampling reads rounds 0 {} = some (samples, sync)) ∧
      (Synchronized samples sync ↔ clock.Representable) := by
  obtain ⟨⟨samples, sync⟩, enough, sampled⟩ := sampling_ends represents_empty (by decide) ends
  have run := sampled enough (Nat.le_refl _) enough (Nat.le_refl _)
  refine ⟨samples, sync, ⟨enough, sampled⟩, ?_⟩
  rw [synchronized_iff_of_sampling run, representable_iff_of_sampling run]

/-- The milliseconds change with every reading. -/
def steadyClock (nanos : ℤ) (low : -9223372036854775808 ≤ nanos) (high : nanos < 9223372036854775808) :
    Clock where
  millis i := i
  nanos _ := nanos
  nanos_long _ := ⟨low, high⟩
  nanos_monotone _ _ _ := Int.le_refl nanos

theorem steadyClock_loopsEnd (nanos : ℤ) (low : -9223372036854775808 ≤ nanos)
    (high : nanos < 9223372036854775808) : LoopsEnd (steadyClock nanos low high) :=
  fun state _ => ⟨state.1 + 1, Nat.lt_succ_self _, by simp [steadyClock]⟩

/-- The nanoseconds go on with every reading, by steps that become narrower, and the milliseconds, too. -/
def tickingClock : Clock where
  millis i := i
  nanos i := min (100 * i) 1000 + min i 9223372036854770000
  nanos_long i := by omega
  nanos_monotone i j le := by omega

theorem sampling_synchronizes_iff_tickingClock :
    ∃ samples sync,
      (∃ enough, ∀ reads ≥ enough, ∀ rounds ≥ enough,
        tickingClock.sampling reads rounds 0 {} = some (samples, sync)) ∧
      (Synchronized samples sync ↔ tickingClock.Representable) :=
  sampling_synchronizes_iff tickingClock fun state _ =>
    ⟨state.1 + 1, Nat.lt_succ_self _, by simp [tickingClock]⟩

/-- The sum of two readings may be too large even where their difference is zero. -/
theorem lateClock_not_synchronized :
    ¬∀ clock : Clock, LoopsEnd clock →
      ∃ samples sync,
        (∃ enough, ∀ reads ≥ enough, ∀ rounds ≥ enough,
          clock.sampling reads rounds 0 {} = some (samples, sync)) ∧
        Synchronized samples sync := by
  intro all
  obtain ⟨samples, sync, ⟨enough, sampled⟩, right⟩ :=
    all (steadyClock 4611686018427387904 (by decide) (by decide)) (steadyClock_loopsEnd _ _ _)
  have run := sampled enough (Nat.le_refl _) enough (Nat.le_refl _)
  have representable := (synchronized_iff_of_sampling run).mp right
  obtain ⟨sample, isRight, -⟩ := right
  obtain ⟨i, -, rfl⟩ := (sampling_some (by decide) run).1.mem (List.argmin_mem isRight)
  exact absurd (representable.2 _ isRight).2 (Int.lt_irrefl 9223372036854775808)

end Renaissance.VmStart
