import Mathlib.Data.List.MinMax
import Mathlib.Algebra.Order.Ring.Nat

/-!
# Looking for a minimum

A search sees one value after the other and keeps the smallest one below a bound. It counts the values
since it has kept one, and may stop when they are many.

* `foldl_add_cases`: what a search keeps is the first of the smallest values.
* `Stops.eq_of_prefix`: two searches that see the same values stop at the same one, if they agree on the
  values that one of them has seen.
* `rank_add_lt`: a search that stops after a number of values without a smaller one comes to an end, if
  there is no infinite descent.
-/

namespace StreakSearch

structure Search (α : Type) where
  kept : Option α := none
  streak : ℕ := 0

variable {α β : Type} [LinearOrder β] (f : α → β) (bound : β)

/-- What the next value has to be below. -/
def Search.least (search : Search α) : β :=
  (search.kept.map f).getD bound

def Search.add (search : Search α) (a : α) : Search α :=
  if f a < search.least f bound then { kept := some a, streak := 0 }
  else { search with streak := search.streak + 1 }

variable {f bound} {search : Search α} {a : α}

theorem add_of_lt (smaller : f a < search.least f bound) :
    search.add f bound a = { kept := some a, streak := 0 } :=
  if_pos smaller

theorem add_of_le (other : search.least f bound ≤ f a) :
    search.add f bound a = { search with streak := search.streak + 1 } :=
  if_neg (not_lt_of_ge other)

/-- Either no value is below the bound, or the first of the smallest ones is kept. -/
theorem foldl_add_cases (f : α → β) (bound : β) (values : List α) :
    (values.foldl (Search.add f bound) {}).kept = none ∧ (∀ a ∈ values, bound ≤ f a) ∨
      ∃ a, (values.foldl (Search.add f bound) {}).kept = some a ∧ values.argmin f = some a ∧
        f a < bound := by
  induction values using List.reverseRecOn with
  | nil => exact .inl ⟨rfl, by simp⟩
  | append_singleton values a ih =>
      rw [List.foldl_append, List.foldl_cons, List.foldl_nil, List.argmin_concat]
      generalize values.foldl (Search.add f bound) {} = search at ih ⊢
      rcases ih with ⟨empty, above⟩ | ⟨b, kept, least, below⟩
      · have current : search.least f bound = bound := by rw [Search.least, empty]; rfl
        rcases lt_or_ge (f a) bound with smaller | other
        · refine .inr ⟨a, ?_, ?_, smaller⟩
          · rw [add_of_lt (current.symm ▸ smaller)]
          · cases before : values.argmin f with
            | none => rfl
            | some c => exact if_pos (lt_of_lt_of_le smaller (above c (List.argmin_mem before)))
        · refine .inl ⟨?_, List.forall_mem_append.mpr ⟨above, by simpa using other⟩⟩
          rw [add_of_le (current.symm ▸ other)]
          exact empty
      · have current : search.least f bound = f b := by rw [Search.least, kept]; rfl
        rw [least]
        rcases lt_or_ge (f a) (f b) with smaller | other
        · refine .inr ⟨a, ?_, if_pos smaller, smaller.trans below⟩
          rw [add_of_lt (current.symm ▸ smaller)]
        · refine .inr ⟨b, ?_, if_neg (not_lt_of_ge other), below⟩
          rw [add_of_le (current.symm ▸ other)]
          exact kept

theorem argmin_congr {g : α → β} {values : List α} (same : ∀ a ∈ values, f a = g a) :
    values.argmin f = values.argmin g := by
  induction values using List.reverseRecOn with
  | nil => rfl
  | append_singleton values a ih =>
      obtain ⟨before, last⟩ := List.forall_mem_append.mp same
      rw [List.argmin_concat, List.argmin_concat, ih before, last a (List.mem_singleton_self a)]
      cases least : values.argmin g with
      | none => rfl
      | some b =>
          dsimp only
          rw [before b (List.argmin_mem least)]

theorem foldl_add_congr {g : α → β} {values : List α} (same : ∀ a ∈ values, f a = g a) :
    values.foldl (Search.add f bound) {} = values.foldl (Search.add g bound) {} := by
  induction values using List.reverseRecOn with
  | nil => rfl
  | append_singleton values a ih =>
      obtain ⟨before, last⟩ := List.forall_mem_append.mp same
      have current : (values.foldl (Search.add g bound) {}).least f bound =
          (values.foldl (Search.add g bound) {}).least g bound := by
        rw [Search.least, Search.least]
        rcases foldl_add_cases g bound values with ⟨empty, -⟩ | ⟨b, kept, least, -⟩
        · rw [empty]
          rfl
        · rw [kept]
          exact before b (List.argmin_mem least)
      simp only [List.foldl_append, List.foldl_cons, List.foldl_nil]
      rw [ih before, Search.add, Search.add, current, last a (List.mem_singleton_self a)]

/-! ## The end of a search -/

/-- After the values, and not before, `streakMax` of them in a row were not kept. -/
structure Stops (f : α → β) (bound : β) (streakMax : ℕ) (values : List α) : Prop where
  enough : streakMax ≤ (values.foldl (Search.add f bound) {}).streak
  goesOn : ∀ front, front <+: values → front ≠ values →
    (front.foldl (Search.add f bound) {}).streak < streakMax

section Stops

variable {g : α → β} {streakMax : ℕ} {values others : List α}

theorem Stops.congr (stops : Stops f bound streakMax values) (same : ∀ a ∈ values, f a = g a) :
    Stops g bound streakMax values where
  enough := by
    rw [← foldl_add_congr same]
    exact stops.enough
  goesOn front shorter different := by
    have agree : ∀ a ∈ front, f a = g a := fun a mem => same a (shorter.subset mem)
    rw [← foldl_add_congr agree]
    exact stops.goesOn front shorter different

theorem Stops.eq_of_prefix (stops : Stops f bound streakMax values)
    (stops' : Stops g bound streakMax others) (same : ∀ a ∈ values, f a = g a)
    (either : values <+: others ∨ others <+: values) : values = others := by
  by_contra different
  rcases either with shorter | shorter
  · have few := stops'.goesOn values shorter different
    rw [← foldl_add_congr same] at few
    exact absurd few (not_lt_of_ge stops.enough)
  · have few := stops.goesOn others shorter (Ne.symm different)
    rw [foldl_add_congr fun a mem => same a (shorter.subset mem)] at few
    exact absurd few (not_lt_of_ge stops'.enough)

end Stops

theorem streak_add_le (f : α → β) (bound : β) (search : Search α) (a : α) :
    (search.add f bound a).streak ≤ search.streak + 1 := by
  rw [Search.add]
  split
  · exact Nat.zero_le _
  · exact le_refl _

theorem streak_foldl_le (values : List α) (search : Search α) :
    (values.foldl (Search.add f bound) search).streak ≤ search.streak + values.length := by
  induction values generalizing search with
  | nil => exact le_refl _
  | cons a values ih =>
      have step := streak_add_le f bound search a
      have rest := ih (search.add f bound a)
      rw [List.foldl_cons, List.length_cons]
      omega

/-- The smaller values that may come, and the values that may come before the next of them. -/
def Search.rank (search : Search α) (f : α → β) (bound : β) (height : β → ℕ) (streakMax : ℕ) :
    ℕ :=
  height (search.least f bound) * streakMax + (streakMax - search.streak)

theorem rank_add_lt {height : β → ℕ} {streakMax : ℕ}
    (descends : ∀ a b, f a < b → height (f a) < height b) (short : search.streak < streakMax) (a : α) :
    (search.add f bound a).rank f bound height streakMax < search.rank f bound height streakMax := by
  rcases lt_or_ge (f a) (search.least f bound) with smaller | other
  · have lower := Nat.mul_le_mul_right streakMax (descends a _ smaller)
    rw [add_of_lt smaller, Search.rank, Search.rank]
    simp only [Search.least, Option.map_some, Option.getD_some] at lower ⊢
    rw [Nat.succ_mul] at lower
    omega
  · rw [add_of_le other, Search.rank, Search.rank]
    simp only [Search.least]
    omega

end StreakSearch
