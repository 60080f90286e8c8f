import Mathlib.Data.List.Chain

/-!
# Filling lines

Words fill a line until it is full for the next one. `full` decides that and may look at all words of
the line.

* `flatten_fill`: no word is lost, and none comes out of order;
* `unbroken_iff`: the lines that are filled with a coarser test are not too full if and only if that test
  breaks the correct lines where they end.
-/

namespace LineFilling

variable {α : Type}

section Fill

variable (full : List α → α → Bool)

/-- The lines of which the first one starts with `line`. -/
def fillFrom : List α → List α → List (List α)
  | line, [] => [line]
  | line, word :: words =>
      if line ≠ [] ∧ full line word then line :: fillFrom [word] words
      else fillFrom (line ++ [word]) words

def fill (words : List α) : List (List α) :=
  fillFrom full [] words

/-- The line was not full for any of its words. -/
def Unbroken (line : List α) : Prop :=
  ∀ front word rest, line = front ++ word :: rest → front ≠ [] → ¬full front word

/-- A line is full for the word that the next one starts with. -/
def Breaks (lines : List (List α)) : Prop :=
  lines.IsChain fun line next => ∀ word ∈ next.head?, full line word

end Fill

variable {full coarse : List α → α → Bool} {line : List α} {word : α} {words : List α}

theorem fillFrom_of_full (isFull : line ≠ [] ∧ full line word) :
    fillFrom full line (word :: words) = line :: fillFrom full [word] words :=
  if_pos isFull

theorem fillFrom_of_not_full (goesOn : ¬(line ≠ [] ∧ full line word)) :
    fillFrom full line (word :: words) = fillFrom full (line ++ [word]) words :=
  if_neg goesOn

theorem flatten_fillFrom (line words : List α) : (fillFrom full line words).flatten = line ++ words := by
  induction words generalizing line with
  | nil => simp [fillFrom]
  | cons word words ih =>
      rw [fillFrom]
      split
      · rw [List.flatten_cons, ih]
        rfl
      · rw [ih, List.append_assoc]
        rfl

theorem flatten_fill (words : List α) : (fill full words).flatten = words :=
  flatten_fillFrom [] words

theorem mem_of_mem_fill (mem : line ∈ fill full words) (inLine : word ∈ line) : word ∈ words := by
  rw [← flatten_fill words]
  exact List.mem_flatten_of_mem mem inLine

/-- The first line goes on from `line`. -/
theorem fillFrom_eq_cons (line words : List α) :
    ∃ rest lines, fillFrom full line words = (line ++ rest) :: lines := by
  induction words generalizing line with
  | nil => exact ⟨[], [], by rw [List.append_nil]; rfl⟩
  | cons word words ih =>
      rw [fillFrom]
      split
      · exact ⟨[], _, by rw [List.append_nil]⟩
      · obtain ⟨rest, lines, same⟩ := ih (line ++ [word])
        exact ⟨word :: rest, lines, by rw [same, List.append_assoc]; rfl⟩

theorem unbroken_nil : Unbroken full [] := by
  intro front word rest same nonempty
  exact absurd (List.nil_eq_append_iff.mp same).1 nonempty

theorem Unbroken.concat (unbroken : Unbroken full line) (goesOn : ¬(line ≠ [] ∧ full line word)) :
    Unbroken full (line ++ [word]) := by
  intro front word' rest same nonempty
  rcases List.eq_nil_or_concat' rest with rfl | ⟨rest, last, rfl⟩
  · obtain ⟨rfl, single⟩ := List.append_inj' same rfl
    cases single
    exact fun isFull => goesOn ⟨nonempty, isFull⟩
  · rw [← List.cons_append, ← List.append_assoc] at same
    exact unbroken front word' rest (List.append_inj' same rfl).1 nonempty

theorem unbroken_singleton (word : α) : Unbroken full [word] :=
  unbroken_nil.concat fun isFull => isFull.1 rfl

section Coarse

variable (finer : ∀ line word, line ≠ [] → coarse line word → full line word)

include finer

/-- The lines are not too full if the coarser test breaks the correct lines. -/
theorem unbroken_of_breaks (unbroken : Unbroken full line)
    (breaks : Breaks coarse (fillFrom full line words)) :
    ∀ filled ∈ fillFrom coarse line words, Unbroken full filled := by
  induction words generalizing line with
  | nil =>
      intro filled mem
      obtain rfl := List.mem_singleton.mp mem
      exact unbroken
  | cons word words ih =>
      by_cases isFull : line ≠ [] ∧ full line word
      · obtain ⟨rest, lines, next⟩ : ∃ rest lines,
            fillFrom full [word] words = ([word] ++ rest) :: lines :=
          fillFrom_eq_cons [word] words
        rw [fillFrom_of_full isFull, next] at breaks
        obtain ⟨here, breaks⟩ := List.isChain_cons_cons.mp breaks
        rw [fillFrom_of_full ⟨isFull.1, here word rfl⟩]
        rw [← next] at breaks
        exact List.forall_mem_cons.mpr ⟨unbroken, ih (unbroken_singleton word) breaks⟩
      · have goesOn : ¬(line ≠ [] ∧ coarse line word) := fun ⟨nonempty, isCoarse⟩ =>
          isFull ⟨nonempty, finer line word nonempty isCoarse⟩
        rw [fillFrom_of_not_full isFull] at breaks
        rw [fillFrom_of_not_full goesOn]
        exact ih (unbroken.concat isFull) breaks

/-- Where a line should have been broken and was not, it is too full. -/
theorem breaks_of_unbroken (unbroken : ∀ filled ∈ fillFrom coarse line words, Unbroken full filled) :
    Breaks coarse (fillFrom full line words) := by
  induction words generalizing line with
  | nil => exact List.isChain_singleton line
  | cons word words ih =>
      by_cases isFull : line ≠ [] ∧ full line word
      · by_cases here : coarse line word
        · rw [fillFrom_of_full ⟨isFull.1, here⟩] at unbroken
          have rest := ih (List.forall_mem_cons.mp unbroken).2
          obtain ⟨others, lines, next⟩ : ∃ others lines,
              fillFrom full [word] words = ([word] ++ others) :: lines := fillFrom_eq_cons [word] words
          rw [fillFrom_of_full isFull]
          rw [next] at rest ⊢
          refine List.isChain_cons_cons.mpr ⟨fun first isFirst => ?_, rest⟩
          obtain rfl := Option.some.inj isFirst
          exact here
        · -- the line goes on with a word that it was full for
          rw [fillFrom_of_not_full fun both => here both.2] at unbroken
          obtain ⟨rest, lines, first⟩ : ∃ rest lines,
              fillFrom coarse (line ++ [word]) words = (line ++ [word] ++ rest) :: lines :=
            fillFrom_eq_cons (line ++ [word]) words
          rw [first] at unbroken
          have fits := unbroken _ List.mem_cons_self line word rest (List.append_assoc ..) isFull.1
          exact absurd isFull.2 fits
      · have goesOn : ¬(line ≠ [] ∧ coarse line word) := fun ⟨nonempty, isCoarse⟩ =>
          isFull ⟨nonempty, finer line word nonempty isCoarse⟩
        rw [fillFrom_of_not_full goesOn] at unbroken
        rw [fillFrom_of_not_full isFull]
        exact ih unbroken

/-- Filled with a coarser test, no line is too full if and only if the correct lines are full for that
test, too, where they end. -/
theorem unbroken_iff (words : List α) :
    (∀ line ∈ fill coarse words, Unbroken full line) ↔ Breaks coarse (fill full words) :=
  ⟨breaks_of_unbroken finer, unbroken_of_breaks finer unbroken_nil⟩

end Coarse

end LineFilling
