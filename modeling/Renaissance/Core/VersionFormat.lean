import Renaissance.Core.Version
import Renaissance.Lib.DecimalNumber
import Renaissance.Lib.Fallible

/-!
# The format of versions

The documented format is numbers with dots between them. `parsesFormat_iff`: exactly the texts that have
dots at the end or signs, and otherwise only numbers, are read in spite of it.
-/

namespace Renaissance.Core.Version

variable (digits : DecimalDigits)

/-- One or more numbers below `2^31` with dots between them. -/
def Documented (version : String) : Prop :=
  ∀ part ∈ version.toList.splitOn '.', ∃ n, digits.number part = some n ∧ n < 2 ^ 31

/-- What `parse` promises of a text: it is read if and only if it has the documented format, and then
printing and reading the result changes nothing. -/
def ParsesFormat (version : String) : Prop :=
  ((∃ v, parse digits.parseInt version = .ok v) ↔ Documented digits version) ∧
    ∀ v, parse digits.parseInt version = .ok v →
      ∃ v', parse digits.parseInt (toString v) = .ok v' ∧ v'.compareTo v = 0

/-- The text ends with a dot or has a component with a sign. Without the empty components at its end, all
are numbers, but for a plus, or a minus before a zero. -/
structure Tolerated (version : String) : Prop where
  deviates : version.toList.getLast? = some '.' ∨
    ∃ part ∈ version.toList.splitOn '.', part.head? = some '+' ∨ part.head? = some '-'
  denotes : ∀ part ∈ (version.toList.splitOn '.').rdropWhile List.isEmpty, digits.NonnegativeText part

section parse

variable {parseInt : String → Option ℤ} {version : String}

theorem parse_eq_ok_iff {v : Version} :
    parse parseInt version = .ok v ↔
      (JavaString.split '.' version.toList).mapM parseInt = some v.components := by
  unfold parse
  cases (JavaString.split '.' version.toList).mapM parseInt with
  | none => exact ⟨nofun, nofun⟩
  | some components =>
      simp only [Option.some.injEq]
      split_ifs with nonnegative
      · rw [Except.ok.injEq]
        exact ⟨fun same => congrArg Version.components same, fun same => components_injective same⟩
      · refine ⟨nofun, ?_⟩
        rintro rfl
        exact absurd v.nonnegative nonnegative

theorem parse_ok_iff :
    (∃ v, parse parseInt version = .ok v) ↔
      ∀ part ∈ JavaString.split '.' version.toList, ∃ n, parseInt part = some n ∧ 0 ≤ n := by
  simp only [parse_eq_ok_iff]
  constructor
  · rintro ⟨v, read⟩ part mem
    have image := List.mem_map_of_mem (f := parseInt) mem
    rw [Fallible.mapM_eq_some_iff.mp read] at image
    obtain ⟨n, isComponent, same⟩ := List.mem_map.mp image
    exact ⟨n, same.symm, v.nonnegative n isComponent⟩
  · intro each
    choose! value read nonnegative using each
    refine ⟨⟨_, ?_⟩, Fallible.mapM_some read⟩
    exact List.forall_mem_map.mpr nonnegative

end parse

variable {digits} {version : String}

theorem Documented.ne_nil (documented : Documented digits version) : version.toList ≠ [] := by
  intro empty
  obtain ⟨n, read, -⟩ := documented [] (by simp [empty])
  cases read

/-- Every component of a documented version starts with a digit. -/
theorem Documented.not_tolerated (documented : Documented digits version) :
    ¬ Tolerated digits version := by
  rintro ⟨last | ⟨part, mem, sign⟩, -⟩
  · obtain ⟨front, split⟩ : ∃ front, version.toList = front ++ ['.'] :=
      List.getLast?_eq_some_iff.mp last
    obtain ⟨n, read, -⟩ := documented [] (by simp [split, List.splitOn_append_cons_self])
    cases read
  · obtain ⟨n, read, -⟩ := documented part mem
    rcases part with _ | ⟨c, rest⟩
    · cases read
    · rcases sign with sign | sign
      · cases sign
        rw [DecimalDigits.number_sign digits.digit_plus] at read
        cases read
      · cases sign
        rw [DecimalDigits.number_sign digits.digit_minus] at read
        cases read

theorem parse_ok_iff_parts (nonempty : version.toList ≠ []) :
    (∃ v, parse digits.parseInt version = .ok v) ↔
      ∀ part ∈ (version.toList.splitOn '.').rdropWhile List.isEmpty, digits.NonnegativeText part := by
  rw [parse_ok_iff, JavaString.split_of_ne_nil nonempty, List.forall_mem_map]
  simp only [DecimalDigits.parseInt_nonneg_iff]

theorem parse_ok_iff_documented_or_tolerated :
    (∃ v, parse digits.parseInt version = .ok v) ↔
      Documented digits version ∨ Tolerated digits version := by
  constructor
  · intro accepted
    have nonempty : version.toList ≠ [] := by
      intro empty
      obtain ⟨n, read, -⟩ := parse_ok_iff.mp accepted "" (by simp [JavaString.split, empty])
      cases read
    have denotes := (parse_ok_iff_parts nonempty).mp accepted
    by_cases last : version.toList.getLast? = some '.'
    · exact .inr ⟨.inl last, denotes⟩
    · refine or_iff_not_imp_right.mpr fun notTolerated part mem => ?_
      -- nothing is dropped, and no part has a sign
      have kept := JavaString.rdropWhile_splitOn nonempty last
      rcases denotes part (by rwa [kept]) with ⟨read, small⟩ | _ | _
      · exact ⟨_, read, small⟩
      · exact absurd ⟨.inr ⟨_, mem, .inl rfl⟩, denotes⟩ notTolerated
      · exact absurd ⟨.inr ⟨_, mem, .inr rfl⟩, denotes⟩ notTolerated
  · rintro (documented | tolerated)
    · rw [parse_ok_iff_parts documented.ne_nil]
      intro part mem
      obtain ⟨n, read, small⟩ := documented part ((List.rdropWhile_prefix _ _).subset mem)
      exact .number read small
    · refine (parse_ok_iff_parts fun empty => ?_).mpr tolerated.denotes
      rcases tolerated.deviates with last | ⟨part, mem, sign⟩
      · simp [empty] at last
      · simp [empty] at mem
        simp [mem] at sign

theorem repr_component {v : Version} {c : ℤ} (mem : c ∈ v.components) :
    toString c = c.toNat.repr := by
  rw [Int.toString_eq_repr, Int.repr_eq_if, if_pos (v.nonnegative c mem)]

theorem split_toString {v : Version} (nonempty : v.components ≠ []) :
    JavaString.split '.' (toString v).toList = v.components.map toString := by
  have digit : ∀ part ∈ v.components.map toString, ∀ c ∈ part.toList, c.isDigit := by
    intro part mem c memPart
    obtain ⟨n, isComponent, rfl⟩ := List.mem_map.mp mem
    rw [repr_component isComponent, Nat.toList_repr] at memPart
    exact Nat.isDigit_of_mem_toDigits (by decide) (by decide) memPart
  have nonempty' : v.components.map toString ≠ [] := by simpa using nonempty
  have printed : (toString v).toList = ['.'].intercalate ((v.components.map toString).map String.toList) :=
    String.toList_intercalate
  rw [printed, JavaString.split_intercalate nonempty']
  · intro part mem dot
    exact absurd (digit part mem '.' dot) (by decide)
  · refine .inr ?_
    rw [List.getLast?_map, List.getLast?_eq_some_getLast nonempty, Option.map_some,
      repr_component (List.getLast_mem nonempty)]
    exact fun same => Nat.repr_ne_empty (Option.some.inj same)

/-- A version that has components is read as it was printed. -/
theorem parse_toString {v : Version} (nonempty : v.components ≠ [])
    (small : ∀ c ∈ v.components, c < 2 ^ 31) : parse digits.parseInt (toString v) = .ok v := by
  rw [parse_eq_ok_iff, split_toString nonempty, List.mapM_map]
  have read : ∀ c ∈ v.components, digits.parseInt (toString c) = some (id c) := by
    intro c mem
    have nonnegative := v.nonnegative c mem
    rw [repr_component mem, DecimalDigits.parseInt_repr (by have := small c mem; omega)]
    exact congrArg some (Int.toNat_of_nonneg nonnegative)
  rw [Fallible.mapM_some (f := digits.parseInt ∘ toString) read, List.map_id]

theorem components_ne_nil {v : Version} (documented : Documented digits version)
    (read : parse digits.parseInt version = .ok v) : v.components ≠ [] := by
  have length := congrArg List.length (Fallible.mapM_eq_some_iff.mp (parse_eq_ok_iff.mp read))
  have last : version.toList.getLast? ≠ some '.' := fun last =>
    documented.not_tolerated ⟨.inl last, (parse_ok_iff_parts documented.ne_nil).mp ⟨v, read⟩⟩
  rw [JavaString.split_of_ne_nil documented.ne_nil,
    JavaString.rdropWhile_splitOn documented.ne_nil last] at length
  intro none
  simp [none, List.splitOn_ne_nil] at length

theorem components_lt {v : Version} (read : parse digits.parseInt version = .ok v) :
    ∀ c ∈ v.components, c < 2 ^ 31 := by
  intro c mem
  have image := List.mem_map_of_mem (f := some) mem
  rw [← Fallible.mapM_eq_some_iff.mp (parse_eq_ok_iff.mp read)] at image
  obtain ⟨part, -, isNumber⟩ := List.mem_map.mp image
  exact DecimalDigits.parseInt_lt isNumber

/-- The documented format is what `parse` reads, but for the texts with dots at the end and signs, which it
should reject. -/
theorem parsesFormat_iff (digits : DecimalDigits) (version : String) :
    ParsesFormat digits version ↔ ¬ Tolerated digits version := by
  rw [ParsesFormat, parse_ok_iff_documented_or_tolerated]
  constructor
  · rintro ⟨format, -⟩ tolerated
    exact (format.mp (.inr tolerated)).not_tolerated tolerated
  · intro notTolerated
    refine ⟨by simp [notTolerated], fun v read => ⟨v, ?_, ?_⟩⟩
    · have documented := (parse_ok_iff_documented_or_tolerated.mp ⟨v, read⟩).resolve_right notTolerated
      exact parse_toString (components_ne_nil documented read) (components_lt read)
    · rw [compareTo, compareComponents_self]

/-- The component after the last dot is missing. -/
theorem not_parsesFormat_eleven : ¬ ParsesFormat DecimalDigits.ascii "11." := by
  rintro ⟨⟨format, -⟩, -⟩
  obtain ⟨n, read, -⟩ := format ⟨⟨[11], by decide⟩, rfl⟩ [] (by decide)
  cases read

end Renaissance.Core.Version
