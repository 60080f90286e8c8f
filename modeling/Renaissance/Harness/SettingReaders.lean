import Renaissance.Build.BenchmarkInfo
import Renaissance.Harness.Config

/-!
# Two readers of settings

The build reads the settings of a configuration, the harness those that override them. Both are
assignments to a parameter, `name = value`. The build splits them at every equals sign and the harness at
the first one.

`setting_agrees_iff` says which settings are the same to both.
-/

namespace Renaissance

open JavaCollections

namespace Settings

/-- What precedes the first equals sign. -/
def nameText (setting : String) : List Char :=
  setting.toList.takeWhile (· ≠ '=')

/-- What follows the first equals sign. -/
def valueText (setting : String) : List Char :=
  (setting.toList.dropWhile (· ≠ '=')).tail

/-- What follows the first equals sign, without further ones at the end. -/
def closedText (setting : String) : List Char :=
  (valueText setting).rdropWhile (· = '=')

def name (setting : String) : String :=
  JavaString.trim (nameText setting)

/-- Both accept the setting or both reject it, and if they accept it they assign the same value. -/
def Agrees (confName : String) (result : List (String × String)) (config : Config)
    (setting : String) : Prop :=
  ((∃ result', Build.applySetting confName result setting = .ok result') ↔
      ConfigParser.validate (.override setting) = none) ∧
    ∀ result', Build.applySetting confName result setting = .ok result' →
      ConfigParser.validate (.override setting) = none →
      ∃ value, result' = update result (Build.parameterKey confName (name setting), value) ∧
        (config.withParameterOverride setting).parameterOverrides =
          update config.parameterOverrides (name setting, value)

/-- There is no equals sign, or one with something on both sides of it, or the setting begins with one
and neither reader accepts it. -/
def Plain (setting : String) : Prop :=
  '=' ∈ setting.toList →
    if nameText setting = [] then closedText setting = [] ∨ '=' ∈ closedText setting
    else valueText setting ≠ [] ∧ '=' ∉ valueText setting

variable {confName setting : String} {result result' : List (String × String)} {config : Config}

theorem notMem_nameText (setting : String) : '=' ∉ nameText setting := by
  intro mem
  simpa using List.mem_takeWhile_imp mem

theorem toList_eq (assigns : '=' ∈ setting.toList) :
    setting.toList = nameText setting ++ '=' :: valueText setting := by
  have parts : nameText setting ++ setting.toList.dropWhile (· ≠ '=') = setting.toList :=
    List.takeWhile_append_dropWhile
  rw [valueText]
  cases rest : setting.toList.dropWhile (· ≠ '=') with
  | nil =>
      rw [rest, List.append_nil] at parts
      exact absurd (parts ▸ assigns) (notMem_nameText setting)
  | cons first value =>
      have equals := List.head?_dropWhile_not (· ≠ '=') setting.toList
      rw [rest] at equals parts
      rw [← parts, List.tail_cons, show first = '=' by simpa using equals]

/-! ## What the build accepts -/

theorem settingElements_of_notMem (plain : '=' ∉ setting.toList) :
    Build.settingElements setting = none := by
  rw [Build.settingElements, JavaString.split, if_neg plain]
  rfl

theorem split_eq (assigns : '=' ∈ setting.toList) :
    JavaString.split '=' setting.toList =
      (if closedText setting = [] then [nameText setting].rdropWhile List.isEmpty
        else nameText setting :: (closedText setting).splitOn '=').map String.ofList := by
  rw [JavaString.split, if_pos assigns, toList_eq assigns, List.splitOn_append_cons_self,
    List.splitOn_eq_singleton (notMem_nameText setting), List.singleton_append,
    JavaString.rdropWhile_cons, JavaString.rdropWhile_splitOn_eq, ← closedText]
  by_cases empty : closedText setting = []
  · rw [if_pos empty, if_pos rfl, if_pos empty]
  · rw [if_neg empty, if_neg (List.splitOn_ne_nil _ _), if_neg empty]

theorem settingElements_eq (assigns : '=' ∈ setting.toList) :
    Build.settingElements setting =
      if closedText setting = [] ∨ '=' ∈ closedText setting then none
      else some (name setting, JavaString.trim (closedText setting)) := by
  rw [Build.settingElements, split_eq assigns]
  by_cases empty : closedText setting = []
  · rw [if_pos empty, if_pos (Or.inl empty)]
    cases nameText setting <;> rfl
  · rw [if_neg empty]
    by_cases further : '=' ∈ closedText setting
    · rw [if_pos (Or.inr further)]
      cases parts : (closedText setting).splitOn '=' with
      | nil => exact absurd parts (List.splitOn_ne_nil _ _)
      | cons part rest =>
          cases rest with
          | nil => exact absurd further (JavaString.length_splitOn_eq_one.mp (congrArg List.length parts))
          | cons part' rest => rfl
    · rw [if_neg (not_or.mpr ⟨empty, further⟩), List.splitOn_eq_singleton further]
      simp only [List.map_cons, List.map_nil, String.toList_ofList]
      rfl

theorem applySetting_ok_iff
    (known : Build.parameterKey confName (name setting) ∈ result.map Prod.fst) :
    (∃ result', Build.applySetting confName result setting = .ok result') ↔
      '=' ∈ setting.toList ∧ closedText setting ≠ [] ∧ '=' ∉ closedText setting := by
  constructor
  · rintro ⟨result', applied⟩
    obtain ⟨name', value, elements, -, -⟩ := Build.applySetting_ok applied
    by_cases assigns : '=' ∈ setting.toList
    · rw [settingElements_eq assigns] at elements
      split at elements
      · cases elements
      · next accepted => exact ⟨assigns, not_or.mp accepted⟩
    · rw [settingElements_of_notMem assigns] at elements
      cases elements
  · rintro ⟨assigns, some', plain⟩
    refine ⟨update result
      (Build.parameterKey confName (name setting), JavaString.trim (closedText setting)), ?_⟩
    rw [Build.applySetting, settingElements_eq assigns, if_neg (not_or.mpr ⟨some', plain⟩)]
    exact if_pos known

theorem applySetting_eq (applied : Build.applySetting confName result setting = .ok result') :
    result' = update result
      (Build.parameterKey confName (name setting), JavaString.trim (closedText setting)) := by
  obtain ⟨name', value, elements, -, rfl⟩ := Build.applySetting_ok applied
  by_cases assigns : '=' ∈ setting.toList
  · rw [settingElements_eq assigns] at elements
    split at elements
    · cases elements
    · cases elements
      rfl
  · rw [settingElements_of_notMem assigns] at elements
    cases elements

/-! ## What the harness accepts -/

theorem validate_override_iff (setting : String) :
    ConfigParser.validate (.override setting) = none ↔
      '=' ∈ setting.toList ∧ nameText setting ≠ [] := by
  have head : '=' ∈ setting.toList → (setting.toList.head? = some '=' ↔ nameText setting = []) := by
    intro assigns
    have plain := notMem_nameText setting
    rw [toList_eq assigns]
    cases front : nameText setting with
    | nil => simp
    | cons c rest =>
        rw [front] at plain
        have other : c ≠ '=' := fun same => plain (same ▸ List.mem_cons_self)
        simp [other]
  simp only [ConfigParser.validate, ite_eq_left_iff, reduceCtorEq, imp_false, not_not]
  exact and_congr_right fun assigns => not_congr (head assigns)

theorem closedText_eq (plain : '=' ∉ valueText setting) : closedText setting = valueText setting := by
  rw [closedText, List.rdropWhile_eq_self_iff]
  intro some' last
  refine plain ?_
  rw [← show (valueText setting).getLast some' = '=' by simpa using last]
  exact List.getLast_mem some'

/-- An equals sign is no blank. -/
theorem notMem_valueText (plain : '=' ∉ closedText setting)
    (same : JavaString.trim (closedText setting) = JavaString.trim (valueText setting)) :
    '=' ∉ valueText setting := by
  intro mem
  have kept := JavaString.mem_trim mem (by decide)
  rw [← same] at kept
  exact plain (JavaString.mem_of_mem_trim kept)

/-! ## Where they agree -/

theorem update_value_inj {map : List (String × String)} {key value value' : String}
    (same : update map (key, value) = update map (key, value')) : value = value' := by
  have values := congrArg (List.lookup key) same
  rw [lookup_update, lookup_update, if_pos rfl, if_pos rfl] at values
  exact Option.some.inj values

/-- Where both accept a setting, the values differ by the equals signs at the end. -/
theorem trim_eq_of_same {value : String}
    (applied : Build.applySetting confName result setting = .ok result')
    (built : result' = update result (Build.parameterKey confName (name setting), value))
    (overridden : (config.withParameterOverride setting).parameterOverrides =
      update config.parameterOverrides (name setting, value)) :
    JavaString.trim (closedText setting) = JavaString.trim (valueText setting) :=
  calc JavaString.trim (closedText setting)
      = value := update_value_inj ((applySetting_eq applied).symm.trans built)
    _ = JavaString.trim (valueText setting) := (update_value_inj overridden).symm

theorem Agrees.plain (known : Build.parameterKey confName (name setting) ∈ result.map Prod.fst)
    (agrees : Agrees confName result config setting) : Plain setting := by
  obtain ⟨both, same⟩ := agrees
  have accepts := applySetting_ok_iff known
  intro assigns
  split
  · next unnamed =>
    by_contra rejected
    have accepted := accepts.mpr ⟨assigns, not_or.mp rejected⟩
    exact ((validate_override_iff setting).mp (both.mp accepted)).2 unnamed
  · next named =>
    have valid := (validate_override_iff setting).mpr ⟨assigns, named⟩
    obtain ⟨result', applied⟩ := both.mpr valid
    obtain ⟨-, nonempty, plain⟩ := accepts.mp ⟨result', applied⟩
    obtain ⟨value, built, overridden⟩ := same result' applied valid
    have single := notMem_valueText plain (trim_eq_of_same applied built overridden)
    exact ⟨closedText_eq single ▸ nonempty, single⟩

theorem Plain.agrees (known : Build.parameterKey confName (name setting) ∈ result.map Prod.fst)
    (plain : Plain setting) : Agrees confName result config setting := by
  refine ⟨?_, fun result' applied valid => ?_⟩
  · rw [applySetting_ok_iff known, validate_override_iff]
    refine and_congr_right fun assigns => ?_
    have parts := plain assigns
    split at parts
    · next unnamed =>
      exact iff_of_false (not_and_or.mpr (by simpa using parts)) (not_not_intro unnamed)
    · next named =>
      rw [closedText_eq parts.2]
      exact iff_of_true parts named
  · obtain ⟨assigns, named⟩ := (validate_override_iff setting).mp valid
    have parts := plain assigns
    rw [if_neg named] at parts
    refine ⟨_, applySetting_eq applied, ?_⟩
    rw [closedText_eq parts.2]
    rfl

/-- The readers agree on a setting of a known parameter exactly if it has no equals sign at all, has one
with something on both sides of it, or begins with one and is rejected by both. -/
theorem setting_agrees_iff (confName setting : String) (result : List (String × String))
    (config : Config)
    (known : Build.parameterKey confName (name setting) ∈ result.map Prod.fst) :
    Agrees confName result config setting ↔ Plain setting :=
  ⟨Agrees.plain known, Plain.agrees known⟩

theorem setting_agrees_iff_copyCount :
    Agrees "test" [(Build.parameterKey "test" "copy_count", "20")] {} "copy_count = 5" ↔
      Plain "copy_count = 5" :=
  setting_agrees_iff "test" "copy_count = 5" _ {} (by decide)

/-- The build loses the equals signs that a value ends with. -/
theorem paddedValue_not_agrees :
    ¬∀ (confName setting : String) (result : List (String × String)) (config : Config),
      Build.parameterKey confName (name setting) ∈ result.map Prod.fst →
        Agrees confName result config setting := by
  intro agree
  have known : Build.parameterKey "test" (name "key=MQ==") ∈
      [(Build.parameterKey "test" "key", "")].map Prod.fst := by decide
  have parts := (agree "test" "key=MQ==" _ {} known).plain known (by decide)
  exact absurd parts (by decide)

end Settings

end Renaissance
