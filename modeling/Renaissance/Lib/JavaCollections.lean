import Mathlib.Algebra.Ring.Nat
import Mathlib.Data.List.Dedup
import Mathlib.Data.List.Induction
import Mathlib.Data.List.Sort
import Mathlib.Data.List.Lex
import Mathlib.Data.String.Basic

/-!
# Library types whose order matters

* `IterationOrder`: the order in which a hash-based collection enumerates its keys. Nothing is known
  of it but that every key comes up once.
* `utf16`, `compareToLe`, `sorted`: strings in the order of their UTF-16 code units.
* `update`, `toMap`: a map as the list of its entries in the order of enumeration. `toMap_map` says
  which order `toMap` leaves them in, `lookup_foldl_update` what a key is mapped to.
* `groupBy`: the elements of a list by their keys.
* `add`, `addAll`: a set in the order of insertion. `pairwise_addAllEach` says how the lists that are
  added to it one after the other come out.
-/

namespace JavaCollections

/-- The order in which a hash-based collection enumerates the keys that were inserted. -/
structure IterationOrder (κ : Type) where
  arrange : List κ → List κ
  perm : ∀ keys, (arrange keys).Perm keys

/-- Enumeration in insertion order. -/
def IterationOrder.insertion (κ : Type) : IterationOrder κ where
  arrange keys := keys
  perm _ := List.Perm.refl _

/-- Enumeration with the last insertion first. -/
def IterationOrder.reversed (κ : Type) : IterationOrder κ where
  arrange := List.reverse
  perm := List.reverse_perm

@[simp] theorem IterationOrder.mem_arrange {κ : Type} (order : IterationOrder κ) {keys : List κ}
    {key : κ} : key ∈ order.arrange keys ↔ key ∈ keys :=
  (order.perm keys).mem_iff

/-- The UTF-16 code units of a character: a supplementary character is a surrogate pair. -/
def utf16Units (c : Char) : List Nat :=
  let v := c.toNat
  if v < 0x10000 then [v]
  else [0xD800 + (v - 0x10000) / 0x400, 0xDC00 + (v - 0x10000) % 0x400]

def utf16 (s : String) : List Nat :=
  s.toList.flatMap utf16Units

/-- `s.compareTo(t) <= 0`. -/
def compareToLe (s t : String) : Bool :=
  utf16 s ≤ utf16 t

/-- `sorted` with the natural order of strings, which is a stable sort. -/
def sorted (names : List String) : List String :=
  names.insertionSort (fun s t => compareToLe s t = true)

theorem sorted_perm (names : List String) : (sorted names).Perm names :=
  List.perm_insertionSort _ names

@[simp] theorem mem_sorted {names : List String} {name : String} :
    name ∈ sorted names ↔ name ∈ names :=
  (sorted_perm names).mem_iff

theorem pairwise_sorted (names : List String) :
    (sorted names).Pairwise fun s t => utf16 s ≤ utf16 t := by
  have total : Std.Total fun s t : String => compareToLe s t = true :=
    ⟨fun s t => by simpa [compareToLe] using le_total (utf16 s) (utf16 t)⟩
  have trans' : IsTrans String fun s t => compareToLe s t = true :=
    ⟨fun s t u first second => by
      simp only [compareToLe, decide_eq_true_iff] at first second ⊢
      exact first.trans second⟩
  refine (List.pairwise_insertionSort _ names).imp fun {s t} le => ?_
  simpa [compareToLe] using le

section Maps

variable {κ ν : Type} [DecidableEq κ]

/-- Associate a value with a key. A new key goes to the end, a known one keeps its place. -/
def update (map : List (κ × ν)) (entry : κ × ν) : List (κ × ν) :=
  if entry.1 ∈ map.map Prod.fst then map.map fun other => if other.1 = entry.1 then entry else other
  else map ++ [entry]

/-- The immutable map with the given entries. Up to four entries are enumerated in the order of their
insertion, more in the order of a hash-based collection. -/
def toMap (order : IterationOrder κ) (entries : List (κ × ν)) : List (κ × ν) :=
  let map := entries.foldl update []
  if map.length ≤ 4 then map
  else (order.arrange (map.map Prod.fst)).filterMap fun key => (map.lookup key).map (key, ·)

/-- The keys of `toMap` in the order of enumeration, for distinct keys. -/
def enumerate (order : IterationOrder κ) (keys : List κ) : List κ :=
  if keys.length ≤ 4 then keys else order.arrange keys

theorem foldl_update {entries map : List (κ × ν)}
    (distinct : ((map ++ entries).map Prod.fst).Nodup) : entries.foldl update map = map ++ entries := by
  induction entries generalizing map with
  | nil => simp
  | cons entry entries ih =>
      have new : entry.1 ∉ map.map Prod.fst := by
        intro old
        rw [List.map_append, List.map_cons] at distinct
        exact (List.nodup_append.mp distinct).2.2 _ old _ (by simp) rfl
      have step : update map entry = map ++ [entry] := if_neg new
      rw [List.foldl_cons, step, ih (by simpa using distinct)]
      simp

theorem lookup_replace {map : List (κ × ν)} {entry : κ × ν} {key : κ} (other : key ≠ entry.1) :
    (map.map fun old => if old.1 = entry.1 then entry else old).lookup key = map.lookup key := by
  induction map with
  | nil => rfl
  | cons first map ih =>
      obtain ⟨k, v⟩ := first
      rw [List.map_cons]
      by_cases same : k = entry.1
      · have skip : (key == k) = false := beq_false_of_ne (same ▸ other)
        have skip' : (key == entry.1) = false := beq_false_of_ne other
        rw [if_pos same, List.lookup_cons, List.lookup_cons, skip, skip']
        exact ih
      · rw [if_neg same, List.lookup_cons, List.lookup_cons, ih]

theorem lookup_replace_self {map : List (κ × ν)} {entry : κ × ν}
    (known : entry.1 ∈ map.map Prod.fst) :
    (map.map fun old => if old.1 = entry.1 then entry else old).lookup entry.1 =
      some entry.2 := by
  induction map with
  | nil => simp at known
  | cons first map ih =>
      rw [List.map_cons]
      by_cases same : first.1 = entry.1
      · rw [if_pos same, List.lookup_cons, beq_self_eq_true]
      · have skip : (entry.1 == first.1) = false := beq_false_of_ne (Ne.symm same)
        have rest : entry.1 ∈ map.map Prod.fst := by simpa [Ne.symm same] using known
        rw [if_neg same, List.lookup_cons, skip]
        exact ih rest

/-- Looking up a key after an update. -/
theorem lookup_update (map : List (κ × ν)) (entry : κ × ν) (key : κ) :
    (update map entry).lookup key = if key = entry.1 then some entry.2 else map.lookup key := by
  unfold update
  by_cases same : key = entry.1
  · subst same
    rw [if_pos rfl]
    split
    · next known => exact lookup_replace_self known
    · next new =>
      have absent : map.lookup entry.1 = none := by
        rw [List.lookup_eq_none_iff]
        intro old mem
        simpa using fun h : entry.1 = old.1 => new (h ▸ List.mem_map_of_mem mem)
      have last : [entry].lookup entry.1 = some entry.2 := by
        rw [List.lookup_cons, beq_self_eq_true]
      rw [List.lookup_append, absent, last, Option.none_or]
  · rw [if_neg same]
    split
    · exact lookup_replace same
    · have skip : (key == entry.1) = false := beq_false_of_ne same
      have last : [entry].lookup key = none := by
        rw [List.lookup_cons, skip]
        rfl
      rw [List.lookup_append, last, Option.or_none]

/-- A key whose entries all have one value is looked up with it. -/
theorem lookup_foldl_update {entries : List (κ × ν)} {key : κ} {value : ν}
    (mem : (key, value) ∈ entries) (only : ∀ other, (key, other) ∈ entries → other = value)
    (map : List (κ × ν)) : (entries.foldl update map).lookup key = some value := by
  induction entries using List.reverseRecOn with
  | nil => cases mem
  | append_singleton entries last ih =>
      rw [List.foldl_append, List.foldl_cons, List.foldl_nil, lookup_update]
      by_cases same : key = last.1
      · have value : last.2 = value := only last.2 (by simp [same])
        rw [if_pos same, value]
      · have earlier : (key, value) ∈ entries := by
          rcases List.mem_append.mp mem with earlier | now
          · exact earlier
          · exact absurd (congrArg Prod.fst (List.mem_singleton.mp now)) same
        rw [if_neg same]
        exact ih earlier fun other mem => only other (by simp [mem])

theorem mem_update {map : List (κ × ν)} {entry other : κ × ν} (mem : other ∈ update map entry) :
    other = entry ∨ other ∈ map := by
  unfold update at mem
  split at mem
  · obtain ⟨old, found, same⟩ := List.mem_map.mp mem
    split at same
    · exact .inl same.symm
    · exact .inr (same ▸ found)
  · rcases List.mem_append.mp mem with old | new
    · exact .inr old
    · exact .inl (List.mem_singleton.mp new)

theorem mem_foldl_update {entries map : List (κ × ν)} {other : κ × ν}
    (mem : other ∈ entries.foldl update map) : other ∈ entries ∨ other ∈ map := by
  induction entries generalizing map with
  | nil => exact .inr mem
  | cons entry entries ih =>
      rcases ih mem with later | before
      · exact .inl (List.mem_cons_of_mem _ later)
      · rcases mem_update before with rfl | old
        · exact .inl List.mem_cons_self
        · exact .inr old

/-- The last value that is put under a key counts. -/
theorem lookup_foldl_update_eq (entries map : List (κ × ν)) (key : κ) :
    (entries.foldl update map).lookup key = (entries.reverse.lookup key).or (map.lookup key) := by
  induction entries using List.reverseRecOn with
  | nil => rfl
  | append_singleton entries last ih =>
      obtain ⟨k, v⟩ := last
      rw [List.foldl_append, List.foldl_cons, List.foldl_nil, lookup_update, ih,
        List.reverse_append, List.reverse_singleton, List.singleton_append, List.lookup_cons]
      by_cases same : key = k
      · subst same
        rw [if_pos rfl, beq_self_eq_true]
        rfl
      · rw [if_neg same, beq_false_of_ne same]

/-- No key has two entries. -/
def Keyed (map : List (κ × ν)) : Prop :=
  (map.map Prod.fst).Nodup

omit [DecidableEq κ] in
theorem Keyed.nil : Keyed ([] : List (κ × ν)) :=
  List.nodup_nil

theorem keys_update (map : List (κ × ν)) (entry : κ × ν) :
    (update map entry).map Prod.fst =
      if entry.1 ∈ map.map Prod.fst then map.map Prod.fst else map.map Prod.fst ++ [entry.1] := by
  unfold update
  split
  · rw [List.map_map]
    refine List.map_congr_left fun old _ => ?_
    change (if old.1 = entry.1 then entry else old).1 = old.1
    split
    · next same => exact same.symm
    · rfl
  · simp

theorem Keyed.update {map : List (κ × ν)} (keyed : Keyed map) (entry : κ × ν) :
    Keyed (update map entry) := by
  rw [Keyed, keys_update]
  split
  · exact keyed
  · next new =>
    refine List.nodup_append.mpr ⟨keyed, by simp, fun key mem last isLast same => ?_⟩
    rw [same, List.mem_singleton.mp isLast] at mem
    exact new mem

theorem Keyed.foldl_update {map : List (κ × ν)} (keyed : Keyed map) (entries : List (κ × ν)) :
    Keyed (entries.foldl JavaCollections.update map) := by
  induction entries generalizing map with
  | nil => exact keyed
  | cons entry entries ih => exact ih (keyed.update entry)

theorem Keyed.lookup_of_mem {map : List (κ × ν)} (keyed : Keyed map) {key : κ} {value : ν}
    (mem : (key, value) ∈ map) : map.lookup key = some value := by
  induction map with
  | nil => cases mem
  | cons first map ih =>
      obtain ⟨new, keyed'⟩ := List.nodup_cons.mp keyed
      obtain ⟨k, v⟩ := first
      rcases List.mem_cons.mp mem with same | later
      · obtain ⟨rfl, rfl⟩ := Prod.mk.inj same
        rw [List.lookup_cons, beq_self_eq_true]
      · have other : key ≠ k := by
          rintro rfl
          exact new (List.mem_map.mpr ⟨_, later, rfl⟩)
        rw [List.lookup_cons, beq_false_of_ne other]
        exact ih keyed' later

theorem mem_of_lookup {map : List (κ × ν)} {key : κ} {value : ν}
    (found : map.lookup key = some value) : (key, value) ∈ map := by
  induction map with
  | nil => cases found
  | cons first map ih =>
      obtain ⟨k, v⟩ := first
      rw [List.lookup_cons] at found
      by_cases same : key = k
      · subst same
        rw [beq_self_eq_true] at found
        cases found
        exact List.mem_cons_self
      · rw [beq_false_of_ne same] at found
        exact List.mem_cons_of_mem _ (ih found)

omit [DecidableEq κ] in
theorem Keyed.reverse {map : List (κ × ν)} (keyed : Keyed map) : Keyed map.reverse := by
  rw [Keyed, List.map_reverse]
  exact List.nodup_reverse.mpr keyed

/-- Entries of different keys may be put in any order. -/
theorem Keyed.lookup_reverse {map : List (κ × ν)} (keyed : Keyed map) (key : κ) :
    map.reverse.lookup key = map.lookup key := by
  cases found : map.lookup key with
  | some value =>
      exact keyed.reverse.lookup_of_mem (List.mem_reverse.mpr (mem_of_lookup found))
  | none =>
      rw [List.lookup_eq_none_iff] at found ⊢
      exact fun entry mem => found entry (List.mem_reverse.mp mem)

/-- Looking up a key that was mapped. -/
theorem lookup_map_key {f : κ → κ} (injective : ∀ k k', f k = f k' → k = k')
    (map : List (κ × ν)) (key : κ) :
    (map.map fun entry => (f entry.1, entry.2)).lookup (f key) = map.lookup key := by
  induction map with
  | nil => rfl
  | cons entry map ih =>
      obtain ⟨k, v⟩ := entry
      rw [List.map_cons, List.lookup_cons, List.lookup_cons, ih]
      by_cases same : key = k
      · rw [same, beq_self_eq_true, beq_self_eq_true]
      · rw [beq_false_of_ne same, beq_false_of_ne fun h => same (injective _ _ h)]

/-- `map.get(key)` for keys that are compared by `DecidableEq`. -/
def mapGet (map : List (κ × ν)) (key : κ) : Option ν :=
  map.lookup key

theorem mapGet_update (map : List (κ × ν)) (entry : κ × ν) (key : κ) :
    mapGet (update map entry) key = if key = entry.1 then some entry.2 else mapGet map key :=
  lookup_update map entry key

theorem mapGet_cons (entry : κ × ν) (map : List (κ × ν)) (key : κ) :
    mapGet (entry :: map) key = if key = entry.1 then some entry.2 else mapGet map key := by
  obtain ⟨k, v⟩ := entry
  rw [mapGet, List.lookup_cons]
  by_cases same : key = k
  · rw [same, beq_self_eq_true, if_pos rfl]
  · rw [beq_false_of_ne same, if_neg same]
    rfl

theorem mapGet_eq_none_iff {map : List (κ × ν)} {key : κ} :
    mapGet map key = none ↔ key ∉ map.map Prod.fst := by
  induction map with
  | nil => simp [mapGet]
  | cons entry map ih =>
      rw [mapGet_cons, List.map_cons, List.mem_cons, not_or, ← ih]
      by_cases same : key = entry.1 <;> simp [same]

/-- `map.putIfAbsent(key, value)`. -/
def putIfAbsent (map : List (κ × ν)) (entry : κ × ν) : List (κ × ν) :=
  if entry.1 ∈ map.map Prod.fst then map else update map entry

theorem mapGet_putIfAbsent (map : List (κ × ν)) (entry : κ × ν) (key : κ) :
    mapGet (putIfAbsent map entry) key =
      if key = entry.1 then some ((mapGet map key).getD entry.2) else mapGet map key := by
  unfold putIfAbsent
  by_cases same : key = entry.1
  · subst same
    rw [if_pos rfl]
    cases found : mapGet map entry.1 with
    | none =>
        rw [if_neg (mapGet_eq_none_iff.mp found), mapGet_update, if_pos rfl]
        rfl
    | some value =>
        have present : entry.1 ∈ map.map Prod.fst :=
          List.mem_map.mpr ⟨(entry.1, value), mem_of_lookup found, rfl⟩
        rw [if_pos present, found]
        rfl
  · rw [if_neg same]
    split
    · rfl
    · rw [mapGet_update, if_neg same]

/-- `map.merge(key, value, f)`: a key that is not there gets the value. -/
def merge (f : ν → ν → ν) (map : List (κ × ν)) (key : κ) (value : ν) : List (κ × ν) :=
  update map (key, match map.lookup key with
    | none => value
    | some prev => f prev value)

theorem mapGet_merge (f : ν → ν → ν) (map : List (κ × ν)) (key : κ) (value : ν) (other : κ) :
    mapGet (merge f map key value) other =
      if other = key then some (((mapGet map key).map (f · value)).getD value)
      else mapGet map other := by
  unfold merge
  rw [mapGet_update]
  cases found : map.lookup key <;> simp [mapGet, found]

/-- A key that is not there goes to the end. -/
theorem merge_of_not_mem (f : ν → ν → ν) {map : List (κ × ν)} {key : κ} (value : ν)
    (new : key ∉ map.map Prod.fst) : merge f map key value = map ++ [(key, value)] := by
  have absent : map.lookup key = none := mapGet_eq_none_iff.mpr new
  rw [merge, absent]
  exact if_neg new

theorem Keyed.mapGet_iff {map : List (κ × ν)} (keyed : Keyed map) {key : κ} {value : ν} :
    mapGet map key = some value ↔ (key, value) ∈ map :=
  ⟨mem_of_lookup, keyed.lookup_of_mem⟩

omit [DecidableEq κ] in
theorem Keyed.perm {map map' : List (κ × ν)} (keyed : Keyed map) (perm : map.Perm map') :
    Keyed map' :=
  (perm.map Prod.fst).nodup_iff.mp keyed

/-- Where a map has its entries does not matter. -/
theorem Keyed.mapGet_perm {map map' : List (κ × ν)} (keyed : Keyed map) (perm : map.Perm map')
    (key : κ) : mapGet map' key = mapGet map key := by
  ext value
  rw [(keyed.perm perm).mapGet_iff, keyed.mapGet_iff, perm.mem_iff]

/-- What the one entry of a key contributes. -/
theorem Keyed.sum_of_key {entries : List (κ × ν)} (keyed : Keyed entries) (key : κ) (n : ℕ) :
    (entries.map fun entry => if entry.1 = key then n else 0).sum =
      if key ∈ entries.map Prod.fst then n else 0 := by
  induction entries with
  | nil => rfl
  | cons entry entries ih =>
      obtain ⟨new, keyed⟩ := List.nodup_cons.mp keyed
      rw [List.map_cons, List.sum_cons, ih keyed]
      by_cases same : entry.1 = key
      · subst same
        simp [new]
      · have others : key ∈ (entry :: entries).map Prod.fst ↔ key ∈ entries.map Prod.fst := by
          rw [List.map_cons, List.mem_cons, or_iff_right (Ne.symm same)]
        simp only [if_neg same, Nat.zero_add, others]

/-- Every element is in the list of its key. -/
theorem Keyed.flatMap_perm {α : Type} {entries : List (κ × List α)} (keyed : Keyed entries)
    (key : α → κ) {elements : List α}
    (lists : ∀ entry ∈ entries, entry.2 = elements.filter (key · = entry.1))
    (covered : ∀ x ∈ elements, key x ∈ entries.map Prod.fst) :
    (entries.flatMap Prod.snd).Perm elements := by
  classical
  refine List.perm_iff_count.mpr fun x => ?_
  have each : ∀ entry ∈ entries, (List.count x ∘ Prod.snd) entry =
      if entry.1 = key x then elements.count x else 0 := by
    intro entry mem
    rw [Function.comp_apply, lists entry mem]
    split
    · next same => exact List.count_filter (by rw [decide_eq_true_iff, same])
    · next other =>
      refine List.count_eq_zero_of_not_mem fun inside => other ?_
      exact (of_decide_eq_true (List.mem_filter.mp inside).2).symm
  rw [List.count_flatMap, List.map_congr_left each, keyed.sum_of_key]
  split
  · rfl
  · next absent =>
    exact (List.count_eq_zero_of_not_mem fun inside => absent (covered x inside)).symm

/-- `elements.groupBy(key)`: the elements of every key in their order. -/
def groupBy {α : Type} (order : IterationOrder κ) (key : α → κ) (elements : List α) :
    List (κ × List α) :=
  (order.arrange (elements.map key).dedup).map fun k => (k, elements.filter (key · = k))

theorem mem_groupBy {α : Type} {order : IterationOrder κ} {key : α → κ} {elements : List α}
    {group : κ × List α} :
    group ∈ groupBy order key elements ↔
      group.1 ∈ elements.map key ∧ group.2 = elements.filter (key · = group.1) := by
  obtain ⟨k, members⟩ := group
  rw [groupBy, List.mem_map]
  constructor
  · rintro ⟨k', mem, same⟩
    obtain ⟨rfl, rfl⟩ := Prod.mk.inj same
    exact ⟨by simpa using mem, rfl⟩
  · rintro ⟨mem, members⟩
    exact ⟨k, by simpa using mem, Prod.ext rfl members.symm⟩

theorem lookup_map {keys : List κ} {f : κ → ν} {key : κ} (mem : key ∈ keys) :
    (keys.map fun key => (key, f key)).lookup key = some (f key) := by
  induction keys with
  | nil => cases mem
  | cons first keys ih =>
      by_cases same : key = first
      · subst same
        simp
      · have other : (key == first) = false := beq_false_of_ne same
        rw [List.map_cons, List.lookup_cons, other]
        exact ih ((List.mem_cons.mp mem).resolve_left same)

omit [DecidableEq κ] in
theorem enumerate_perm (order : IterationOrder κ) (keys : List κ) :
    (enumerate order keys).Perm keys := by
  unfold enumerate
  split
  · exact List.Perm.refl _
  · exact order.perm keys

theorem exists_lookup_iff {map : List (κ × ν)} {key : κ} :
    (∃ value, map.lookup key = some value) ↔ key ∈ map.map Prod.fst := by
  rw [← not_iff_not, ← mapGet_eq_none_iff, mapGet, Option.eq_none_iff_forall_ne_some, not_exists]

/-- Every key that was inserted can be looked up, in whatever order the map enumerates its keys. -/
theorem exists_lookup_toMap (order : IterationOrder κ) {entries : List (κ × ν)} {key : κ}
    (mem : key ∈ entries.map Prod.fst) : ∃ value, (toMap order entries).lookup key = some value := by
  obtain ⟨value, found⟩ : ∃ value, (entries.foldl update []).lookup key = some value := by
    rw [lookup_foldl_update_eq, List.lookup_nil, Option.or_none, exists_lookup_iff, List.map_reverse,
      List.mem_reverse]
    exact mem
  rw [toMap]
  split
  · exact ⟨value, found⟩
  · have inserted := exists_lookup_iff.mp ⟨value, found⟩
    refine exists_lookup_iff.mpr (List.mem_map.mpr ⟨(key, value), ?_, rfl⟩)
    exact List.mem_filterMap.mpr ⟨key, order.mem_arrange.mpr inserted, by simp [found]⟩

/-- A map with distinct keys has the entries it was built from, in the order of `enumerate`. -/
theorem toMap_map (order : IterationOrder κ) {keys : List κ} (distinct : keys.Nodup) (f : κ → ν) :
    toMap order (keys.map fun key => (key, f key)) =
      (enumerate order keys).map fun key => (key, f key) := by
  have names : (keys.map fun key => (key, f key)).map Prod.fst = keys := by
    simp [Function.comp_def]
  have inserted : (keys.map fun key => (key, f key)).foldl update [] =
      keys.map fun key => (key, f key) :=
    foldl_update (by simpa [Function.comp_def] using distinct)
  rw [toMap, inserted, names, enumerate, List.length_map]
  split
  · rfl
  · have entry : ∀ key ∈ order.arrange keys,
        ((keys.map fun key => (key, f key)).lookup key).map (key, ·) = some (key, f key) := by
      intro key mem
      rw [lookup_map (order.mem_arrange.mp mem)]
      rfl
    rw [List.filterMap_congr entry]
    exact congrFun List.filterMap_eq_map _

end Maps

section LinkedHashSet

variable {α β : Type} [DecidableEq α]

/-- `set += x` on a set that keeps the order of insertion. -/
def add (set : List α) (x : α) : List α :=
  if x ∈ set then set else set ++ [x]

/-- `set ++= xs`. -/
def addAll (set xs : List α) : List α :=
  xs.foldl add set

theorem mem_add {set : List α} {x y : α} : y ∈ add set x ↔ y ∈ set ∨ y = x := by
  unfold add
  split
  · next known => exact ⟨.inl, fun either => either.elim id fun same => same ▸ known⟩
  · rw [List.mem_append, List.mem_singleton]

theorem mem_addAll {set xs : List α} {y : α} : y ∈ addAll set xs ↔ y ∈ set ∨ y ∈ xs := by
  unfold addAll
  induction xs generalizing set with
  | nil => simp
  | cons x xs ih => rw [List.foldl_cons, ih, mem_add, List.mem_cons, or_assoc]

theorem nodup_addAll {set : List α} (distinct : set.Nodup) (xs : List α) : (addAll set xs).Nodup := by
  unfold addAll
  induction xs generalizing set with
  | nil => exact distinct
  | cons x xs ih =>
      refine ih ?_
      unfold add
      split
      · exact distinct
      · next new =>
        refine List.nodup_append.mpr ⟨distinct, by simp, fun y mem z isNew same => ?_⟩
        rw [same, List.mem_singleton.mp isNew] at mem
        exact new mem

theorem addAll_of_nodup {set xs : List α} (distinct : (set ++ xs).Nodup) :
    addAll set xs = set ++ xs := by
  unfold addAll
  induction xs generalizing set with
  | nil => exact (List.append_nil set).symm
  | cons x xs ih =>
      have new : x ∉ set := fun mem =>
        (List.nodup_append.mp distinct).2.2 x mem x List.mem_cons_self rfl
      rw [List.append_cons] at distinct
      rw [List.foldl_cons, add, if_neg new, ih distinct, ← List.append_cons]

/-- The elements that are new come after those that are known. -/
theorem addAll_eq_append (set xs : List α) :
    ∃ news, addAll set xs = set ++ news ∧ ∀ x ∈ news, x ∉ set ∧ x ∈ xs := by
  unfold addAll
  induction xs generalizing set with
  | nil => exact ⟨[], by simp, by simp⟩
  | cons x xs ih =>
      obtain ⟨news, same, new⟩ := ih (add set x)
      rw [List.foldl_cons, same]
      unfold add at same new ⊢
      split
      · next known =>
        rw [if_pos known] at new
        exact ⟨news, rfl, fun y mem => ⟨(new y mem).1, List.mem_cons_of_mem x (new y mem).2⟩⟩
      · next unknown =>
        rw [if_neg unknown] at new
        refine ⟨x :: news, by simp, fun y mem => ?_⟩
        rcases List.mem_cons.mp mem with rfl | later
        · exact ⟨unknown, List.mem_cons_self⟩
        · exact ⟨fun old => (new y later).1 (List.mem_append_left _ old),
            List.mem_cons_of_mem x (new y later).2⟩

/-- The lists of all sources, one after the other in one set. -/
def addAllEach (elements : β → List α) (sources : List β) : List α :=
  sources.foldl (fun set source => addAll set (elements source)) []

theorem mem_addAllEach {elements : β → List α} {sources : List β} {x : α} :
    x ∈ addAllEach elements sources ↔ ∃ source ∈ sources, x ∈ elements source := by
  induction sources using List.reverseRecOn with
  | nil => simp [addAllEach]
  | append_singleton sources last ih =>
      unfold addAllEach at ih ⊢
      rw [List.foldl_append, List.foldl_cons, List.foldl_nil, mem_addAll, ih]
      simp [or_and_right, exists_or]

theorem nodup_addAllEach (elements : β → List α) (sources : List β) :
    (addAllEach elements sources).Nodup := by
  induction sources using List.reverseRecOn with
  | nil => exact List.nodup_nil
  | append_singleton sources last ih =>
      unfold addAllEach at ih ⊢
      rw [List.foldl_append]
      exact nodup_addAll ih _

/-- The place of the first source that an element comes from. -/
def firstSource (elements : β → List α) (sources : List β) (x : α) : ℕ :=
  sources.findIdx fun source => x ∈ elements source

theorem pairwise_addAllEach (elements : β → List α) (sources : List β) :
    (addAllEach elements sources).Pairwise fun x y =>
      firstSource elements sources x ≤ firstSource elements sources y := by
  induction sources using List.reverseRecOn with
  | nil => exact List.Pairwise.nil
  | append_singleton sources last ih =>
      have grown : addAllEach elements (sources ++ [last]) =
          addAll (addAllEach elements sources) (elements last) := by
        unfold addAllEach
        rw [List.foldl_append, List.foldl_cons, List.foldl_nil]
      obtain ⟨news, same, new⟩ := addAll_eq_append (addAllEach elements sources) (elements last)
      have known : ∀ x ∈ addAllEach elements sources,
          firstSource elements (sources ++ [last]) x = firstSource elements sources x ∧
            firstSource elements sources x < sources.length := by
        intro x mem
        obtain ⟨source, listed, from'⟩ := mem_addAllEach.mp mem
        have found : firstSource elements sources x < sources.length :=
          List.findIdx_lt_length.mpr ⟨source, listed, by simpa using from'⟩
        refine ⟨?_, found⟩
        unfold firstSource at found ⊢
        rw [List.findIdx_append, if_pos found]
      have late : ∀ x ∈ news, firstSource elements (sources ++ [last]) x = sources.length := by
        intro x mem
        have absent : firstSource elements sources x = sources.length := by
          refine List.findIdx_eq_length.mpr fun source listed => ?_
          simpa using fun from' => (new x mem).1 (mem_addAllEach.mpr ⟨source, listed, from'⟩)
        unfold firstSource at absent ⊢
        rw [List.findIdx_append, if_neg (by omega), List.findIdx_cons]
        simp [(new x mem).2]
      rw [grown, same]
      refine List.pairwise_append.mpr ⟨?_, ?_, fun x old y isNew => ?_⟩
      · refine ih.imp_of_mem fun {x y} mem mem' le => ?_
        rw [(known x mem).1, (known y mem').1]
        exact le
      · refine List.pairwise_iff_forall_sublist.mpr fun {x y} sub => ?_
        rw [late x (sub.subset (by simp)), late y (sub.subset (by simp))]
      · rw [late y isNew, (known x old).1]
        exact (known x old).2.le

end LinkedHashSet

end JavaCollections
