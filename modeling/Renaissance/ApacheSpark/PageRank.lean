import Mathlib.Algebra.Order.Field.Rat
import Mathlib.Data.Finset.Sort
import Mathlib.Data.Int.ConditionallyCompleteOrder
import Mathlib.Data.List.SplitBy
import Mathlib.Data.Prod.Lex
import Mathlib.Tactic.Linarith

/-!
# Validation of page ranks

`PageRank` compares the order of its urls with an expected one. Ranks that differ slightly from their
neighbour are made equal before, by `relaxedRanks`. Ranks are exact rationals here.

Results:
1. `relaxedRanks_groups`: inside a group, all ranks become that of its first entry.
2. `sortedUrls_eq`: the urls come out group by group, ascending in each of them.
3. `sortedUrls_stable`: two arrays with the same groups give the same urls.
-/

namespace Renaissance.PageRank

def rankDifferenceLimit : ℚ :=
  1 / 1000000

/-- The body of the loop, for the entries that are left. -/
def relaxRest (diffLimit : ℚ) : ℚ → ℚ → List (ℤ × ℚ) → List (ℤ × ℚ)
  | _, _, [] => []
  | prevRank, groupRank, (url, rank) :: entries =>
      let diff := rank - prevRank
      let groupRank := if diff > diffLimit then rank else groupRank
      (url, groupRank) :: relaxRest diffLimit rank groupRank entries

/-- There is no first entry in an empty array. -/
def relaxedRanks (entries : List (ℤ × ℚ)) (diffLimit : ℚ) : Option (List (ℤ × ℚ)) :=
  entries.head?.map fun first => relaxRest diffLimit first.2 first.2 entries

/-- The order of the pairs `(rank, url)`. -/
def rankLe (e e' : ℤ × ℚ) : Prop :=
  toLex (e.2, e.1) ≤ toLex (e'.2, e'.1)

instance : DecidableRel rankLe := fun e e' =>
  inferInstanceAs (Decidable (toLex (e.2, e.1) ≤ toLex (e'.2, e'.1)))

/-- `sortBy { case (url, rank) => (rank, url) }`. -/
def sortByRank (entries : List (ℤ × ℚ)) : List (ℤ × ℚ) :=
  entries.mergeSort fun e e' => decide (rankLe e e')

/-- The urls in the order in which `validate` hashes them. -/
def sortedUrls (preSortedEntries : List (ℤ × ℚ)) (rankDifferenceLimit : ℚ) : Option (List ℤ) :=
  (relaxedRanks preSortedEntries rankDifferenceLimit).map fun relaxed =>
    (sortByRank relaxed).map Prod.fst

/-! ## Groups -/

variable {diffLimit : ℚ} {entries entries' : List (ℤ × ℚ)}

/-- The next rank is not more than the limit above this one. -/
def near (diffLimit : ℚ) (e e' : ℤ × ℚ) : Bool :=
  e'.2 - e.2 ≤ diffLimit

/-- The array, cut where neighbouring ranks differ by more than the limit. -/
def groups (diffLimit : ℚ) (entries : List (ℤ × ℚ)) : List (List (ℤ × ℚ)) :=
  entries.splitBy (near diffLimit)

/-- The urls of each group. -/
def urlSets (diffLimit : ℚ) (entries : List (ℤ × ℚ)) : List (Finset ℤ) :=
  (groups diffLimit entries).map fun group => (group.map Prod.fst).toFinset

/-- The rank of the first entry. -/
def firstRank (group : List (ℤ × ℚ)) : ℚ :=
  (group.head?.map Prod.snd).getD 0

theorem firstRank_eq {group : List (ℤ × ℚ)} (nonempty : group ≠ []) :
    firstRank group = (group.head nonempty).2 := by
  rw [firstRank, List.head?_eq_some_head nonempty]
  rfl

def relaxGroup (group : List (ℤ × ℚ)) : List (ℤ × ℚ) :=
  group.map fun e => (e.1, firstRank group)

/-- Inside a group, the rank of the group stays. -/
theorem relaxRest_append (e : ℤ × ℚ) (group rest : List (ℤ × ℚ)) (groupRank : ℚ)
    (chain : (e :: group).IsChain fun e e' => near diffLimit e e') :
    relaxRest diffLimit e.2 groupRank (group ++ rest) =
      group.map (fun e => (e.1, groupRank)) ++
        relaxRest diffLimit ((e :: group).getLast (by simp)).2 groupRank rest := by
  induction group generalizing e with
  | nil => rfl
  | cons e' group ih =>
      obtain ⟨close, chain⟩ := List.isChain_cons_cons.mp chain
      have small : ¬ e'.2 - e.2 > diffLimit := not_lt.mpr (of_decide_eq_true close)
      rw [List.cons_append, relaxRest, if_neg small, ih e' chain]
      rfl

/-- All ranks of a group become that of its first entry, where the first group must be a new one. -/
theorem relaxRest_flatten {gs : List (List (ℤ × ℚ))} (nonempty : [] ∉ gs)
    (chains : ∀ group ∈ gs, group.IsChain fun e e' => near diffLimit e e')
    (apart : gs.IsChain fun group group' =>
      ∃ some some', near diffLimit (group.getLast some) (group'.head some') = false)
    (prevRank groupRank : ℚ)
    (first : ∀ e ∈ gs.flatten.head?, e.2 - prevRank > diffLimit ∨ groupRank = e.2) :
    relaxRest diffLimit prevRank groupRank gs.flatten = gs.flatMap relaxGroup := by
  induction gs generalizing prevRank groupRank with
  | nil => rfl
  | cons group gs ih =>
      obtain ⟨e, group, rfl⟩ := List.exists_cons_of_ne_nil fun empty =>
        nonempty (empty ▸ List.mem_cons_self)
      have start : (if e.2 - prevRank > diffLimit then e.2 else groupRank) = e.2 := by
        rcases first e rfl with far | same
        · exact if_pos far
        · rw [same, ite_self]
      rw [List.flatten_cons, List.cons_append, relaxRest, start,
        relaxRest_append e group gs.flatten e.2 (chains _ List.mem_cons_self), List.flatMap_cons]
      have next : ∀ e' ∈ gs.flatten.head?,
          e'.2 - ((e :: group).getLast (by simp)).2 > diffLimit ∨ e.2 = e'.2 := by
        intro e' isHead
        cases gs with
        | nil => cases isHead
        | cons group' gs =>
            obtain ⟨some', some'', far⟩ := (List.isChain_cons_cons.mp apart).1
            rw [List.flatten_cons, List.head?_append_of_ne_nil _ some'',
              List.head?_eq_some_head some''] at isHead
            cases isHead
            exact .inl (not_le.mp (of_decide_eq_false far))
      rw [ih (fun mem => nonempty (List.mem_cons_of_mem _ mem))
        (fun g mem => chains g (List.mem_cons_of_mem _ mem)) apart.tail _ _ next]
      rfl

theorem relaxedRanks_groups (nonempty : entries ≠ []) :
    relaxedRanks entries diffLimit = some ((groups diffLimit entries).flatMap relaxGroup) := by
  have relaxed := relaxRest_flatten (List.nil_notMem_splitBy (near diffLimit) entries)
    (fun _ => List.isChain_of_mem_splitBy) (List.isChain_getLast_head_splitBy _ _)
    (entries.head nonempty).2 (entries.head nonempty).2 ?_
  · rw [List.flatten_splitBy] at relaxed
    rw [relaxedRanks, List.head?_eq_some_head nonempty, Option.map_some, relaxed]
    rfl
  · intro e isHead
    rw [List.flatten_splitBy, List.head?_eq_some_head nonempty] at isHead
    cases isHead
    exact .inr rfl

/-- In an ascending array the ranks of the groups ascend strictly. -/
theorem groups_firstRank (positive : 0 < diffLimit)
    (ascending : entries.Pairwise fun e e' => e.2 ≤ e'.2) :
    (groups diffLimit entries).Pairwise fun group group' => firstRank group < firstRank group' := by
  have inGroup : ∀ group ∈ groups diffLimit entries, group.Pairwise fun e e' => e.2 ≤ e'.2 := by
    rw [← List.flatten_splitBy (near diffLimit) entries, List.pairwise_flatten] at ascending
    exact ascending.1
  have neighbours : (groups diffLimit entries).IsChain fun group group' =>
      firstRank group < firstRank group' := by
    refine List.IsChain.imp_of_mem_imp (fun group group' mem _ => ?_)
      (List.isChain_getLast_head_splitBy (near diffLimit) entries)
    rintro ⟨some', some'', far⟩
    have gap : diffLimit < (group'.head some'').2 - (group.getLast some').2 :=
      not_le.mp (of_decide_eq_false far)
    have least : (group.head some').2 ≤ (group.getLast some').2 :=
      (inGroup group mem).rel_head_of_rel_head_head (List.getLast_mem some') le_rfl
    rw [firstRank_eq some', firstRank_eq some'']
    linarith
  exact List.pairwise_map.mp ((List.isChain_map firstRank).mpr neighbours).pairwise

/-! ## Urls -/

/-- A group with its rank, urls ascending. -/
def sortGroup (group : List (ℤ × ℚ)) : List (ℤ × ℚ) :=
  ((group.map Prod.fst).toFinset.sort).map (·, firstRank group)

theorem sortGroup_perm {group : List (ℤ × ℚ)} (distinct : (group.map Prod.fst).Nodup) :
    (sortGroup group).Perm (relaxGroup group) := by
  have relaxed : relaxGroup group = (group.map Prod.fst).map (·, firstRank group) := by
    rw [List.map_map]
    rfl
  rw [relaxed, sortGroup]
  exact ((Finset.sort_perm_toList _ _).trans (List.toFinset_toList distinct)).map _

instance : Std.Total rankLe where
  total _ _ := le_total _ _

instance : IsTrans (ℤ × ℚ) rankLe where
  trans _ _ _ := le_trans

instance : Std.Antisymm rankLe where
  antisymm e e' le ge := by
    obtain ⟨rank, url⟩ := Prod.mk.inj (toLex_inj.mp (le_antisymm le ge))
    exact Prod.ext url rank

theorem sortByRank_eq (positive : 0 < diffLimit)
    (ascending : entries.Pairwise fun e e' => e.2 ≤ e'.2) (distinct : (entries.map Prod.fst).Nodup) :
    sortByRank ((groups diffLimit entries).flatMap relaxGroup) =
      (groups diffLimit entries).flatMap sortGroup := by
  have sorted : (sortByRank ((groups diffLimit entries).flatMap relaxGroup)).Pairwise rankLe :=
    List.pairwise_mergeSort' rankLe _
  have sorted' : ((groups diffLimit entries).flatMap sortGroup).Pairwise rankLe := by
    rw [List.pairwise_flatMap]
    refine ⟨fun group _ => ?_, (groups_firstRank positive ascending).imp ?_⟩
    · rw [sortGroup, List.pairwise_map]
      refine (Finset.pairwise_sort _ _).imp fun le => ?_
      exact Prod.Lex.toLex_le_toLex.mpr (.inr ⟨rfl, le⟩)
    · intro group group' lt e mem e' mem'
      obtain ⟨url, -, rfl⟩ := List.mem_map.mp mem
      obtain ⟨url', -, rfl⟩ := List.mem_map.mp mem'
      exact Prod.Lex.toLex_le_toLex.mpr (.inl lt)
  refine List.Perm.eq_of_pairwise' sorted sorted' ?_
  refine (List.mergeSort_perm _ _).trans (List.Perm.flatMap_left _ fun group mem => ?_)
  refine (sortGroup_perm ?_).symm
  rw [← List.flatten_splitBy (near diffLimit) entries, List.map_flatten, List.nodup_flatten] at distinct
  exact distinct.1 _ (List.mem_map_of_mem mem)

/-- The urls come out group by group, those of each group in ascending order. -/
theorem sortedUrls_eq (nonempty : entries ≠ []) (positive : 0 < diffLimit)
    (ascending : entries.Pairwise fun e e' => e.2 ≤ e'.2) (distinct : (entries.map Prod.fst).Nodup) :
    sortedUrls entries diffLimit = some ((urlSets diffLimit entries).flatMap Finset.sort) := by
  rw [sortedUrls, relaxedRanks_groups nonempty, Option.map_some,
    sortByRank_eq positive ascending distinct, List.map_flatMap, urlSets, List.flatMap_map]
  simp [sortGroup, Function.comp_def]

/-- Two arrays whose neighbouring ranks are cut into the same groups of urls give the same urls. -/
theorem sortedUrls_stable (nonempty : entries ≠ []) (nonempty' : entries' ≠ [])
    (positive : 0 < diffLimit) (ascending : entries.Pairwise fun e e' => e.2 ≤ e'.2)
    (ascending' : entries'.Pairwise fun e e' => e.2 ≤ e'.2)
    (distinct : (entries.map Prod.fst).Nodup)
    (sameUrls : (entries'.map Prod.fst).Perm (entries.map Prod.fst))
    (sameGroups : urlSets diffLimit entries' = urlSets diffLimit entries) :
    sortedUrls entries' diffLimit = sortedUrls entries diffLimit ∧
      sortedUrls entries diffLimit = some ((urlSets diffLimit entries).flatMap Finset.sort) := by
  have urls := sortedUrls_eq nonempty positive ascending distinct
  have urls' := sortedUrls_eq nonempty' positive ascending' (sameUrls.nodup_iff.mpr distinct)
  exact ⟨by rw [urls', urls, sameGroups], urls⟩

/-- Three urls, of which the first and the last are equivalent. -/
def someRanks : List (ℤ × ℚ) :=
  [(3, 1), (1, 1 + 1 / 2000000), (2, 5)]

/-- The same urls with a little noise. -/
def noisyRanks : List (ℤ × ℚ) :=
  [(1, 1), (3, 1 + 1 / 1000000), (2, 4)]

theorem sortedUrls_stable_noisyRanks :
    sortedUrls noisyRanks rankDifferenceLimit = sortedUrls someRanks rankDifferenceLimit ∧
      sortedUrls someRanks rankDifferenceLimit =
        some ((urlSets rankDifferenceLimit someRanks).flatMap Finset.sort) :=
  sortedUrls_stable (by decide) (by decide) (by decide +kernel) (by decide +kernel)
    (by decide +kernel) (by decide) (by decide) (by decide +kernel)

end Renaissance.PageRank
