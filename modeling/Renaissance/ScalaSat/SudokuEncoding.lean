import Mathlib.Data.Fintype.EquivFin
import Renaissance.ScalaSat.ScalaDoku

/-!
# What the formula says

`Encodes` is the meaning of the formula: it holds of the truth values `chosen r c k`, "the digit
`k + 1` is chosen for the slot", exactly if they satisfy all clauses. A completion of the board makes
such truth values. Conversely nothing in the formula says that at most one digit is chosen for a
slot, but nine slots of a row share nine digits and no digit twice, so each slot has exactly one.
-/

namespace Renaissance.ScalaDoku

open Propositional

theorem mem_upTo {a b n : ℕ} : n ∈ upTo a b ↔ a ≤ n ∧ n ≤ b := by
  rw [upTo, List.mem_range'_1]
  omega

variable {sudoku : List (List (Option Int))}

structure Encodes (sudoku : List (List (Option Int))) (chosen : ℕ → ℕ → ℕ → Bool) : Prop where
  onePerEntry : ∀ r c, r ≤ 8 → c ≤ 8 → ∃ k ≤ 8, chosen r c k
  uniqueInColumns : ∀ c k r1 r2, c ≤ 8 → k ≤ 8 → r1 < r2 → r2 ≤ 8 →
    ¬ (chosen r1 c k ∧ chosen r2 c k)
  uniqueInRows : ∀ r k c1 c2, r ≤ 8 → k ≤ 8 → c1 < c2 → c2 ≤ 8 →
    ¬ (chosen r c1 k ∧ chosen r c2 k)
  uniqueInGrid1 : ∀ k i j r c1 c2, k ≤ 8 → i ≤ 2 → j ≤ 2 → r ≤ 2 → c1 < c2 → c2 ≤ 2 →
    ¬ (chosen (3 * i + r) (3 * j + c1) k ∧ chosen (3 * i + r) (3 * j + c2) k)
  uniqueInGrid2 : ∀ k i j r1 r2 c1 c2, k ≤ 8 → i ≤ 2 → j ≤ 2 → r1 < r2 → r2 ≤ 2 → c1 ≤ 2 → c2 ≤ 2 →
    ¬ (chosen (3 * i + r1) (3 * j + c1) k ∧ chosen (3 * i + r2) (3 * j + c2) k)
  forced : ∀ r c digit, r ≤ 8 → c ≤ 8 → (cell sudoku r c).join = some digit →
    chosen r c (digit - 1).toNat

/-- What the model chooses. -/
def chosen (model : ℕ → Bool) (r c k : ℕ) : Bool :=
  model (vars r c k)

variable {model : ℕ → Bool}

theorem eval_notBoth {r c k r' c' k' : ℕ} :
    (notBoth (propVar r c k) (propVar r' c' k')).eval model ↔
      ¬ (chosen model r c k ∧ chosen model r' c' k') :=
  Formula.eval_not_both

theorem eval_slot {r c : ℕ} :
    (Formula.or ((upTo 0 8).map (propVar r c))).eval model ↔ ∃ k ≤ 8, chosen model r c k := by
  simp only [Formula.eval_or, List.mem_map, exists_exists_and_eq_and, mem_upTo, Nat.zero_le,
    true_and]
  exact Iff.rfl

theorem eval_onePerEntry : (∀ f ∈ onePerEntry, f.eval model) ↔
    ∀ r c, r ≤ 8 → c ≤ 8 → ∃ k ≤ 8, chosen model r c k := by
  simp only [onePerEntry, List.forall_mem_flatMap, List.forall_mem_map, mem_upTo, eval_slot,
    Nat.zero_le, true_and]
  exact ⟨fun holds r c hr hc => holds r hr c hc, fun holds r hr c hc => holds r c hr hc⟩

theorem eval_uniqueInColumns : (∀ f ∈ uniqueInColumns, f.eval model) ↔
    ∀ c k r1 r2, c ≤ 8 → k ≤ 8 → r1 < r2 → r2 ≤ 8 →
      ¬ (chosen model r1 c k ∧ chosen model r2 c k) := by
  simp only [uniqueInColumns, List.forall_mem_flatMap, List.forall_mem_map, mem_upTo, eval_notBoth,
    Nat.zero_le, true_and]
  constructor
  · intro holds c k r1 r2 hc hk less hr
    exact holds c hc k hk r1 (by omega) r2 ⟨less, hr⟩
  · intro holds c hc k hk r1 _ r2 ⟨less, hr⟩
    exact holds c k r1 r2 hc hk less hr

theorem eval_uniqueInRows : (∀ f ∈ uniqueInRows, f.eval model) ↔
    ∀ r k c1 c2, r ≤ 8 → k ≤ 8 → c1 < c2 → c2 ≤ 8 →
      ¬ (chosen model r c1 k ∧ chosen model r c2 k) := by
  simp only [uniqueInRows, List.forall_mem_flatMap, List.forall_mem_map, mem_upTo, eval_notBoth,
    Nat.zero_le, true_and]
  constructor
  · intro holds r k c1 c2 hr hk less hc
    exact holds r hr k hk c1 (by omega) c2 ⟨less, hc⟩
  · intro holds r hr k hk c1 _ c2 ⟨less, hc⟩
    exact holds r k c1 c2 hr hk less hc

theorem eval_uniqueInGrid1 : (∀ f ∈ uniqueInGrid1, f.eval model) ↔
    ∀ k i j r c1 c2, k ≤ 8 → i ≤ 2 → j ≤ 2 → r ≤ 2 → c1 < c2 → c2 ≤ 2 →
      ¬ (chosen model (3 * i + r) (3 * j + c1) k ∧ chosen model (3 * i + r) (3 * j + c2) k) := by
  simp only [uniqueInGrid1, List.forall_mem_flatMap, List.forall_mem_map, mem_upTo, eval_notBoth,
    Nat.zero_le, true_and]
  constructor
  · intro holds k i j r c1 c2 hk hi hj hr less hc
    exact holds k hk i hi j hj r hr c1 (by omega) c2 ⟨less, hc⟩
  · intro holds k hk i hi j hj r hr c1 _ c2 ⟨less, hc⟩
    exact holds k i j r c1 c2 hk hi hj hr less hc

theorem eval_uniqueInGrid2 : (∀ f ∈ uniqueInGrid2, f.eval model) ↔
    ∀ k i j r1 r2 c1 c2, k ≤ 8 → i ≤ 2 → j ≤ 2 → r1 < r2 → r2 ≤ 2 → c1 ≤ 2 → c2 ≤ 2 →
      ¬ (chosen model (3 * i + r1) (3 * j + c1) k ∧ chosen model (3 * i + r2) (3 * j + c2) k) := by
  simp only [uniqueInGrid2, List.forall_mem_flatMap, List.forall_mem_map, mem_upTo, eval_notBoth,
    Nat.zero_le, true_and]
  constructor
  · intro holds k i j r1 r2 c1 c2 hk hi hj less hr hc1 hc2
    exact holds k hk i hi j hj r1 (by omega) c1 hc1 c2 hc2 r2 ⟨less, hr⟩
  · intro holds k hk i hi j hj r1 _ c1 hc1 c2 hc2 r2 ⟨less, hr⟩
    exact holds k i j r1 r2 c1 c2 hk hi hj less hr hc1 hc2

/-- The board has nine rows of nine entries, which are empty or digits. -/
structure Board (sudoku : List (List (Option Int))) : Prop where
  rows : sudoku.length = 9
  columns : ∀ row ∈ sudoku, row.length = 9
  digits : ∀ row ∈ sudoku, ∀ digit, some digit ∈ row → 1 ≤ digit ∧ digit ≤ 9

theorem mem_givenEntries {r c : ℕ} {digit : Int} : (r, c, digit) ∈ givenEntries sudoku ↔
    r ≤ 8 ∧ c ≤ 8 ∧ (cell sudoku r c).join = some digit := by
  simp only [givenEntries, List.mem_flatMap, List.mem_filterMap, mem_upTo, Option.map_eq_some_iff,
    Prod.mk.injEq, Nat.zero_le, true_and]
  constructor
  · rintro ⟨r', hr, c', hc, d, given, rfl, rfl, rfl⟩
    exact ⟨hr, hc, given⟩
  · rintro ⟨hr, hc, given⟩
    exact ⟨r, hr, c, hc, digit, given, rfl, rfl, rfl⟩

theorem Board.digit (board : Board sudoku) {r c : ℕ} {digit : Int}
    (given : (cell sudoku r c).join = some digit) : 1 ≤ digit ∧ digit ≤ 9 := by
  rw [Option.join_eq_some_iff, cell, Option.bind_eq_some_iff] at given
  obtain ⟨row, inRows, inRow⟩ := given
  exact board.digits row (List.mem_of_getElem? inRows) digit (List.mem_of_getElem? inRow)

/-- The clauses for the given entries of a board. -/
theorem Board.forcedEntries_eq (board : Board sudoku) : forcedEntries sudoku =
    .ok ((givenEntries sudoku).map fun (r, c, digit) => .or [propVar r c (digit - 1).toNat]) := by
  have each : ∀ entry ∈ givenEntries sudoku, forcedEntry entry =
      .ok (.or [propVar entry.1 entry.2.1 (entry.2.2 - 1).toNat]) := by
    rintro ⟨r, c, digit⟩ mem
    have := board.digit (mem_givenEntries.mp mem).2.2
    exact if_pos (by omega)
  unfold forcedEntries
  generalize givenEntries sudoku = entries at each
  induction entries with
  | nil => rfl
  | cons entry entries ih =>
      rw [List.mapM_cons, each entry List.mem_cons_self,
        ih fun entry mem => each entry (List.mem_cons_of_mem _ mem)]
      rfl

theorem eval_forced : (∀ f ∈ (givenEntries sudoku).map fun (r, c, digit) =>
      Formula.or [propVar r c (digit - 1).toNat], f.eval model) ↔
    ∀ r c digit, r ≤ 8 → c ≤ 8 → (cell sudoku r c).join = some digit →
      chosen model r c (digit - 1).toNat := by
  simp only [List.forall_mem_map, Prod.forall, mem_givenEntries, Formula.eval_or,
    List.mem_singleton, exists_eq_left]
  exact ⟨fun holds r c digit hr hc given => holds r c digit ⟨hr, hc, given⟩,
    fun holds r c digit given => holds r c digit given.1 given.2.1 given.2.2⟩

/-- The formula for a board. -/
def constraints (sudoku : List (List (Option Int))) : List (Formula ℕ) :=
  onePerEntry ++ uniqueInColumns ++ uniqueInRows ++ uniqueInGrid1 ++ uniqueInGrid2 ++
    (givenEntries sudoku).map fun (r, c, digit) => .or [propVar r c (digit - 1).toNat]

theorem eval_constraints :
    (Formula.and (constraints sudoku)).eval model ↔ Encodes sudoku (chosen model) := by
  rw [Formula.eval_and, constraints]
  simp only [List.forall_mem_append, eval_onePerEntry, eval_uniqueInColumns, eval_uniqueInRows,
    eval_uniqueInGrid1, eval_uniqueInGrid2, eval_forced]
  constructor
  · rintro ⟨⟨⟨⟨⟨slots, columns⟩, rows⟩, grid1⟩, grid2⟩, forced⟩
    exact ⟨slots, columns, rows, grid1, grid2, forced⟩
  · rintro ⟨slots, columns, rows, grid1, grid2, forced⟩
    exact ⟨⟨⟨⟨⟨slots, columns⟩, rows⟩, grid1⟩, grid2⟩, forced⟩

theorem Board.solve_eq (board : Board sudoku)
    (solveForSatisfiability : Formula ℕ → Option (ℕ → Bool)) :
    solve solveForSatisfiability sudoku =
      .ok ((solveForSatisfiability (.and (constraints sudoku))).map decode) := by
  rw [solve, if_pos ⟨board.rows, board.columns⟩, board.forcedEntries_eq]
  rfl

/-- A grid that completes the board: nine rows of nine digits, with the given entries, and with no digit
twice in a row, a column or a box. -/
structure Completes (sudoku : List (List (Option Int))) (grid : List (List Int)) : Prop where
  rows : grid.length = 9
  columns : ∀ row ∈ grid, row.length = 9
  digits : ∀ row ∈ grid, ∀ digit ∈ row, 1 ≤ digit ∧ digit ≤ 9
  given : ∀ r c digit, cell sudoku r c = some (some digit) → cell grid r c = some digit
  uniqueInRow : ∀ r c c', r ≤ 8 → c ≤ 8 → c' ≤ 8 → cell grid r c = cell grid r c' → c = c'
  uniqueInColumn : ∀ r r' c, r ≤ 8 → r' ≤ 8 → c ≤ 8 → cell grid r c = cell grid r' c → r = r'
  uniqueInBox : ∀ i j r c r' c', i ≤ 2 → j ≤ 2 → r ≤ 2 → c ≤ 2 → r' ≤ 2 → c' ≤ 2 →
    cell grid (3 * i + r) (3 * j + c) = cell grid (3 * i + r') (3 * j + c') → r = r' ∧ c = c'

theorem cell_bounds {α : Type} {xs : List (List α)} (rows : xs.length = 9)
    (columns : ∀ row ∈ xs, row.length = 9) {r c : ℕ} {a : α} (found : cell xs r c = some a) :
    r ≤ 8 ∧ c ≤ 8 := by
  obtain ⟨row, inRows, inRow⟩ := Option.bind_eq_some_iff.mp found
  have hr := List.getElem?_eq_some_iff.mp inRows
  have hc := List.getElem?_eq_some_iff.mp inRow
  obtain ⟨hr, -⟩ := hr
  obtain ⟨hc, -⟩ := hc
  rw [rows] at hr
  rw [columns row (List.mem_of_getElem? inRows)] at hc
  omega

section Soundness

variable {chosen : ℕ → ℕ → ℕ → Bool}

/-- Each slot has exactly one digit. -/
theorem Encodes.exactly_one (encodes : Encodes sudoku chosen) {r : ℕ} (hr : r ≤ 8) :
    ∃ digit : Fin 9 → Fin 9, ∀ c k : Fin 9, chosen r c k ↔ k = digit c := by
  have slots : ∀ c : Fin 9, ∃ k : Fin 9, chosen r c k := by
    intro c
    obtain ⟨k, hk, isChosen⟩ := encodes.onePerEntry r c hr (by omega)
    exact ⟨⟨k, by omega⟩, isChosen⟩
  choose digit isChosen using slots
  have apart : ∀ c c' k : Fin 9, chosen r c k → chosen r c' k → c = c' := by
    intro c c' k here there
    by_contra other
    rcases Nat.lt_or_gt_of_ne fun same => other (Fin.ext same) with less | less
    · exact encodes.uniqueInRows r k c c' hr (by omega) less (by omega) ⟨here, there⟩
    · exact encodes.uniqueInRows r k c' c hr (by omega) less (by omega) ⟨there, here⟩
  have injective : Function.Injective digit := fun c c' same =>
    apart c c' (digit c) (isChosen c) (same ▸ isChosen c')
  refine ⟨digit, fun c k => ⟨fun here => ?_, fun same => same ▸ isChosen c⟩⟩
  -- another digit of the slot is the digit of another slot of the row
  obtain ⟨c', rfl⟩ := Finite.surjective_of_injective injective k
  rw [apart c c' (digit c') here (isChosen c')]

theorem getElem?_upTo {k : ℕ} (hk : k ≤ 8) : (upTo 0 8)[k]? = some k := by
  rw [upTo, List.getElem?_range' (by omega), Nat.zero_add, Nat.one_mul]

theorem indexWhere_slot {r c k : ℕ} (hk : k ≤ 8)
    (only : ∀ k' ≤ 8, ScalaDoku.chosen model r c k' ↔ k' = k) :
    indexWhere ((upTo 0 8).map (vars r c)) (fun v => model v) = k := by
  have first : ((upTo 0 8).map (vars r c)).findIdx? (fun v => model v) = some k := by
    rw [List.findIdx?_eq_some_iff_getElem]
    refine ⟨by simpa [upTo] using Nat.lt_succ_of_le hk, ?_, fun j less => ?_⟩
    · simpa [upTo, ScalaDoku.chosen] using (only k hk).mpr rfl
    · have other := mt (only j (by omega)).mp (by omega)
      simpa [upTo, ScalaDoku.chosen] using other
  rw [indexWhere, first]

theorem cell_decode {r c : ℕ} (hr : r ≤ 8) (hc : c ≤ 8) : cell (decode model) r c =
    some (indexWhere ((upTo 0 8).map (vars r c)) (fun v => model v) + 1) := by
  rw [cell, decode, List.getElem?_map, getElem?_upTo hr, Option.map_some, Option.bind_some,
    List.getElem?_map, getElem?_upTo hc, Option.map_some]

/-- The decoded grid has the chosen digits. -/
theorem cell_decode_iff (encodes : Encodes sudoku (ScalaDoku.chosen model)) {r c : ℕ} (hr : r ≤ 8)
    (hc : c ≤ 8) : ∃ k ≤ 8, cell (decode model) r c = some ((k + 1 : ℕ) : ℤ) ∧
      ∀ k' ≤ 8, ScalaDoku.chosen model r c k' ↔ k' = k := by
  obtain ⟨digit, only⟩ := encodes.exactly_one hr
  have here := only ⟨c, by omega⟩
  have only' : ∀ k' ≤ 8, ScalaDoku.chosen model r c k' ↔ k' = digit ⟨c, by omega⟩ := by
    intro k' hk'
    have := here ⟨k', by omega⟩
    rw [Fin.ext_iff] at this
    exact this
  refine ⟨digit ⟨c, by omega⟩, by omega, ?_, only'⟩
  rw [cell_decode hr hc, indexWhere_slot (by omega) only']
  rfl

theorem same_digit (encodes : Encodes sudoku (ScalaDoku.chosen model)) {r c r' c' : ℕ} (hr : r ≤ 8)
    (hc : c ≤ 8) (hr' : r' ≤ 8) (hc' : c' ≤ 8)
    (same : cell (decode model) r c = cell (decode model) r' c') :
    ∃ k ≤ 8, ScalaDoku.chosen model r c k ∧ ScalaDoku.chosen model r' c' k := by
  obtain ⟨k, hk, at', only⟩ := cell_decode_iff encodes hr hc
  obtain ⟨k', hk', at'', only'⟩ := cell_decode_iff encodes hr' hc'
  have equal : k = k' := by
    rw [at', at'', Option.some.injEq] at same
    omega
  exact ⟨k, hk, (only k hk).mpr rfl, (only' k hk).mpr equal⟩

/-- The constraints are about pairs in their order. -/
theorem eq_of_unique {n : ℕ} {chosen : ℕ → Prop}
    (unique : ∀ x x', x < x' → x' ≤ n → ¬ (chosen x ∧ chosen x')) {x x' : ℕ} (hx : x ≤ n)
    (hx' : x' ≤ n) (here : chosen x) (there : chosen x') : x = x' := by
  by_contra other
  rcases Nat.lt_or_gt_of_ne other with less | less
  · exact unique x x' less hx' ⟨here, there⟩
  · exact unique x' x less hx ⟨there, here⟩

theorem Encodes.completes (board : Board sudoku)
    (encodes : Encodes sudoku (ScalaDoku.chosen model)) : Completes sudoku (decode model) where
  rows := by simp [decode, upTo]
  columns row mem := by
    obtain ⟨r, -, rfl⟩ := List.mem_map.mp mem
    simp [upTo]
  digits row mem digit mem' := by
    obtain ⟨r, hr, rfl⟩ := List.mem_map.mp mem
    obtain ⟨c, hc, rfl⟩ := List.mem_map.mp mem'
    rw [mem_upTo] at hr hc
    obtain ⟨k, hk, at', -⟩ := cell_decode_iff encodes hr.2 hc.2
    rw [cell_decode hr.2 hc.2, Option.some.injEq] at at'
    omega
  given r c digit given := by
    obtain ⟨hr, hc⟩ := cell_bounds board.rows board.columns given
    have given' : (cell sudoku r c).join = some digit := by rw [given]; rfl
    have bounds := board.digit given'
    obtain ⟨k, -, at', only⟩ := cell_decode_iff encodes hr hc
    have forced := (only _ (by omega)).mp (encodes.forced r c digit hr hc given')
    rw [at', Option.some.injEq]
    omega
  uniqueInRow r c c' hr hc hc' same := by
    obtain ⟨k, hk, here, there⟩ := same_digit encodes hr hc hr hc' same
    exact eq_of_unique (fun c c' => encodes.uniqueInRows r k c c' hr hk) hc hc' here there
  uniqueInColumn r r' c hr hr' hc same := by
    obtain ⟨k, hk, here, there⟩ := same_digit encodes hr hc hr' hc same
    exact eq_of_unique (fun r r' => encodes.uniqueInColumns c k r r' hc hk) hr hr' here there
  uniqueInBox i j r c r' c' hi hj hr hc hr' hc' same := by
    obtain ⟨k, hk, here, there⟩ := same_digit encodes (by omega) (by omega) (by omega) (by omega) same
    -- the rows of a box exclude each other as a whole
    have rows : ∀ x x', x < x' → x' ≤ 2 →
        ¬ ((∃ y ≤ 2, ScalaDoku.chosen model (3 * i + x) (3 * j + y) k) ∧
          ∃ y ≤ 2, ScalaDoku.chosen model (3 * i + x') (3 * j + y) k) := by
      rintro x x' less hx' ⟨⟨y, hy, here⟩, y', hy', there⟩
      exact encodes.uniqueInGrid2 k i j x x' y y' hk hi hj less hx' hy hy' ⟨here, there⟩
    obtain rfl := eq_of_unique rows hr hr' ⟨c, hc, here⟩ ⟨c', hc', there⟩
    exact ⟨rfl, eq_of_unique (fun c c' => encodes.uniqueInGrid1 k i j r c c' hk hi hj hr) hc hc'
      here there⟩

end Soundness

section Completeness

variable {grid : List (List Int)}

/-- The model that chooses the digits of the grid. -/
def encode (grid : List (List Int)) (v : ℕ) : Bool :=
  cell grid (v / 81) (v / 9 % 9) = some ((v % 9 + 1 : ℕ) : ℤ)

theorem chosen_encode {r c k : ℕ} (hc : c ≤ 8) (hk : k ≤ 8) :
    chosen (encode grid) r c k ↔ cell grid r c = some ((k + 1 : ℕ) : ℤ) := by
  have row : vars r c k / 81 = r := by unfold vars; omega
  have column : vars r c k / 9 % 9 = c := by unfold vars; omega
  have digit : vars r c k % 9 = k := by unfold vars; omega
  rw [chosen, encode, row, column, digit, decide_eq_true_iff]

/-- Two slots of which the same digit is chosen hold the same digit. -/
theorem cell_eq_of_chosen {r c r' c' k : ℕ} (hc : c ≤ 8) (hc' : c' ≤ 8) (hk : k ≤ 8)
    (both : chosen (encode grid) r c k ∧ chosen (encode grid) r' c' k) :
    cell grid r c = cell grid r' c' := by
  rw [(chosen_encode hc hk).mp both.1, (chosen_encode hc' hk).mp both.2]

theorem Completes.digit (completes : Completes sudoku grid) {r c : ℕ} (hr : r ≤ 8) (hc : c ≤ 8) :
    ∃ k ≤ 8, cell grid r c = some ((k + 1 : ℕ) : ℤ) := by
  have inRows : r < grid.length := by rw [completes.rows]; omega
  have mem : grid[r] ∈ grid := List.getElem_mem inRows
  have inRow : c < grid[r].length := by rw [completes.columns _ mem]; omega
  obtain ⟨low, high⟩ := completes.digits _ mem _ (List.getElem_mem inRow)
  refine ⟨(grid[r][c] - 1).toNat, by omega, ?_⟩
  rw [cell, List.getElem?_eq_getElem inRows, Option.bind_some, List.getElem?_eq_getElem inRow,
    Option.some.injEq]
  omega

theorem Completes.encodes (board : Board sudoku) (completes : Completes sudoku grid) :
    Encodes sudoku (chosen (encode grid)) where
  onePerEntry r c hr hc := by
    obtain ⟨k, hk, at'⟩ := completes.digit hr hc
    exact ⟨k, hk, (chosen_encode hc hk).mpr at'⟩
  uniqueInColumns c k r1 r2 hc hk less hr both := by
    have := completes.uniqueInColumn r1 r2 c (by omega) hr hc (cell_eq_of_chosen hc hc hk both)
    omega
  uniqueInRows r k c1 c2 hr hk less hc both := by
    have := completes.uniqueInRow r c1 c2 hr (by omega) hc
      (cell_eq_of_chosen (by omega) hc hk both)
    omega
  uniqueInGrid1 k i j r c1 c2 hk hi hj hr less hc both := by
    have := completes.uniqueInBox i j r c1 r c2 hi hj hr (by omega) hr hc
      (cell_eq_of_chosen (by omega) (by omega) hk both)
    omega
  uniqueInGrid2 k i j r1 r2 c1 c2 hk hi hj less hr hc1 hc2 both := by
    have := completes.uniqueInBox i j r1 c1 r2 c2 hi hj (by omega) hc1 hr hc2
      (cell_eq_of_chosen (by omega) (by omega) hk both)
    omega
  forced r c digit hr hc given := by
    have bounds := board.digit given
    rw [Option.join_eq_some_iff] at given
    rw [chosen_encode hc (by omega), completes.given r c digit given, Option.some.injEq]
    omega

end Completeness

/-- The solver completes a board that has a completion, and says so of one that has none. -/
theorem solve_correct {solveForSatisfiability : Formula ℕ → Option (ℕ → Bool)}
    (decides : Decides solveForSatisfiability) (board : Board sudoku) :
    (∃ grid, solve solveForSatisfiability sudoku = .ok (some grid) ∧ Completes sudoku grid) ∨
    (solve solveForSatisfiability sudoku = .ok none ∧ ∀ grid, ¬ Completes sudoku grid) := by
  rw [board.solve_eq]
  cases found : solveForSatisfiability (.and (constraints sudoku)) with
  | some model =>
      have encodes := eval_constraints.mp (decides.sound _ model found)
      exact .inl ⟨decode model, rfl, encodes.completes board⟩
  | none =>
      refine .inr ⟨rfl, fun grid completes => ?_⟩
      exact decides.complete _ found (encode grid) (eval_constraints.mpr (completes.encodes board))

/-- A board with a few digits. -/
def puzzle : List (List (Option Int)) :=
  [some 5, some 3, none, none, some 7, none, none, none, none] ::
    [some 6, none, none, some 1, some 9, some 5, none, none, none] ::
      [none, some 9, some 8, none, none, none, none, some 6, none] ::
        List.replicate 6 (List.replicate 9 none)

theorem board_puzzle : Board puzzle where
  rows := rfl
  columns := by decide
  digits := by
    have all : ∀ row ∈ puzzle, ∀ entry ∈ row, entry.all fun digit => decide (1 ≤ digit ∧ digit ≤ 9) := by
      decide
    exact fun row inPuzzle digit given => of_decide_eq_true (all row inPuzzle _ given)

theorem solve_correct_puzzle :
    (∃ grid, solve decider puzzle = .ok (some grid) ∧ Completes puzzle grid) ∨
    (solve decider puzzle = .ok none ∧ ∀ grid, ¬ Completes puzzle grid) :=
  solve_correct decider_decides board_puzzle

end Renaissance.ScalaDoku
