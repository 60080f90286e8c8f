import Mathlib.Data.List.Basic

/-!
# Computations that may fail

What a sequence, a loop over a list and an image of a list say when they succeed.
-/

namespace Fallible

variable {ε α β : Type}

theorem bind_eq_ok {x : Except ε α} {f : α → Except ε β} {b : β} :
    x >>= f = .ok b ↔ ∃ a, x = .ok a ∧ f a = .ok b := by
  cases x with
  | error error => exact ⟨nofun, fun ⟨_, same, _⟩ => nomatch same⟩
  | ok a => exact ⟨fun next => ⟨a, rfl, next⟩, fun ⟨_, same, next⟩ => by cases same; exact next⟩

theorem ok_bind (a : α) (f : α → Except ε β) : Except.ok a >>= f = f a := rfl

theorem foldlM_cons_ok {f : β → α → Except ε β} {x : α} {xs : List α} {b b' : β} :
    (x :: xs).foldlM f b = .ok b' ↔ ∃ next, f b x = .ok next ∧ xs.foldlM f next = .ok b' := by
  rw [List.foldlM_cons, bind_eq_ok]

/-- A loop succeeds if every step does, where an invariant decides when a step succeeds. -/
theorem foldlM_ok_iff {f : β → α → Except ε β} (Inv : β → Prop) {P : α → Prop} {xs : List α}
    (step : ∀ b, ∀ x ∈ xs, Inv b → ((∃ next, f b x = .ok next) ↔ P x))
    (keeps : ∀ b, ∀ x ∈ xs, ∀ next, Inv b → f b x = .ok next → Inv next) {b : β} (start : Inv b) :
    (∃ b', xs.foldlM f b = .ok b') ↔ ∀ x ∈ xs, P x := by
  induction xs generalizing b with
  | nil => exact ⟨fun _ => by simp, fun _ => ⟨b, rfl⟩⟩
  | cons x xs ih =>
      have ih' := fun {b} => ih (b := b) (fun b y mem => step b y (by simp [mem]))
        fun b y mem => keeps b y (by simp [mem])
      rw [List.forall_mem_cons]
      constructor
      · rintro ⟨b', done⟩
        obtain ⟨next, first, rest⟩ := foldlM_cons_ok.mp done
        exact ⟨(step b x (by simp) start).mp ⟨next, first⟩,
          (ih' (keeps b x (by simp) next start first)).mp ⟨b', rest⟩⟩
      · rintro ⟨first, others⟩
        obtain ⟨next, first⟩ := (step b x (by simp) start).mpr first
        obtain ⟨b', rest⟩ := (ih' (keeps b x (by simp) next start first)).mpr others
        exact ⟨b', foldlM_cons_ok.mpr ⟨next, first, rest⟩⟩

theorem mapM_ok {f : α → Except ε β} {g : α → β} {xs : List α}
    (ok : ∀ x ∈ xs, f x = .ok (g x)) : xs.mapM f = .ok (xs.map g) := by
  induction xs with
  | nil => rfl
  | cons x xs ih =>
      rw [List.mapM_cons, ok x (by simp), ih fun y mem => ok y (by simp [mem])]
      rfl

theorem foldlM_ok {f : β → α → Except ε β} {g : β → α → β} {xs : List α}
    (init : β) (ok : ∀ acc, ∀ x ∈ xs, f acc x = .ok (g acc x)) :
    xs.foldlM f init = .ok (xs.foldl g init) := by
  induction xs generalizing init with
  | nil => rfl
  | cons x xs ih =>
      rw [List.foldlM_cons, ok init x (by simp)]
      exact ih _ fun acc y mem => ok acc y (by simp [mem])

theorem filterAuxM_ok {f : α → Except ε Bool} {p : α → Bool} {xs : List α}
    (ok : ∀ x ∈ xs, f x = .ok (p x)) (acc : List α) :
    List.filterAuxM f xs acc = .ok ((xs.filter p).reverse ++ acc) := by
  induction xs generalizing acc with
  | nil => rfl
  | cons x xs ih =>
      have rest := ih fun y mem => ok y (by simp [mem])
      rw [List.filterAuxM, ok x (by simp)]
      show List.filterAuxM f xs (cond (p x) (x :: acc) acc) = _
      rw [rest, List.filter_cons]
      cases p x <;> simp

theorem filterM_ok {f : α → Except ε Bool} {p : α → Bool} {xs : List α}
    (ok : ∀ x ∈ xs, f x = .ok (p x)) : xs.filterM f = .ok (xs.filter p) := by
  rw [List.filterM, filterAuxM_ok ok]
  show Except.ok ((xs.filter p).reverse ++ []).reverse = _
  rw [List.append_nil, List.reverse_reverse]

/-- A list that is filtered has been looked at as a whole. -/
theorem exists_ok_of_filterM {f : α → Except ε Bool} {xs ys : List α}
    (filtered : xs.filterM f = .ok ys) : ∀ x ∈ xs, ∃ b, f x = .ok b := by
  obtain ⟨kept, done, -⟩ := bind_eq_ok.mp filtered
  clear filtered
  generalize [] = acc at done
  induction xs generalizing acc with
  | nil => simp
  | cons x xs ih =>
      obtain ⟨b, first, rest⟩ := bind_eq_ok.mp done
      exact List.forall_mem_cons.mpr ⟨⟨b, first⟩, ih _ rest⟩

theorem mapM_some {f : α → Option β} {g : α → β} {xs : List α}
    (each : ∀ x ∈ xs, f x = some (g x)) : xs.mapM f = some (xs.map g) := by
  induction xs with
  | nil => rfl
  | cons x xs ih =>
      rw [List.mapM_cons, each x (by simp), ih fun y mem => each y (by simp [mem])]
      rfl

theorem mapM_eq_ok_iff {f : α → Except ε β} {xs : List α} {ys : List β} :
    xs.mapM f = .ok ys ↔ xs.map f = ys.map .ok := by
  induction xs generalizing ys with
  | nil => cases ys <;> simp [pure, Except.pure]
  | cons x xs ih =>
      rw [List.mapM_cons, bind_eq_ok]
      cases ys with
      | nil =>
          refine iff_of_false ?_ (by simp)
          rintro ⟨y, -, rest⟩
          obtain ⟨ys, -, same⟩ := bind_eq_ok.mp rest
          cases same
      | cons y ys =>
          rw [List.map_cons, List.map_cons, List.cons.injEq, ← ih]
          constructor
          · rintro ⟨y', first, rest⟩
            obtain ⟨ys', others, same⟩ := bind_eq_ok.mp rest
            cases same
            exact ⟨first, others⟩
          · rintro ⟨first, others⟩
            exact ⟨y, first, bind_eq_ok.mpr ⟨ys, others, rfl⟩⟩

theorem mapM_eq_some_iff {f : α → Option β} {xs : List α} {ys : List β} :
    xs.mapM f = some ys ↔ xs.map f = ys.map some := by
  induction xs generalizing ys with
  | nil => cases ys <;> simp
  | cons x xs ih =>
      rw [List.mapM_cons]
      cases ys with
      | nil => cases f x <;> cases xs.mapM f <;> simp
      | cons y ys =>
          rw [List.map_cons, List.map_cons, List.cons.injEq, ← ih]
          cases f x <;> cases xs.mapM f <;> simp

end Fallible
