import Mathlib.Data.List.Forall2

/-!
# Checks in a row

Computations that stop at the first error: what it takes for one, and for the same one on every element of a
list, to succeed, and where an error comes from. A program on arrays stops at the first access outside of one.
-/

namespace Checked

variable {ε α β : Type}

/-! ### What ends a program on arrays -/

/-- The program gives up, a check fails that only some builds make, an access is outside of an array, or a loop
does not end. -/
inductive MemoryFault where
  | croak
  | check
  | overrun
  | stuck
deriving DecidableEq

/-- An access to an array. -/
def inBounds : Option α → Except MemoryFault α
  | some a => .ok a
  | none => .error .overrun

/-- A check that is only made in some builds. -/
def check (checks : Bool) (condition : Prop) [Decidable condition] : Except MemoryFault Unit :=
  if checks = true ∧ ¬condition then .error .check else .ok ()

theorem ok_bind (a : α) (f : α → Except ε β) : ((Except.ok a : Except ε α) >>= f) = f a := rfl

theorem inBounds_some (a : α) : inBounds (some a) = .ok a := rfl

theorem check_pos {checks : Bool} {condition : Prop} [Decidable condition] (h : condition) :
    check checks condition = .ok () :=
  if_neg fun hboth => hboth.2 h

theorem check_neg {checks : Bool} {condition : Prop} [Decidable condition] (h : ¬condition) :
    check checks condition = if checks then .error .check else .ok () := by
  cases checks with
  | false => rfl
  | true => exact if_pos ⟨rfl, h⟩

/-! ### Checks -/

theorem bind_eq_ok {x : Except ε α} {f : α → Except ε β} {b : β} :
    (x >>= f) = .ok b ↔ ∃ a, x = .ok a ∧ f a = .ok b := by
  cases x <;> simp [bind, Except.bind]

theorem bind_eq_error {x : Except ε α} {f : α → Except ε β} {e : ε} :
    (x >>= f) = .error e ↔ x = .error e ∨ ∃ a, x = .ok a ∧ f a = .error e := by
  cases x <;> simp [bind, Except.bind]

theorem toOption_eq_some {x : Except ε α} {a : α} : x.toOption = some a ↔ x = .ok a := by
  cases x <;> simp [Except.toOption]

/-- A computation succeeds on a whole list exactly when it does on every element. -/
theorem mapM_eq_ok {f : α → Except ε β} {xs : List α} {ys : List β} :
    xs.mapM f = .ok ys ↔ List.Forall₂ (fun x y => f x = .ok y) xs ys := by
  induction xs generalizing ys with
  | nil => simp [pure, Except.pure, eq_comm]
  | cons x xs ih =>
      rw [List.mapM_cons, bind_eq_ok]
      simp only [bind_eq_ok, ih, pure, Except.pure, Except.ok.injEq, List.forall₂_cons_left_iff]
      constructor
      · rintro ⟨y, hy, rest, hrest, rfl⟩
        exact ⟨y, rest, hy, hrest, rfl⟩
      · rintro ⟨y, rest, hy, hrest, rfl⟩
        exact ⟨y, hy, rest, hrest, rfl⟩

/-- The error of a computation on a list is its error on one of the elements. -/
theorem mem_of_mapM_eq_error {f : α → Except ε β} {xs : List α} {e : ε} (h : xs.mapM f = .error e) :
    ∃ x ∈ xs, f x = .error e := by
  induction xs with
  | nil => cases h
  | cons x xs ih =>
      rw [List.mapM_cons, bind_eq_error] at h
      rcases h with h | ⟨y, -, h⟩
      · exact ⟨x, List.mem_cons_self, h⟩
      · rw [bind_eq_error] at h
        rcases h with h | ⟨ys, -, h⟩
        · obtain ⟨z, hz, herror⟩ := ih h
          exact ⟨z, List.mem_cons_of_mem _ hz, herror⟩
        · cases h

theorem map_eq_map {γ : Type} {R : α → β → Prop} {f : α → γ} {g : β → γ} {xs : List α} {ys : List β}
    (h : List.Forall₂ R xs ys) (hR : ∀ x ∈ xs, ∀ y, R x y → f x = g y) : xs.map f = ys.map g := by
  induction h with
  | nil => rfl
  | cons hxy _ ih =>
      rw [List.map_cons, List.map_cons, hR _ List.mem_cons_self _ hxy, ih fun x hx => hR x (List.mem_cons_of_mem _ hx)]

theorem exists_of_forall₂ {R : α → β → Prop} {xs : List α} {ys : List β} (h : List.Forall₂ R xs ys) {y : β}
    (hy : y ∈ ys) :
    ∃ x ∈ xs, R x y := by
  induction h with
  | nil => cases hy
  | cons hxy _ ih =>
      rcases List.mem_cons.mp hy with rfl | hy
      · exact ⟨_, List.mem_cons_self, hxy⟩
      · obtain ⟨x, hx, hR⟩ := ih hy
        exact ⟨x, List.mem_cons_of_mem _ hx, hR⟩

theorem getElem?_of_forall₂ {R : α → β → Prop} {xs : List α} {ys : List β} (h : List.Forall₂ R xs ys) {i : Nat}
    {x : α} (hx : xs[i]? = some x) :
    ∃ y, ys[i]? = some y ∧ R x y := by
  induction h generalizing i with
  | nil => cases hx
  | cons hxy _ ih =>
      cases i with
      | zero => exact ⟨_, rfl, Option.some.inj hx ▸ hxy⟩
      | succ i => exact ih hx

theorem not_exists_none {P : α → Prop} : ¬∃ a, (none : Option α) = some a ∧ P a := by
  rintro ⟨a, h, -⟩
  cases h

theorem exists_some_iff {P : α → Prop} {b : α} : (∃ a, some b = some a ∧ P a) ↔ P b := by simp

theorem forall_none {P : α → Prop} : ∀ a, (none : Option α) = some a → P a := by
  intro a h
  cases h

theorem forall_some_iff {P : α → Prop} {b : α} : (∀ a, some b = some a → P a) ↔ P b := by simp

/-- Whether a value is there and has a property. -/
instance decidableExistsSome {P : α → Prop} [DecidablePred P] : (x : Option α) → Decidable (∃ a, x = some a ∧ P a)
  | none => .isFalse not_exists_none
  | some b => decidable_of_iff' (P b) exists_some_iff

/-- Whether a value has a property if it is there. -/
instance decidableForallSome {P : α → Prop} [DecidablePred P] : (x : Option α) → Decidable (∀ a, x = some a → P a)
  | none => .isTrue forall_none
  | some b => decidable_of_iff' (P b) forall_some_iff

/-- A computation whose errors are all of one kind. -/
def Raises (E : ε → Prop) (x : Except ε α) : Prop := ∀ e, x = .error e → E e

namespace Raises

variable {E : ε → Prop}

theorem ok (a : α) : Raises E (.ok a : Except ε α) := by
  intro e h
  cases h

theorem error {e : ε} (h : E e) : Raises E (.error e : Except ε α) := by
  intro e' h'
  exact Except.error.inj h' ▸ h

theorem bind {x : Except ε α} {f : α → Except ε β} (hx : Raises E x) (hf : ∀ a, x = .ok a → Raises E (f a)) :
    Raises E (x >>= f) := by
  intro e h
  rcases bind_eq_error.mp h with h | ⟨a, ha, h⟩
  · exact hx e h
  · exact hf a ha e h

theorem mapM {f : α → Except ε β} {xs : List α} (h : ∀ x ∈ xs, Raises E (f x)) : Raises E (xs.mapM f) := by
  intro e he
  obtain ⟨x, hx, herror⟩ := mem_of_mapM_eq_error he
  exact h x hx e herror

theorem ite {p : Prop} [Decidable p] {x y : Except ε α} (hx : p → Raises E x) (hy : ¬p → Raises E y) :
    Raises E (if p then x else y) := by
  split_ifs with h
  · exact hx h
  · exact hy h

end Raises

end Checked
