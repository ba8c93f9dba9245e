import Mathlib.Data.Nat.Find
import Mathlib.Order.Basic

/-!
# Computations with fuel

The outcome of a computation that may fail and that may run out of fuel. More fuel only helps: the outcomes for
growing fuel form a chain that stays at what it first reaches, and what it reaches is the outcome of the
computation without a bound.
-/

/-- The outcome of a computation with fuel. -/
inductive Outcome (ε α : Type) where
  | ok (a : α)
  | error (e : ε)
  | outOfFuel
deriving DecidableEq

namespace Outcome

variable {ε α β : Type}

instance : Monad (Outcome ε) where
  pure := ok
  bind x f :=
    match x with
    | ok a => f a
    | error e => error e
    | outOfFuel => outOfFuel

@[simp] theorem pure_eq (a : α) : (pure a : Outcome ε α) = ok a := rfl

@[simp] theorem ok_bind (a : α) (f : α → Outcome ε β) : (ok a >>= f) = f a := rfl

@[simp] theorem error_bind (e : ε) (f : α → Outcome ε β) : (error e >>= f) = error e := rfl

@[simp] theorem outOfFuel_bind (f : α → Outcome ε β) : ((outOfFuel : Outcome ε α) >>= f) = outOfFuel := rfl

@[simp] theorem map_ok (f : α → β) (a : α) : f <$> (ok a : Outcome ε α) = ok (f a) := rfl

@[simp] theorem map_error (f : α → β) (e : ε) : f <$> (error e : Outcome ε α) = error e := rfl

@[simp] theorem map_outOfFuel (f : α → β) : f <$> (outOfFuel : Outcome ε α) = outOfFuel := rfl

theorem map_id (x : Outcome ε α) : id <$> x = x := by cases x <;> rfl

theorem bind_bind {γ : Type} (x : Outcome ε α) (f : α → Outcome ε β) (g : β → Outcome ε γ) :
    (x >>= f) >>= g = x >>= fun a => f a >>= g := by
  cases x <;> rfl

instance : LawfulMonad (Outcome ε) := LawfulMonad.mk' _ map_id (fun _ _ => rfl) bind_bind

theorem bind_eq_ok {x : Outcome ε α} {f : α → Outcome ε β} {b : β} : (x >>= f) = ok b ↔ ∃ a, x = ok a ∧ f a = ok b := by
  cases x <;> simp

theorem map_eq_ok {x : Outcome ε α} {f : α → β} {b : β} : f <$> x = ok b ↔ ∃ a, x = ok a ∧ f a = b := by
  cases x <;> simp

/-- Two computations whose first halves look the same, and whose second halves do so from values that look the same. -/
theorem map_bind_congr {α' β' γ δ : Type} {x : Outcome ε α} {y : Outcome ε α'} {p : α → γ} {q : α' → γ}
    {f : α → Outcome ε β} {g : α' → Outcome ε β'} {u : β → δ} {v : β' → δ} (hxy : p <$> x = q <$> y)
    (hfg : ∀ a b, p a = q b → u <$> f a = v <$> g b) :
    u <$> (x >>= f) = v <$> (y >>= g) := by
  cases x with
  | ok a =>
      cases y with
      | ok b => exact hfg a b (Outcome.ok.inj hxy)
      | error e => cases hxy
      | outOfFuel => cases hxy
  | error e =>
      cases y with
      | ok b => cases hxy
      | error e' => exact congrArg Outcome.error (Outcome.error.inj hxy)
      | outOfFuel => cases hxy
  | outOfFuel =>
      cases y with
      | ok b => cases hxy
      | error e => cases hxy
      | outOfFuel => rfl

/-! ### Better outcomes -/

/-- The second outcome is the first one, unless that one ran out of fuel or failed with an error that may be lost. -/
def Below (Lossy : ε → Prop) (x y : Outcome ε α) : Prop := x = y ∨ x = outOfFuel ∨ ∃ e, Lossy e ∧ x = error e

variable {Lossy : ε → Prop} {x y : Outcome ε α}

theorem Below.refl (x : Outcome ε α) : Below Lossy x x := .inl rfl

theorem Below.outOfFuel (y : Outcome ε α) : Below Lossy Outcome.outOfFuel y := .inr (.inl rfl)

theorem Below.error {e : ε} (he : Lossy e) (y : Outcome ε α) :
    Below Lossy (Outcome.error e) y := .inr (.inr ⟨e, he, rfl⟩)

theorem Below.bind {f g : α → Outcome ε β} (hxy : Below Lossy x y) (hfg : ∀ a, Below Lossy (f a) (g a)) :
    Below Lossy (x >>= f) (y >>= g) := by
  rcases hxy with rfl | rfl | ⟨e, he, rfl⟩
  · cases x with
    | ok a => exact hfg a
    | error e => exact .refl _
    | outOfFuel => exact .outOfFuel _
  · exact .outOfFuel _
  · exact .error he _

theorem Below.ok_eq {a : α} (h : Below Lossy (Outcome.ok a) y) : y = Outcome.ok a := by
  rcases h with rfl | h | ⟨e, -, h⟩
  · rfl
  · cases h
  · cases h

theorem Below.error_eq {e : ε} (h : Below Lossy (Outcome.error e) y) (he : ¬ Lossy e) : y = Outcome.error e := by
  rcases h with rfl | h | ⟨e', he', h⟩
  · rfl
  · cases h
  · cases h
    exact absurd he' he

/-! ### Chains -/

/-- The outcomes for growing fuel. -/
def Chain (f : Nat → Outcome ε α) : Prop := ∀ n, Below (fun _ => False) (f n) (f (n + 1))

variable {f : Nat → Outcome ε α}

theorem Below.eq_of_ne (h : Below (fun _ => False) x y) (hx : x ≠ Outcome.outOfFuel) : y = x := by
  rcases h with rfl | h | ⟨e, he, -⟩
  · rfl
  · exact absurd h hx
  · exact he.elim

theorem Chain.eq_of_le (hf : Chain f) {n m : Nat} (hn : f n ≠ outOfFuel) (hnm : n ≤ m) : f m = f n := by
  induction hnm with
  | refl => rfl
  | step _ ih => rw [(hf _).eq_of_ne (by rwa [ih]), ih]

open Classical in
noncomputable def limit (f : Nat → Outcome ε α) :
    Outcome ε α := if h : ∃ n, f n ≠ outOfFuel then f (Nat.find h) else outOfFuel

theorem limit_ne_iff : limit f ≠ outOfFuel ↔ ∃ n, f n ≠ outOfFuel := by
  classical
  rw [limit]
  split_ifs with h
  · exact iff_of_true (Nat.find_spec h) h
  · exact iff_of_false (fun hne => hne rfl) h

theorem limit_eq (hf : Chain f) {n : Nat} (hn : f n ≠ outOfFuel) : limit f = f n := by
  classical
  have h : ∃ n, f n ≠ outOfFuel := ⟨n, hn⟩
  rw [limit, dif_pos h]
  exact (hf.eq_of_le (Nat.find_spec h) (Nat.find_min' h hn)).symm

theorem limit_eq_iff (hf : Chain f) (hx : x ≠ outOfFuel) : limit f = x ↔ ∃ n, f n = x := by
  constructor
  · rintro rfl
    obtain ⟨n, hn⟩ := limit_ne_iff.mp hx
    exact ⟨n, (limit_eq hf hn).symm⟩
  · rintro ⟨n, rfl⟩
    exact limit_eq hf hx

/-- Nothing is reached by a chain that never gets anywhere. -/
theorem limit_eq_outOfFuel (h : ∀ n, f n = outOfFuel) : limit f = outOfFuel := by
  by_contra hne
  obtain ⟨n, hn⟩ := limit_ne_iff.mp hne
  exact hn (h n)

@[simp] theorem limit_const (x : Outcome ε α) : limit (fun _ => x) = x := by
  by_cases hx : x = outOfFuel
  · subst hx
    exact limit_eq_outOfFuel fun _ => rfl
  · exact limit_eq (fun _ => .refl x) (n := 0) hx

theorem Chain.succ (hf : Chain f) : Chain fun n => f (n + 1) := fun n => hf (n + 1)

theorem limit_succ (hf : Chain f) : limit (fun n => f (n + 1)) = limit f := by
  by_cases hx : limit (fun n => f (n + 1)) = outOfFuel
  · rw [hx]
    refine (limit_eq_outOfFuel fun n => ?_).symm
    by_contra hn
    exact limit_ne_iff.mpr ⟨n, by rwa [hf.eq_of_le hn (Nat.le_succ n)]⟩ hx
  · obtain ⟨n, hn⟩ := limit_ne_iff.mp hx
    rw [limit_eq hf.succ hn, limit_eq hf hn]

theorem Chain.bind {g : Nat → α → Outcome ε β} (hf : Chain f) (hg : ∀ a, Chain fun n => g n a) :
    Chain fun n => f n >>= g n :=
  fun n => (hf n).bind fun a => hg a n

/-- Two computations in a row reach what the second one reaches from what the first one does. -/
theorem limit_bind {g : Nat → α → Outcome ε β} (hf : Chain f) (hg : ∀ a, Chain fun n => g n a) :
    limit (fun n => f n >>= g n) = limit f >>= fun a => limit fun n => g n a := by
  by_cases hx : limit f = outOfFuel
  · rw [hx, outOfFuel_bind]
    refine limit_eq_outOfFuel fun n => ?_
    have hn : f n = outOfFuel := by
      by_contra hn
      exact limit_ne_iff.mpr ⟨n, hn⟩ hx
    rw [hn, outOfFuel_bind]
  · obtain ⟨n, hn⟩ := limit_ne_iff.mp hx
    rw [limit_eq hf hn]
    cases hfn : f n with
    | outOfFuel => exact absurd hfn hn
    | error e =>
        rw [error_bind, limit_eq (hf.bind hg) (n := n) (by simp [hfn]), hfn, error_bind]
    | ok a =>
        rw [ok_bind]
        by_cases hy : limit (fun n => g n a) = outOfFuel
        · rw [hy]
          refine limit_eq_outOfFuel fun m => ?_
          have hm : g m a = outOfFuel := by
            by_contra hm
            exact limit_ne_iff.mpr ⟨m, hm⟩ hy
          by_cases hfm : f m = outOfFuel
          · rw [hfm, outOfFuel_bind]
          · rw [← limit_eq hf hfm, limit_eq hf hn, hfn, ok_bind, hm]
        · obtain ⟨m, hm⟩ := limit_ne_iff.mp hy
          have hboth : f (max n m) >>= g (max n m) = g m a := by
            rw [hf.eq_of_le hn (le_max_left n m), hfn, ok_bind]
            exact (hg a).eq_of_le hm (le_max_right n m)
          rw [limit_eq (hf.bind hg) (n := max n m) (by rwa [hboth]), hboth, limit_eq (hg a) hm]

/-- What holds of the outcomes for all fuel holds of what is reached. -/
theorem limit_below {g : Nat → Outcome ε α} (hf : Chain f) (hg : Chain g) (hfg : ∀ n, Below Lossy (f n) (g n)) :
    Below Lossy (limit f) (limit g) := by
  by_cases hx : limit f = outOfFuel
  · rw [hx]
    exact .outOfFuel _
  · obtain ⟨n, hn⟩ := limit_ne_iff.mp hx
    rw [limit_eq hf hn]
    rcases hfg n with heq | heq | ⟨e, he, heq⟩
    · rw [heq, limit_eq hg (by rwa [← heq])]
      exact .refl _
    · exact absurd heq hn
    · rw [heq]
      exact .error he _

end Outcome
