import Tundra.Lib.Outcome

/-!
# Triples

Computations with a state and with fuel, and triples for them: if the precondition holds and the computation
succeeds, the postcondition holds of its result and of the state it leaves.

A computation may lose what is to be proved of it and go on. Triples up to a loss are for this: each step either
keeps to its postcondition or runs into the loss, and no later step makes up for it.
-/

/-- A computation with a state. What it leaves behind is lost when it does not succeed. -/
abbrev Stateful (ε σ α : Type) := StateT σ (Outcome ε) α

namespace Stateful

variable {ε σ α β : Type}

def fail (e : ε) : Stateful ε σ α := fun _ => .error e

def exhaust : Stateful ε σ α := fun _ => .outOfFuel

theorem of_bind {m : Stateful ε σ α} {f : α → Stateful ε σ β} {s s'' : σ} {b : β} (hrun : (m >>= f) s = .ok (b, s'')) :
    ∃ a s', m s = .ok (a, s') ∧ f a s' = .ok (b, s'') := by
  obtain ⟨⟨a, s'⟩, ha, hb⟩ := Outcome.bind_eq_ok.mp hrun
  exact ⟨a, s', ha, hb⟩

def Triple (P : σ → Prop) (m : Stateful ε σ α) (Q : α → σ → Prop) : Prop := ∀ s a s', P s → m s = .ok (a, s') → Q a s'

variable {P P' : σ → Prop} {Q Q' : α → σ → Prop} {R : β → σ → Prop} {m : Stateful ε σ α} {f : α → Stateful ε σ β}

theorem Triple.pure {a : α} (h : ∀ s, P s → Q a s) : Triple P (Pure.pure a : Stateful ε σ α) Q := by
  intro s b s' hs hrun
  cases hrun
  exact h s hs

theorem Triple.bind (hm : Triple P m Q) (hf : ∀ a, Triple (Q a) (f a) R) : Triple P (m >>= f) R := by
  intro s b s'' hs hrun
  obtain ⟨a, s', ha, hb⟩ := of_bind hrun
  exact hf a s' b s'' (hm s a s' hs ha) hb

theorem Triple.fail (e : ε) : Triple P (fail e : Stateful ε σ α) Q := by
  intro s a s' _ hrun
  cases hrun

theorem Triple.conseq (h : Triple P m Q) (hP : ∀ s, P' s → P s) (hQ : ∀ a s, Q a s → Q' a s) : Triple P' m Q' :=
  fun s a s' hs hrun => hQ a s' (h s a s' (hP s hs) hrun)

/-- A computation that stays within a relation between the states before and after it. -/
def Along (R : σ → σ → Prop) (m : Stateful ε σ α) : Prop := ∀ s a s', m s = .ok (a, s') → R s s'

section Along

variable {R : σ → σ → Prop} (hrefl : ∀ s, R s s) (htrans : ∀ {s s' s''}, R s s' → R s' s'' → R s s'')

include hrefl in
theorem Along.pure (a : α) : Along R (Pure.pure a : Stateful ε σ α) := by
  intro s b s' hrun
  cases hrun
  exact hrefl s

include hrefl in
theorem Along.get : Along R (MonadState.get : Stateful ε σ σ) := by
  intro s a s' hrun
  cases hrun
  exact hrefl s

theorem Along.fail (e : ε) : Along R (Stateful.fail e : Stateful ε σ α) := by
  intro s a s' hrun
  cases hrun

theorem Along.exhaust : Along R (Stateful.exhaust : Stateful ε σ α) := by
  intro s a s' hrun
  cases hrun

theorem Along.modify {g : σ → σ} (h : ∀ s, R s (g s)) : Along R (modify g : Stateful ε σ PUnit) := by
  intro s a s' hrun
  cases hrun
  exact h s

include htrans in
theorem Along.bind (hm : Along R m) (hf : ∀ a, Along R (f a)) : Along R (m >>= f) := by
  intro s b s'' hrun
  obtain ⟨a, s', ha, hb⟩ := of_bind hrun
  exact htrans (hm s a s' ha) (hf a s' b s'' hb)

include hrefl htrans in
theorem Along.foldlM {g : β → α → Stateful ε σ β} (hg : ∀ b x, Along R (g b x)) (l : List α) (b : β) :
    Along R (l.foldlM g b) := by
  induction l generalizing b with
  | nil => exact Along.pure hrefl b
  | cons x l ih =>
      rw [List.foldlM_cons]
      exact Along.bind htrans (hg b x) fun b' => ih b'

include hrefl htrans in
theorem Along.mapM {g : α → Stateful ε σ β} (hg : ∀ x, Along R (g x)) (l : List α) : Along R (l.mapM g) := by
  induction l with
  | nil => exact Along.pure hrefl []
  | cons x l ih =>
      rw [List.mapM_cons]
      exact Along.bind htrans (hg x) fun y => Along.bind htrans ih fun ys => Along.pure hrefl _

end Along

/-! ### Triples up to a loss -/

/-- States in which something is lost, and the steps that do not bring it back. -/
structure Loss (σ : Type) where
  Loose : σ → σ → Prop
  Lost : σ → Prop
  refl : ∀ s, Loose s s
  trans : ∀ {s s' s''}, Loose s s' → Loose s' s'' → Loose s s''
  stable : ∀ {s s'}, Lost s → Loose s s' → Lost s'

/-- A triple whose postcondition may fail in a state where something is lost. -/
structure UpTo (L : Loss σ) (P : σ → Prop) (m : Stateful ε σ α) (Q : α → σ → Prop) : Prop where
  along : Along L.Loose m
  triple : Triple P m fun a s => L.Lost s ∨ Q a s

section UpTo

variable {L : Loss σ}

theorem UpTo.pure {a : α} (h : ∀ s, P s → Q a s) : UpTo L P (Pure.pure a : Stateful ε σ α) Q :=
  ⟨Along.pure L.refl a, Triple.pure fun s hs => .inr (h s hs)⟩

theorem UpTo.fail (e : ε) : UpTo L P (Stateful.fail e : Stateful ε σ α) Q := ⟨Along.fail e, Triple.fail e⟩

/-- If the first half runs into the loss, the second half stays there. -/
theorem UpTo.bind (hm : UpTo L P m Q) (hf : ∀ a, UpTo L (Q a) (f a) R) : UpTo L P (m >>= f) R := by
  refine ⟨Along.bind L.trans hm.along fun a => (hf a).along, ?_⟩
  intro s b s'' hs hrun
  obtain ⟨a, s', ha, hb⟩ := of_bind hrun
  rcases hm.triple s a s' hs ha with hlost | hQ
  · exact .inl (L.stable hlost ((hf a).along s' b s'' hb))
  · exact (hf a).triple s' b s'' hQ hb

/-- The same, where the second half needs a fact the first half ensures. -/
theorem UpTo.bind_of {Fact : α → Prop} (hm : UpTo L P m fun a s => Q a s ∧ Fact a) (hf : ∀ a, Along L.Loose (f a))
    (htriple : ∀ a, Fact a → Triple (Q a) (f a) fun b s => L.Lost s ∨ R b s) : UpTo L P (m >>= f) R := by
  refine ⟨Along.bind L.trans hm.along hf, ?_⟩
  intro s b s'' hs hrun
  obtain ⟨a, s', ha, hb⟩ := of_bind hrun
  rcases hm.triple s a s' hs ha with hlost | ⟨hQ, hfact⟩
  · exact .inl (L.stable hlost (hf a s' b s'' hb))
  · exact htriple a hfact s' b s'' hQ hb

theorem UpTo.conseq (h : UpTo L P m Q) (hP : ∀ s, P' s → P s) (hQ : ∀ a s, Q a s → Q' a s) : UpTo L P' m Q' :=
  ⟨h.along, h.triple.conseq hP fun a s => Or.imp_right (hQ a s)⟩

/-- A computation that stays within a relation that disturbs nothing. -/
theorem UpTo.of_along {R : σ → σ → Prop} (h : Along R m) (hloose : ∀ s s', R s s' → L.Loose s s')
    (hkeep : ∀ s s', P s → R s s' → P s') :
    UpTo L P m fun _ => P :=
  ⟨fun s a s' hrun => hloose s s' (h s a s' hrun), fun s a s' hs hrun => .inr (hkeep s s' hs (h s a s' hrun))⟩

/-- A loop over a list, with an invariant that knows what has been done. -/
theorem UpTo.foldlM {g : β → α → Stateful ε σ β} {l : List α} {I : List α → β → σ → Prop}
    (hstep : ∀ done x rest b, l = done ++ x :: rest → UpTo L (I done b) (g b x) (I (done ++ [x]))) (b : β) :
    UpTo L (I [] b) (l.foldlM g b) (I l) := by
  have hloop : ∀ rest done, l = done ++ rest → ∀ b, UpTo L (I done b) (rest.foldlM g b) (I l) := by
    intro rest
    induction rest with
    | nil =>
        intro done hl b
        refine UpTo.pure fun s hs => ?_
        rwa [hl, List.append_nil]
    | cons x rest ih =>
        intro done hl b
        rw [List.foldlM_cons]
        exact (hstep done x rest b hl).bind
          fun b' => ih (done ++ [x]) (by rw [hl, List.append_assoc, List.singleton_append]) b'
  exact hloop l [] rfl b

end UpTo

end Stateful
