import Mathlib.Algebra.Order.BigOperators.Group.Finset
import Mathlib.Data.List.Basic
import Mathlib.Data.Finset.Card
import Mathlib.Logic.Relation

/-!
# Searches that leave marks

Two searches of a finite graph that mark the elements they have been to. The recursive one follows the edges of
an element as soon as it has marked it. The other one takes elements from a stack, passes over those that have a
mark and stacks the successors of the rest. Both go to the elements that can be reached, and to each of them
once.
-/

namespace Marking

variable {σ α τ : Type}

/-- Marks on elements: whether an element has one, and how to leave one. -/
structure Marks (σ α : Type) where
  test : σ → α → Bool
  mark : σ → α → σ

/-- On the elements of `univ` a mark is left where it is put and nowhere else. -/
structure Marks.Lawful (m : Marks σ α) (univ : Finset α) : Prop where
  test_mark : ∀ s, ∀ a ∈ univ, ∀ b, m.test (m.mark s a) b = true ↔ b = a ∨ m.test s b = true

def Reachable (next : α → List α) : α → α → Prop := Relation.ReflTransGen fun a b => b ∈ next a

variable (m : Marks σ α) (next : α → List α)

/-- The recursive search, with a bound on its depth. -/
def Marks.reach : Nat → σ → α → Option σ
  | 0, _, _ => none
  | fuel + 1, s, a => if m.test s a then some s else (next a).foldlM (Marks.reach fuel) (m.mark s a)

/-- The search with a stack, its top first and with a bound on the number of steps; `visit` sees each element
when it gets its mark. -/
def Marks.walk (visit : τ → α → τ) : Nat → σ → List α → τ → Option τ
  | 0, _, _, _ => none
  | _ + 1, _, [], t => some t
  | fuel + 1, s, a :: stack, t =>
      if m.test s a then Marks.walk visit fuel s stack t
      else Marks.walk visit fuel (m.mark s a) ((next a).reverse ++ stack) (visit t a)

/-! ### The recursive search -/

/-- What a search from `roots` does to the marks: it leaves one on each root, only on elements that can be
reached, and on all successors of an element it has marked. -/
structure Explored (s : σ) (roots : List α) (s' : σ) : Prop where
  mono : ∀ a, m.test s a = true → m.test s' a = true
  covered : ∀ a ∈ roots, m.test s' a = true
  sound : ∀ a, m.test s' a = true → m.test s a = true ∨ ∃ root ∈ roots, Reachable next root a
  closed : ∀ a, m.test s' a = true → m.test s a = true ∨ ∀ b ∈ next a, m.test s' b = true

variable {m next} {univ : Finset α} {s s' s'' : σ} {roots : List α} {a : α}

theorem Explored.nil : Explored m next s [] s where
  mono _ h := h
  covered _ h := by cases h
  sound _ h := .inl h
  closed _ h := .inl h

theorem Explored.marked (h : m.test s a = true) : Explored m next s [a] s where
  mono _ hb := hb
  covered _ hb := List.mem_singleton.mp hb ▸ h
  sound _ hb := .inl hb
  closed _ hb := .inl hb

theorem Explored.cons (hhead : Explored m next s [a] s') (htail : Explored m next s' roots s'') :
    Explored m next s (a :: roots) s'' where
  mono b hb := htail.mono b (hhead.mono b hb)
  covered b hb := by
    rcases List.mem_cons.mp hb with rfl | hb
    · exact htail.mono b (hhead.covered b (List.mem_singleton_self b))
    · exact htail.covered b hb
  sound b hb := by
    rcases htail.sound b hb with hb | ⟨root, hroot, hreach⟩
    · refine (hhead.sound b hb).imp_right fun ⟨root, hroot, hreach⟩ => ⟨root, ?_, hreach⟩
      rw [List.mem_singleton.mp hroot]
      exact List.mem_cons_self
    · exact .inr ⟨root, List.mem_cons_of_mem _ hroot, hreach⟩
  closed b hb := by
    rcases htail.closed b hb with hb | hb
    · exact (hhead.closed b hb).imp_right fun hnext c hc => htail.mono c (hnext c hc)
    · exact .inr hb

/-- The successors of an element that has just been marked have been searched. -/
theorem Explored.step (hm : m.Lawful univ) (ha : a ∈ univ) (h : Explored m next (m.mark s a) (next a) s') :
    Explored m next s [a] s' where
  mono b hb := h.mono b ((hm.test_mark s a ha b).mpr (.inr hb))
  covered b hb := by
    rw [List.mem_singleton.mp hb]
    exact h.mono a ((hm.test_mark s a ha a).mpr (.inl rfl))
  sound b hb := by
    rcases h.sound b hb with hb | ⟨c, hc, hreach⟩
    · refine ((hm.test_mark s a ha b).mp hb).symm.imp_right fun hba => ⟨a, List.mem_singleton_self a, ?_⟩
      rw [hba]
      exact .refl
    · exact .inr ⟨a, List.mem_singleton_self a, .head hc hreach⟩
  closed b hb := by
    rcases h.closed b hb with hb | hb
    · refine ((hm.test_mark s a ha b).mp hb).symm.imp_right fun hba => ?_
      rw [hba]
      exact h.covered
    · exact .inr hb

/-- The search of a list finds what its elements lead to, when nothing had a mark. -/
theorem Explored.exact (hempty : ∀ a, m.test s a = false) (h : Explored m next s roots s') (a : α) :
    m.test s' a = true ↔ ∃ root ∈ roots, Reachable next root a := by
  have hold : ∀ {b}, ¬ m.test s b = true := fun {b} => by simp [hempty b]
  constructor
  · intro ha
    exact (h.sound a ha).resolve_left hold
  · rintro ⟨root, hroot, hreach⟩
    induction hreach with
    | refl => exact h.covered root hroot
    | tail _ hedge ih => exact (h.closed _ ih).resolve_left hold _ hedge

def Marks.unmarked (m : Marks σ α) (univ : Finset α) (s : σ) : Finset α := univ.filter fun a => m.test s a = false

theorem Explored.unmarked_subset (h : Explored m next s roots s') : m.unmarked univ s' ⊆ m.unmarked univ s := by
  intro b hb
  rw [Marks.unmarked, Finset.mem_filter] at hb ⊢
  refine ⟨hb.1, Bool.eq_false_iff.mpr fun hmark => ?_⟩
  rw [h.mono b hmark] at hb
  exact absurd hb.2 (by decide)

theorem unmarked_mark (hm : m.Lawful univ) (ha : a ∈ univ) : m.unmarked univ (m.mark s a) ⊆ m.unmarked univ s := by
  intro b hb
  rw [Marks.unmarked, Finset.mem_filter] at hb ⊢
  refine ⟨hb.1, Bool.eq_false_iff.mpr fun hmark => ?_⟩
  rw [(hm.test_mark s a ha b).mpr (.inr hmark)] at hb
  exact absurd hb.2 (by decide)

theorem not_mem_unmarked_mark (hm : m.Lawful univ) (ha : a ∈ univ) : a ∉ m.unmarked univ (m.mark s a) := by
  intro hmem
  rw [Marks.unmarked, Finset.mem_filter, (hm.test_mark s a ha a).mpr (.inl rfl)] at hmem
  exact absurd hmem.2 (by decide)

theorem mem_unmarked (ha : a ∈ univ) (htest : m.test s a = false) :
    a ∈ m.unmarked univ s := Finset.mem_filter.mpr ⟨ha, htest⟩

theorem card_unmarked_mark (hm : m.Lawful univ) (ha : a ∈ univ) (htest : m.test s a = false) :
    (m.unmarked univ (m.mark s a)).card < (m.unmarked univ s).card := by
  refine Finset.card_lt_card ⟨unmarked_mark hm ha, fun hsub => ?_⟩
  exact not_mem_unmarked_mark hm ha (hsub (mem_unmarked ha htest))

/-- A search that works from each element works from a list. -/
theorem foldlM_explored {search : σ → α → Option σ} {bound : Nat}
    (hsearch : ∀ s, ∀ a ∈ univ, (m.unmarked univ s).card < bound → ∃ s', search s a = some s' ∧
    Explored m next s [a] s') :
    ∀ (roots : List α) (s : σ), (∀ a ∈ roots, a ∈ univ) → (m.unmarked univ s).card < bound →
      ∃ s', roots.foldlM search s = some s' ∧ Explored m next s roots s'
  | [], s, _, _ => ⟨s, rfl, .nil⟩
  | a :: roots, s, huniv, hbound => by
      obtain ⟨s', hs', hhead⟩ := hsearch s a (huniv a List.mem_cons_self) hbound
      have hless : (m.unmarked univ s').card < bound :=
        lt_of_le_of_lt (Finset.card_le_card hhead.unmarked_subset) hbound
      obtain ⟨s'', hs'', htail⟩ :=
        foldlM_explored hsearch roots s' (fun b hb => huniv b (List.mem_cons_of_mem _ hb)) hless
      refine ⟨s'', ?_, hhead.cons htail⟩
      rw [List.foldlM_cons, hs']
      exact hs''

/-- With a depth above the number of elements without a mark, the recursive search ends. -/
theorem reach_spec (hm : m.Lawful univ) (hnext : ∀ a ∈ univ, ∀ b ∈ next a, b ∈ univ) (fuel : Nat) :
    ∀ s, ∀ a ∈ univ, (m.unmarked univ s).card < fuel → ∃ s', m.reach next fuel s a = some s' ∧ Explored m next s
    [a] s' := by
  induction fuel with
  | zero =>
      intro s a _ hfuel
      exact absurd hfuel (Nat.not_lt_zero _)
  | succ fuel ih =>
      intro s a ha hfuel
      rw [Marks.reach]
      cases htest : m.test s a with
      | true => exact ⟨s, rfl, .marked htest⟩
      | false =>
          have hless := card_unmarked_mark hm ha htest
          obtain ⟨s', hs', h⟩ := foldlM_explored ih (next a) (m.mark s a) (hnext a ha) (by omega)
          exact ⟨s', hs', .step hm ha h⟩

theorem reach_list_spec (hm : m.Lawful univ) (hnext : ∀ a ∈ univ, ∀ b ∈ next a, b ∈ univ)
    (hroots : ∀ a ∈ roots, a ∈ univ) {fuel : Nat} (hfuel : univ.card < fuel) :
    ∃ s', roots.foldlM (m.reach next fuel) s = some s' ∧ Explored m next s roots s' :=
  foldlM_explored (reach_spec hm hnext fuel) roots s hroots (lt_of_le_of_lt (Finset.card_filter_le _ _) hfuel)

/-! ### The search with a stack -/

/-- What the search keeps: the marked elements are those it has seen, each of them once, and what it has seen
leads only to what it has seen or stacked. -/
structure Walked (m : Marks σ α) (next : α → List α) (roots : List α) (s : σ) (stack seen : List α) : Prop where
  marks : ∀ a, m.test s a = true ↔ a ∈ seen
  nodup : seen.Nodup
  sound : ∀ a, a ∈ seen ∨ a ∈ stack → ∃ root ∈ roots, Reachable next root a
  covered : ∀ a ∈ roots, a ∈ seen ∨ a ∈ stack
  closed : ∀ a ∈ seen, ∀ b ∈ next a, b ∈ seen ∨ b ∈ stack

theorem Walked.start (hempty : ∀ a, m.test s a = false) (hroots : ∀ a, a ∈ roots ↔ a ∈ stack) :
    Walked m next roots s stack [] where
  marks a := by simp [hempty a]
  nodup := List.nodup_nil
  sound a ha := by
    rcases ha with ha | ha
    · cases ha
    · exact ⟨a, (hroots a).mpr ha, .refl⟩
  covered a ha := .inr ((hroots a).mp ha)
  closed a ha := by cases ha

variable {stack seen : List α}

theorem Walked.pass (h : Walked m next roots s (a :: stack) seen) (htest : m.test s a = true) :
    Walked m next roots s stack seen := by
  have hdrop : ∀ {b}, b ∈ seen ∨ b ∈ a :: stack → b ∈ seen ∨ b ∈ stack := by
    intro b hb
    rcases hb with hb | hb
    · exact .inl hb
    · rcases List.mem_cons.mp hb with rfl | hb
      · exact .inl ((h.marks b).mp htest)
      · exact .inr hb
  exact ⟨h.marks, h.nodup, fun b hb => h.sound b (hb.imp_right (List.mem_cons_of_mem a)),
    fun b hb => hdrop (h.covered b hb),
    fun b hb c hc => hdrop (h.closed b hb c hc)⟩

/-- An element without a mark gets one, and its successors are stacked. -/
theorem Walked.visit (hm : m.Lawful univ) (ha : a ∈ univ) (h : Walked m next roots s (a :: stack) seen)
    (htest : m.test s a = false) :
    Walked m next roots (m.mark s a) ((next a).reverse ++ stack) (seen ++ [a]) := by
  have hnew : a ∉ seen := fun hmem => by simp [(h.marks a).mpr hmem] at htest
  have hkeep : ∀ {b}, b ∈ seen ∨ b ∈ a :: stack → b ∈ seen ++ [a] ∨ b ∈ (next a).reverse ++ stack := by
    intro b hb
    rcases hb with hb | hb
    · exact .inl (List.mem_append_left _ hb)
    · rcases List.mem_cons.mp hb with rfl | hb
      · exact .inl (List.mem_append_right _ (List.mem_singleton_self b))
      · exact .inr (List.mem_append_right _ hb)
  refine ⟨?_, ?_, ?_, fun b hb => hkeep (h.covered b hb), ?_⟩
  · intro b
    rw [hm.test_mark s a ha b, h.marks b, List.mem_append, List.mem_singleton, or_comm]
  · refine h.nodup.append (List.nodup_singleton a) fun b hb hba => hnew ?_
    rw [← List.mem_singleton.mp hba]
    exact hb
  · obtain ⟨root, hroot, hreach⟩ := h.sound a (.inr List.mem_cons_self)
    intro b hb
    rcases hb with hb | hb
    · rcases List.mem_append.mp hb with hb | hb
      · exact h.sound b (.inl hb)
      · rw [List.mem_singleton.mp hb]
        exact ⟨root, hroot, hreach⟩
    · rcases List.mem_append.mp hb with hb | hb
      · exact ⟨root, hroot, hreach.tail (List.mem_reverse.mp hb)⟩
      · exact h.sound b (.inr (List.mem_cons_of_mem a hb))
  · intro b hb c hc
    rcases List.mem_append.mp hb with hb | hb
    · exact hkeep (h.closed b hb c hc)
    · rw [List.mem_singleton.mp hb] at hc
      exact .inr (List.mem_append_left _ (List.mem_reverse.mpr hc))

/-- When the stack is empty, the search has seen exactly what can be reached. -/
theorem Walked.done (h : Walked m next roots s [] seen) (a : α) : a ∈ seen ↔ ∃ root ∈ roots, Reachable next root a := by
  have hstack : ∀ {b}, b ∈ seen ∨ b ∈ [] → b ∈ seen := fun hb => hb.resolve_right List.not_mem_nil
  constructor
  · intro ha
    exact h.sound a (.inl ha)
  · rintro ⟨root, hroot, hreach⟩
    induction hreach with
    | refl => exact hstack (h.covered root hroot)
    | tail _ hedge ih => exact hstack (h.closed _ ih _ hedge)

/-- The number of edges still to be followed. -/
def Marks.pending (m : Marks σ α) (next : α → List α) (univ : Finset α) (s : σ) :
    Nat := ∑ a ∈ m.unmarked univ s, (next a).length

theorem pending_mark (hm : m.Lawful univ) (ha : a ∈ univ) (htest : m.test s a = false) :
    m.pending next univ (m.mark s a) + (next a).length ≤ m.pending next univ s := by
  classical
  have hsub : insert a (m.unmarked univ (m.mark s a)) ⊆ m.unmarked univ s :=
    Finset.insert_subset (mem_unmarked ha htest) (unmarked_mark hm ha)
  calc m.pending next univ (m.mark s a) + (next a).length = ∑ b ∈ insert a (m.unmarked univ (m.mark s a)),
         (next b).length := by
        rw [Finset.sum_insert (not_mem_unmarked_mark hm ha), Nat.add_comm, Marks.pending]
    _ ≤ m.pending next univ s := Finset.sum_le_sum_of_subset hsub

theorem walk_of_walked (hm : m.Lawful univ) (hnext : ∀ a ∈ univ, ∀ b ∈ next a, b ∈ univ) (visit : τ → α → τ) (t : τ)
    (fuel : Nat) :
    ∀ s stack seen, Walked m next roots s stack seen → (∀ a ∈ stack, a ∈ univ) →
    stack.length + m.pending next univ s < fuel →
      ∃ order : List α, m.walk next visit fuel s stack (seen.foldl visit t) = some (order.foldl visit t) ∧ order.Nodup ∧
        ∀ a, a ∈ order ↔ ∃ root ∈ roots, Reachable next root a := by
  induction fuel with
  | zero =>
      intro s stack seen _ _ hfuel
      exact absurd hfuel (Nat.not_lt_zero _)
  | succ fuel ih =>
      intro s stack seen h huniv hfuel
      cases stack with
      | nil => exact ⟨seen, rfl, h.nodup, h.done⟩
      | cons a stack =>
          have ha : a ∈ univ := huniv a List.mem_cons_self
          have hrest : ∀ b ∈ stack, b ∈ univ := fun b hb => huniv b (List.mem_cons_of_mem a hb)
          rw [List.length_cons] at hfuel
          rw [Marks.walk]
          cases htest : m.test s a with
          | true => exact ih s stack seen (h.pass htest) hrest (by omega)
          | false =>
              have hpending : m.pending next univ (m.mark s a) + (next a).length ≤ m.pending next univ s :=
                pending_mark hm ha htest
              obtain ⟨order, horder, hspec⟩ :=
                ih (m.mark s a) ((next a).reverse ++ stack) (seen ++ [a]) (h.visit hm ha htest)
                (fun b hb => (List.mem_append.mp hb).elim (fun hb => hnext a ha b (List.mem_reverse.mp hb)) (hrest b))
                (by simp only [List.length_append, List.length_reverse]; omega)
              refine ⟨order, ?_, hspec⟩
              rw [List.foldl_append] at horder
              exact horder

/-- With enough fuel the search with a stack ends, and has visited each element that can be reached once. -/
theorem walk_spec (hm : m.Lawful univ) (hnext : ∀ a ∈ univ, ∀ b ∈ next a, b ∈ univ) (visit : τ → α → τ) (t : τ)
    (hempty : ∀ a, m.test s a = false) (hstack : ∀ a ∈ stack, a ∈ univ) {fuel : Nat}
    (hfuel : stack.length + ∑ a ∈ univ, (next a).length < fuel) :
    ∃ order : List α, m.walk next visit fuel s stack t = some (order.foldl visit t) ∧ order.Nodup ∧
      ∀ a, a ∈ order ↔ ∃ root ∈ stack, Reachable next root a := by
  have hpending : m.pending next univ s ≤ ∑ a ∈ univ, (next a).length :=
    Finset.sum_le_sum_of_subset (Finset.filter_subset _ _)
  exact walk_of_walked hm hnext visit t fuel s stack [] (.start hempty fun a => Iff.rfl) hstack (by omega)

end Marking
