import Mathlib.Algebra.BigOperators.Group.List.Basic

/-!
# Walks in a tree

A walk goes from node to node of a tree, up to the parent or down to a child that is given by its name. A step
up takes back the step down before it, so a walk comes to a number of steps up and then names. Walks one after
another form a monoid. The steps may thus be reduced from the left, with a stack of names, or from the right,
with a count of steps up.

At the root of the tree there is no parent: steps up from there lead nowhere.
-/

inductive WalkStep (α : Type) where
  | up
  | down (name : α)
deriving DecidableEq

/-- What a walk comes to: steps up, and the names behind them. -/
@[ext] structure Walk (α : Type) where
  ups : Nat
  names : List α
deriving DecidableEq

namespace Walk

variable {α : Type} {v w : Walk α} {name : α} {steps : List (WalkStep α)}

instance : One (Walk α) := ⟨⟨0, []⟩⟩

/-- One walk and then another one, whose steps up take back the names of the first as far as these go. -/
instance :
    Mul (Walk α) := ⟨fun v w => ⟨v.ups + (w.ups - v.names.length), v.names.take (v.names.length - w.ups) ++ w.names⟩⟩

@[simp] theorem one_ups : (1 : Walk α).ups = 0 := rfl

@[simp] theorem one_names : (1 : Walk α).names = [] := rfl

theorem mul_ups (v w : Walk α) : (v * w).ups = v.ups + (w.ups - v.names.length) := rfl

theorem mul_names (v w : Walk α) : (v * w).names = v.names.take (v.names.length - w.ups) ++ w.names := rfl

theorem length_mul_names (v w : Walk α) : (v * w).names.length = (v.names.length - w.ups) + w.names.length := by
  rw [mul_names, List.length_append, List.length_take]
  omega

theorem mul_assoc_names (u v w : Walk α) : (u * v * w).names = (u * (v * w)).names := by
  rw [mul_names, length_mul_names, mul_names u v, mul_names u, mul_names v w, mul_ups v w, List.take_append,
    List.take_take, List.length_take,
    List.append_assoc]
  congr 2
  · omega
  · congr 1
    omega

instance : Monoid (Walk α) where
  mul_assoc u v w := by
    refine Walk.ext ?_ (mul_assoc_names u v w)
    rw [mul_ups, length_mul_names, mul_ups, mul_ups, mul_ups]
    omega
  one_mul w := by
    refine Walk.ext ?_ ?_
    · rw [mul_ups]
      simp
    · rw [mul_names]
      simp
  mul_one w := by
    refine Walk.ext ?_ ?_
    · rw [mul_ups]
      simp
    · rw [mul_names]
      simp

def ofStep : WalkStep α → Walk α
  | .up => ⟨1, []⟩
  | .down name => ⟨0, [name]⟩

def ofSteps (steps : List (WalkStep α)) : Walk α := (steps.map ofStep).prod

@[simp] theorem ofSteps_nil : ofSteps ([] : List (WalkStep α)) = 1 := rfl

theorem ofSteps_append (s t : List (WalkStep α)) : ofSteps (s ++ t) = ofSteps s * ofSteps t := by
  rw [ofSteps, List.map_append, List.prod_append, ofSteps, ofSteps]

/-! ### From the right -/

theorem ofSteps_up_cons (steps : List (WalkStep α)) :
    ofSteps (.up :: steps) = ⟨(ofSteps steps).ups + 1, (ofSteps steps).names⟩ := by
  rw [ofSteps, List.map_cons, List.prod_cons, ← ofSteps]
  refine Walk.ext ?_ ?_
  · rw [mul_ups, ofStep]
    simp only [List.length_nil]
    omega
  · rw [mul_names, ofStep]
    simp

theorem ofSteps_down_cons (name : α) (steps : List (WalkStep α)) : ofSteps (.down name :: steps) =
    if 0 < (ofSteps steps).ups then ⟨(ofSteps steps).ups - 1, (ofSteps steps).names⟩
    else ⟨0, name :: (ofSteps steps).names⟩ := by
  rw [ofSteps, List.map_cons, List.prod_cons, ← ofSteps]
  split_ifs with hups
  · refine Walk.ext ?_ ?_
    · rw [mul_ups, ofStep]
      simp
    · rw [mul_names, ofStep, List.length_singleton, Nat.sub_eq_zero_of_le hups]
      rfl
  · obtain hzero : (ofSteps steps).ups = 0 := by omega
    refine Walk.ext ?_ ?_
    · rw [mul_ups, hzero]
      rfl
    · rw [mul_names, hzero]
      rfl

/-! ### From the left -/

theorem ofSteps_concat_up (steps : List (WalkStep α)) : ofSteps (steps ++ [.up]) =
    if (ofSteps steps).names = [] then ⟨(ofSteps steps).ups + 1, []⟩
    else ⟨(ofSteps steps).ups, (ofSteps steps).names.dropLast⟩ := by
  rw [ofSteps_append, show ofSteps [WalkStep.up] = (⟨1, []⟩ : Walk α) from rfl]
  split_ifs with hnames
  · refine Walk.ext ?_ ?_
    · rw [mul_ups, hnames]
      rfl
    · rw [mul_names, hnames]
      rfl
  · have hpos := List.length_pos_iff.mpr hnames
    refine Walk.ext ?_ ?_
    · rw [mul_ups]
      simp only
      omega
    · rw [mul_names, List.append_nil, List.dropLast_eq_take]

theorem ofSteps_concat_down (steps : List (WalkStep α)) (name : α) :
    ofSteps (steps ++ [.down name]) = ⟨(ofSteps steps).ups, (ofSteps steps).names ++ [name]⟩ := by
  rw [ofSteps_append, show ofSteps [WalkStep.down name] = (⟨0, [name]⟩ : Walk α) from rfl]
  refine Walk.ext ?_ ?_
  · rw [mul_ups]
    simp only
    omega
  · rw [mul_names]
    simp

/-! ### Reduced walks -/

/-- The steps of a walk that is reduced. -/
def toSteps (w : Walk α) : List (WalkStep α) := List.replicate w.ups .up ++ w.names.map .down

theorem ofSteps_replicate_up (n : Nat) : ofSteps (List.replicate n (WalkStep.up (α := α))) = ⟨n, []⟩ := by
  induction n with
  | zero => rfl
  | succ n ih => rw [List.replicate_succ, ofSteps_up_cons, ih]

theorem ofSteps_map_down (names : List α) : ofSteps (names.map .down) = ⟨0, names⟩ := by
  induction names with
  | nil => rfl
  | cons name names ih =>
      rw [List.map_cons, ofSteps_down_cons, ih]
      rfl

theorem ofSteps_toSteps (w : Walk α) : ofSteps w.toSteps = w := by
  rw [toSteps, ofSteps_append, ofSteps_replicate_up, ofSteps_map_down]
  refine Walk.ext ?_ ?_
  · rw [mul_ups]
    simp
  · rw [mul_names]
    simp

theorem length_ofSteps (steps : List (WalkStep α)) :
    (ofSteps steps).ups + (ofSteps steps).names.length ≤ steps.length := by
  induction steps with
  | nil => exact Nat.le_refl 0
  | cons step steps ih =>
      rw [List.length_cons]
      cases step with
      | up =>
          rw [ofSteps_up_cons]
          simp only
          omega
      | down name =>
          rw [ofSteps_down_cons]
          split_ifs with hups
          · simp only
            omega
          · simp only [List.length_cons]
            omega

theorem mem_of_mem_names (h : name ∈ (ofSteps steps).names) : .down name ∈ steps := by
  induction steps with
  | nil => cases h
  | cons step steps ih =>
      cases step with
      | up =>
          rw [ofSteps_up_cons] at h
          exact List.mem_cons_of_mem _ (ih h)
      | down name' =>
          rw [ofSteps_down_cons] at h
          split_ifs at h with hups
          · exact List.mem_cons_of_mem _ (ih h)
          · rcases List.mem_cons.mp h with rfl | h
            · exact List.mem_cons_self
            · exact List.mem_cons_of_mem _ (ih h)

/-! ### At the root -/

/-- A walk that starts at the root of the tree. -/
def atRoot (w : Walk α) : Walk α := ⟨0, w.names⟩

@[simp] theorem atRoot_names (w : Walk α) : w.atRoot.names = w.names := rfl

theorem atRoot_mul (v w : Walk α) : (v.atRoot * w).atRoot = (v * w).atRoot := rfl

theorem atRoot_eq_self_iff : w.atRoot = w ↔ w.ups = 0 := by
  constructor
  · intro h
    rw [← h]
    rfl
  · intro h
    exact Walk.ext h.symm rfl

end Walk
