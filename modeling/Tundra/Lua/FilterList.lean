import Mathlib.Data.List.Perm.Basic

/-!
# Filtered lists

`flatten_list` and `filter_structure` of `nodegen.lua`, and `flatten` of `util.lua`. They go over nested lists
whose parts can have a `Config` filter, here for any way to match a filter against a build id, which can also
raise an error.
-/

namespace Tundra.Lua

/-- A value in a nested list: what is not a table, or has a metatable, is a leaf. A table is an array with a
`Config` filter and other fields beside it. -/
inductive Item (φ ν α : Type) where
  | leaf (value : α)
  | table (config : Option φ) (items : List (Item φ ν α)) (fields : List (ν × Item φ ν α))

section

variable {φ ν α β ε : Type} (configMatches : φ → β → Except ε Bool)

/-- `config_matches` on the `Config` of a table, which lets everything through if there is none. -/
def tableMatches (config : Option φ) (buildId : β) : Except ε Bool :=
  match config with
  | none => .ok true
  | some config => configMatches config buildId

/-! ### The source -/

/-- The test of `flatten_list` on a table. -/
def passes (buildId : Option β) (config : Option φ) : Except ε Bool :=
  match buildId with
  | none => .ok true
  | some buildId => tableMatches configMatches config buildId

mutual

/-- `iter` of `flatten_list`. -/
def flattenIter (buildId : Option β) (exclusive : Bool) : Item φ ν α → List α → Bool → Except ε (List α)
  | .leaf value, accum, filtered => .ok (if !exclusive || filtered == buildId.isSome then accum ++ [value] else accum)
  | .table config items _, accum, filtered => do
      let filtered := config.isSome || filtered
      if ← passes configMatches buildId config then flattenIterAll buildId exclusive items accum filtered
        else return accum

/-- The loop of `iter` over the array of a table. -/
def flattenIterAll (buildId : Option β) (exclusive : Bool) : List (Item φ ν α) → List α → Bool → Except ε (List α)
  | [], accum, _ => .ok accum
  | item :: items, accum, filtered => do
      let accum ← flattenIter buildId exclusive item accum filtered
      flattenIterAll buildId exclusive items accum filtered

end

def flattenList (buildId : Option β) (list : Item φ ν α) (exclusive : Bool) : Except ε (List α) :=
  flattenIter configMatches buildId exclusive list [] false

mutual

/-- `filter_structure`; its last argument is never looked at. -/
def filterStructure (buildId : β) : Item φ ν α → Except ε (Item φ ν α)
  | .leaf value => .ok (.leaf value)
  | .table config items fields => do
      if ← tableMatches configMatches config buildId then return .table none (← filterStructureAll buildId items) fields
      else return .table none [] []

/-- The loop of `filter_structure` over the array of a table. -/
def filterStructureAll (buildId : β) : List (Item φ ν α) → Except ε (List (Item φ ν α))
  | [] => .ok []
  | item :: items => do
      let result ← filterStructure buildId item
      return result :: (← filterStructureAll buildId items)

end

mutual

/-- `iter` of `flatten`. -/
def plainIter : Item φ ν α → List α → List α
  | .leaf value, accum => accum ++ [value]
  | .table _ items _, accum => plainIterAll items accum

/-- The loop of `iter` over the array of a table. -/
def plainIterAll : List (Item φ ν α) → List α → List α
  | [], accum => accum
  | item :: items, accum => plainIterAll items (plainIter item accum)

end

/-- `flatten` of `util.lua`. -/
def flatten (item : Item φ ν α) : List α := plainIter item []

/-! ### The two routines agree -/

variable {configMatches}

mutual

theorem flattenIter_eq (buildId : β) (accum : List α) (filtered : Bool) : ∀ item : Item φ ν α,
    flattenIter configMatches (some buildId) false item accum filtered = (plainIter · accum) <$>
    filterStructure configMatches buildId item
  | .leaf value => rfl
  | .table config items fields => by
      rw [flattenIter, filterStructure, passes]
      cases tableMatches configMatches config buildId with
      | error err => rfl
      | ok matched =>
          cases matched with
          | false => rfl
          | true =>
              have hall := flattenIterAll_eq buildId accum (config.isSome || filtered) items
              cases hitems : filterStructureAll configMatches buildId items with
              | error err =>
                  rw [hitems] at hall
                  exact hall
              | ok results =>
                  rw [hitems] at hall
                  exact hall

theorem flattenIterAll_eq (buildId : β) (accum : List α) (filtered : Bool) : ∀ items : List (Item φ ν α),
    flattenIterAll configMatches (some buildId) false items accum filtered =
      (plainIterAll · accum) <$> filterStructureAll configMatches buildId items
  | [] => rfl
  | item :: items => by
      rw [flattenIterAll, filterStructureAll, flattenIter_eq buildId accum filtered item]
      cases filterStructure configMatches buildId item with
      | error err => rfl
      | ok result =>
          have hall := flattenIterAll_eq buildId (plainIter result accum) filtered items
          cases hitems : filterStructureAll configMatches buildId items with
          | error err =>
              rw [hitems] at hall
              exact hall
          | ok results =>
              rw [hitems] at hall
              exact hall

end

/-! ### The exclusive modes -/

/-- Three loops over the same values. The first one adds what the other two add, each element once, unless it
and the third one raise the same error. -/
def Splits (whole unfiltered filtered : List α → Except ε (List α)) : Prop :=
  ∃ without, (∀ accum, unfiltered accum = .ok (accum ++ without)) ∧
    ((∃ err, ∀ accum, whole accum = .error err ∧ filtered accum = .error err) ∨
      ∃ all beneath, all.Perm (without ++ beneath) ∧ ∀ accum, whole accum = .ok (accum ++ all) ∧ filtered accum = .ok (accum ++ beneath))

theorem Splits.nothing : Splits (fun accum : List α => (.ok accum : Except ε (List α))) .ok .ok := by
  have hnil : ∀ accum : List α, (.ok accum : Except ε (List α)) = .ok (accum ++ []) := fun accum => by
    rw [List.append_nil]
  exact ⟨[], hnil, .inr ⟨[], [], .nil, fun accum => ⟨hnil accum, hnil accum⟩⟩⟩

theorem Splits.seq {f g h f' g' h' : List α → Except ε (List α)} (hfirst : Splits f g h) (hsecond : Splits f' g' h') :
    Splits (fun accum => f accum >>= f') (fun accum => g accum >>= g') fun accum => h accum >>= h' := by
  obtain ⟨without, hwithout, hfirst⟩ := hfirst
  obtain ⟨without', hwithout', hsecond⟩ := hsecond
  refine ⟨without ++ without', fun accum => ?_, ?_⟩
  · show (g accum >>= g') = _
    rw [hwithout, ← List.append_assoc]
    exact hwithout' _
  rcases hfirst with ⟨err, herr⟩ | ⟨all, beneath, hperm, hall⟩
  · refine .inl ⟨err, fun accum => ?_⟩
    show (f accum >>= f') = _ ∧ (h accum >>= h') = _
    rw [(herr accum).1, (herr accum).2]
    exact ⟨rfl, rfl⟩
  rcases hsecond with ⟨err, herr⟩ | ⟨all', beneath', hperm', hall'⟩
  · refine .inl ⟨err, fun accum => ?_⟩
    show (f accum >>= f') = _ ∧ (h accum >>= h') = _
    rw [(hall accum).1, (hall accum).2]
    exact ⟨(herr _).1, (herr _).2⟩
  · refine .inr ⟨all ++ all', beneath ++ beneath', ?_, fun accum => ?_⟩
    · calc (all ++ all').Perm ((without ++ beneath) ++ (without' ++ beneath')) := hperm.append hperm'
        _ = without ++ ((beneath ++ without') ++ beneath') := by simp only [List.append_assoc]
        List.Perm _ (without ++ ((without' ++ beneath) ++ beneath')) :=
          (List.perm_append_comm.append_right _).append_left _
        _ = (without ++ without') ++ (beneath ++ beneath') := by simp only [List.append_assoc]
    · show (f accum >>= f') = _ ∧ (h accum >>= h') = _
      rw [(hall accum).1, (hall accum).2, ← List.append_assoc, ← List.append_assoc]
      exact ⟨(hall' _).1, (hall' _).2⟩

mutual

/-- Without a build id nothing under a filter is taken in the exclusive mode. -/
theorem flattenIter_none (accum : List α) :
    ∀ item : Item φ ν α, flattenIter configMatches none true item accum true = .ok accum
  | .leaf value => rfl
  | .table config items fields => by
      have hall := flattenIterAll_none accum items
      rw [flattenIter, passes]
      cases config <;> exact hall

theorem flattenIterAll_none (accum : List α) :
    ∀ items : List (Item φ ν α), flattenIterAll configMatches none true items accum true = .ok accum
  | [] => rfl
  | item :: items => by
      rw [flattenIterAll, flattenIter_none accum item]
      exact flattenIterAll_none accum items

end

/-- A table that is left out has a filter, so nothing is taken from it without a build id either. -/
theorem flattenIter_left_out {buildId : β} {config : Option φ} {items : List (Item φ ν α)}
    {fields : List (ν × Item φ ν α)} {accum : List α} {filtered : Bool}
    (h : tableMatches configMatches config buildId ≠ .ok true) :
    flattenIter configMatches none true (.table config items fields) accum filtered = .ok accum := by
  cases config with
  | none => exact absurd rfl h
  | some config => exact flattenIterAll_none accum items

mutual

theorem splits_flattenIter (buildId : β) (filtered : Bool) : ∀ item : Item φ ν α,
    Splits (flattenIter configMatches (some buildId) false item · filtered)
    (flattenIter configMatches none true item · filtered)
      (flattenIter configMatches (some buildId) true item · filtered)
  | .leaf value => by
      cases filtered
      · exact ⟨[value], fun accum => rfl,
          .inr ⟨[value], [], .refl _, fun accum => ⟨rfl, congrArg Except.ok (List.append_nil accum).symm⟩⟩⟩
      · exact ⟨[], fun accum => congrArg Except.ok (List.append_nil accum).symm,
          .inr ⟨[value], [value], .refl _, fun accum => ⟨rfl, rfl⟩⟩⟩
  | .table config items fields => by
      have hall := splits_flattenIterAll buildId (config.isSome || filtered) items
      have hloop : ∀ (id : Option β) (exclusive : Bool) (accum : List α), passes configMatches id config = .ok true →
          flattenIter configMatches id exclusive (.table config items fields) accum filtered =
            flattenIterAll configMatches id exclusive items accum (config.isSome || filtered) := by
        intro id exclusive accum hpasses
        rw [flattenIter, hpasses]
        rfl
      cases hmatched : tableMatches configMatches config buildId with
      | ok matched =>
          cases matched with
          | true =>
              simp only [hloop (some buildId) _ _ hmatched, hloop none true _ rfl]
              exact hall
          | false =>
              have hleft : ∀ (exclusive : Bool) (accum : List α),
                  flattenIter configMatches (some buildId) exclusive (.table config items fields) accum filtered =
                    .ok accum := by
                intro exclusive accum
                rw [flattenIter, passes, hmatched]
                rfl
              simp only [hleft, flattenIter_left_out fun htrue => absurd (hmatched.symm.trans htrue) (by simp)]
              exact Splits.nothing
      | error err =>
          have hraised : ∀ (exclusive : Bool) (accum : List α),
              flattenIter configMatches (some buildId) exclusive (.table config items fields) accum filtered =
                .error err := by
            intro exclusive accum
            rw [flattenIter, passes, hmatched]
            rfl
          simp only [hraised, flattenIter_left_out fun htrue => absurd (hmatched.symm.trans htrue) (by simp)]
          exact ⟨[], fun accum => by rw [List.append_nil], .inl ⟨err, fun accum => ⟨rfl, rfl⟩⟩⟩

theorem splits_flattenIterAll (buildId : β) (filtered : Bool) : ∀ items : List (Item φ ν α),
    Splits (flattenIterAll configMatches (some buildId) false items · filtered)
    (flattenIterAll configMatches none true items · filtered)
      (flattenIterAll configMatches (some buildId) true items · filtered)
  | [] => Splits.nothing
  | item :: items => (splits_flattenIter buildId filtered item).seq (splits_flattenIterAll buildId filtered items)

end

/-- The two routines agree, and the two exclusive modes share out what the plain one emits. An error of the
filters is raised by all of them but the one without a build id. -/
theorem flattenList_filterStructure (configMatches : φ → β → Except ε Bool) (buildId : β) (list : Item φ ν α) :
    flatten <$> filterStructure configMatches buildId list = flattenList configMatches (some buildId) list false ∧
      ∃ unfiltered, flattenList configMatches none list true = .ok unfiltered ∧
        ((∃ err, flattenList configMatches (some buildId) list false = .error err ∧
        flattenList configMatches (some buildId) list true = .error err) ∨
          ∃ all filtered, flattenList configMatches (some buildId) list false = .ok all ∧
            flattenList configMatches (some buildId) list true = .ok filtered ∧ all.Perm (unfiltered ++ filtered)) := by
  refine ⟨(flattenIter_eq buildId [] false list).symm, ?_⟩
  obtain ⟨unfiltered, hunfiltered, hsplit⟩ := @splits_flattenIter _ _ _ _ _ configMatches buildId false list
  refine ⟨unfiltered, hunfiltered [], ?_⟩
  rcases hsplit with ⟨err, herr⟩ | ⟨all, filtered, hperm, hall⟩
  · exact .inl ⟨err, (herr []).1, (herr []).2⟩
  · exact .inr ⟨all, filtered, (hall []).1, (hall []).2, hperm⟩

end

end Tundra.Lua
