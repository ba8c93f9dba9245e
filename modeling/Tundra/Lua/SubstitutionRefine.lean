import Tundra.Lua.Substitution

/-!
# Interpolation is substitution

`DoInterpolate` returns the value of a string, as long as its buffers do what the operations on lists of bytes
do, and as long as no name has a zero byte in it. Where no variable refers to itself it comes to an end.
-/

namespace Tundra

/-! ### Outcomes and values -/

/-- A computation returns a value, or fails where there is none. -/
def Returns {α : Type} (x : Outcome InterpolateError α) (r : Option α) :
    Prop := r.elim (∃ err, x = .error err) fun a => x = .ok a

namespace Returns

variable {α β : Type} {x : Outcome InterpolateError α} {r : Option α}

theorem bind {f : α → Outcome InterpolateError β} {g : α → Option β} (h : Returns x r)
    (hf : ∀ a, r = some a → Returns (f a) (g a)) :
    Returns (x >>= f) (r.bind g) := by
  cases r with
  | none =>
      obtain ⟨err, rfl⟩ := h
      exact ⟨err, rfl⟩
  | some a =>
      obtain rfl : x = .ok a := h
      exact hf a rfl

theorem map (h : Returns x r) (f : α → β) : Returns (f <$> x) (r.map f) := by
  cases r with
  | none =>
      obtain ⟨err, rfl⟩ := h
      exact ⟨err, rfl⟩
  | some a =>
      obtain rfl : x = .ok a := h
      rfl

theorem appendText {x y : Outcome InterpolateError (List UInt8)} {r r' : Option (List UInt8)} (hx : Returns x r)
    (hy : r.isSome → Returns y r') : Returns (Tundra.appendText x y) (r.bind fun front => r'.map (front ++ ·)) := by
  rw [appendText_eq]
  refine hx.bind fun front hfront => (hy ?_).map (front ++ ·)
  rw [hfront]
  rfl

end Returns

/-! ### Options -/

theorem applyOption_eq (item : StringBuffer) (option : List UInt8) :
    applyOption item option = (optionOp option).map fun op => op.elim item (·.onBuffer item) := by
  unfold applyOption
  split
  case h_17 =>
    -- no option begins with this byte
    rw [optionOp]
    · rfl
    all_goals assumption
  all_goals rfl

theorem selectOption_eq (count : Nat) (s : Selection) (option : List UInt8) : selectOption count s option =
    (indexOption option).elim (some { s with joinString := (joinOption option).getD s.joinString })
      fun n => if 1 ≤ n ∧ n ≤ count then some { s with firstIndex := n.toNat - 1, maxIndex := n.toNat } else none := by
  unfold selectOption
  split
  case h_3 hjoin hindex =>
    rw [indexOption, joinOption]
    · rfl
    · exact hjoin
    · exact hindex
  all_goals rfl

/-- The loop over the options keeps the last join text and the last index. -/
theorem foldlM_selectOption (count : Nat) (options : List (List UInt8)) (s : Selection) :
    options.foldlM (selectOption count) s =
    if ∀ n ∈ options.filterMap indexOption, 1 ≤ n ∧ n ≤ count then
      some ⟨((options.filterMap joinOption).getLast?).getD s.joinString,
        (options.filterMap indexOption).getLast?.elim s.firstIndex fun n => n.toNat - 1,
        (options.filterMap indexOption).getLast?.elim s.maxIndex Int.toNat⟩
    else none := by
  induction options generalizing s with
  | nil => simp
  | cons option options ih =>
      rw [List.foldlM_cons, selectOption_eq]
      cases hindex : indexOption option with
      | none =>
          rw [Option.elim_none, Option.bind_eq_bind, Option.bind_some, ih, List.filterMap_cons_none hindex]
          cases hjoin : joinOption option with
          | none => rw [List.filterMap_cons_none hjoin, Option.getD_none]
          | some text => rw [List.filterMap_cons_some hjoin, List.getLast?_cons, Option.getD_some, Option.getD_some]
      | some n =>
          have hjoin : joinOption option = none := by
            unfold indexOption at hindex
            split at hindex
            · rfl
            · cases hindex
          simp only [Option.elim_some, List.filterMap_cons_some hindex, List.filterMap_cons_none hjoin,
            List.forall_mem_cons, List.getLast?_cons]
          by_cases hn : 1 ≤ n ∧ n ≤ count
          · simp only [hn, and_self, true_and, if_true, Option.bind_eq_bind, Option.bind_some, ih]
            cases (options.filterMap indexOption).getLast? <;> rfl
          · rw [if_neg hn, if_neg fun hall => hn hall.1]
            rfl

theorem selection_eq (values options : List (List UInt8)) :
    (options.foldlM (selectOption values.length) ⟨[32], 0, values.length⟩).map
      (fun s => (s.joinString, (values.take s.maxIndex).drop s.firstIndex)) =
      (selectedItems values options).map (joinText options, ·) := by
  rw [foldlM_selectOption, selectedItems]
  split_ifs with hall
  · simp only [Option.map_some, Option.some.injEq, joinText, Prod.mk.injEq, true_and]
    cases hlast : (options.filterMap indexOption).getLast? with
    | none => rw [Option.elim_none, Option.elim_none, Option.elim_none, List.take_length, List.drop_zero]
    | some n =>
        obtain ⟨hpos, hle⟩ := hall n (List.mem_of_getLast? hlast)
        have hone : n.toNat - (n.toNat - 1) = 1 := by omega
        rw [Option.elim_some, Option.elim_some, Option.elim_some, List.drop_take, hone, List.take_one, List.head?_drop]
  · rfl

theorem foldlM_applyOption_contents (options : List (List UInt8)) (b : StringBuffer)
    (hsound : ∀ done option more b' op, options = done ++ option :: more → done.foldlM applyOption b = some b' →
      optionOp option = some (some op) → ¬(b'.heap ≠ [] ∧ b'.internal ≠ [] ∧ op.empties b'.contents)) :
    (options.foldlM applyOption b).map StringBuffer.contents = options.foldlM transform b.contents := by
  induction options generalizing b with
  | nil => rfl
  | cons option options ih =>
      have hnext : ∀ b₁, applyOption b option = some b₁ →
          (options.foldlM applyOption b₁).map StringBuffer.contents = options.foldlM transform b₁.contents := by
        intro b₁ hb₁
        refine ih b₁ fun done option' more b' op hoptions hdone hop => ?_
        refine hsound (option :: done) option' more b' op (by rw [hoptions, List.cons_append]) ?_ hop
        rw [List.foldlM_cons, hb₁]
        exact hdone
      rw [List.foldlM_cons, List.foldlM_cons, transform]
      rw [applyOption_eq] at hnext ⊢
      cases hop : optionOp option with
      | none => rfl
      | some op? =>
          rw [hop] at hnext
          cases op? with
          | none => exact hnext b rfl
          | some op =>
              have hcontents := (op.contents_onBuffer_iff b).mpr (hsound [] option options b op rfl rfl hop)
              have hrest := hnext (op.onBuffer b) rfl
              rw [hcontents] at hrest
              exact hrest

/-! ### References -/

variable {lookup : EnvLookup} {interpolate : Interpolation} {name : List UInt8}

/-- A name that stands for nothing is an error, and one that stands for items has their text. -/
theorem returns_namedText (hname : 0 ∉ name) (text : List (List UInt8) → List (List UInt8) → Option (List UInt8))
    (hitems : ∀ options items, resolve lookup.find name = some (options, items) →
      Returns (itemsText interpolate options (joinText options) true items) (text options items)) :
    Returns (namedText interpolate lookup name)
    ((resolve lookup.find name).bind fun (options, items) => text options items) := by
  have hwhole : name.takeWhile (· ≠ 0) = name := by
    rw [List.takeWhile_eq_self_iff]
    intro ch hch
    refine decide_eq_true ?_
    rintro rfl
    exact hname hch
  rw [namedText, addVar]
  simp only [lookupVar]
  simp only [hwhole]
  by_cases hcount : kMaxOptions < (splitName 0 name).2.length
  · have hnone : resolve lookup.find name = none := if_pos hcount
    rw [if_pos hcount, hnone]
    exact ⟨_, rfl⟩
  · have hresolve : resolve lookup.find name = _ := if_neg hcount
    rw [hresolve] at hitems
    rw [if_neg hcount, hresolve]
    cases hfind : lookup.find (splitName 0 name).1 with
    | none => exact ⟨_, rfl⟩
    | some values =>
        have hselection := selection_eq values ((splitName 0 name).2.map unescapeOption)
        rw [hfind] at hitems
        simp only [Option.bind_some]
        cases hselected : selectedItems values ((splitName 0 name).2.map unescapeOption) with
        | none =>
            rw [hselected, Option.map_none, Option.map_eq_none_iff] at hselection
            rw [hselection]
            exact ⟨_, rfl⟩
        | some items =>
            rw [hselected, Option.map_some] at hselection
            obtain ⟨s, hs, heq⟩ := Option.map_eq_some_iff.mp hselection
            obtain ⟨hjoin, hrange⟩ := Prod.mk.inj heq
            have htext := hitems _ _ (by rw [Option.bind_some, hselected]; rfl)
            have hempty : ∀ x : Outcome InterpolateError (List UInt8), (StringBuffer.empty.contents ++ ·) <$> x = x :=
              fun x => by
              cases x <;> rfl
            simp only [hs, hjoin, hrange, contents_addItems, hempty]
            exact htext

theorem intercalate_cons (sep text : List UInt8) (texts : List (List UInt8)) :
    List.intercalate sep (text :: texts) = text ++ texts.flatMap (sep ++ ·) := by
  induction texts generalizing text with
  | nil => simp [List.intercalate]
  | cons next texts ih =>
      rw [List.flatMap_cons, List.append_assoc, ← ih next]
      simp [List.intercalate]

/-- The items are put one after the other, up to the first that fails. -/
theorem returns_itemsText {value : List UInt8 → Option (List UInt8)} {options items : List (List UInt8)}
    (joinString : List UInt8)
    (hitem : ∀ front item back, items = front ++ item :: back →
    (∀ text ∈ front, (itemValue value options text).isSome) → Returns (itemText interpolate options item) (itemValue value options item))
    (first : Bool) :
    Returns (itemsText interpolate options joinString first items)
    ((items.mapM (itemValue value options)).map fun texts =>
      if first then List.intercalate joinString texts else texts.flatMap (joinString ++ ·)) := by
  induction items generalizing first with
  | nil => cases first <;> rfl
  | cons item rest ih =>
      have hfirst := hitem [] item rest rfl fun text htext => by cases htext
      have hrest : (itemValue value options item).isSome → Returns (itemsText interpolate options joinString false rest)
          ((rest.mapM (itemValue value options)).map (·.flatMap (joinString ++ ·))) := by
        intro hsome
        refine ih (fun front item' back hitems hfront => ?_) false
        exact hitem (item :: front) item' back (by rw [hitems, List.cons_append])
          (List.forall_mem_cons.mpr ⟨hsome, hfront⟩)
      have hboth := Returns.appendText (r := some (if first then [] else joinString)) rfl
        fun _ => hfirst.appendText hrest
      rw [itemsText]
      rw [List.mapM_cons]
      convert hboth using 1
      cases itemValue value options item with
      | none => rfl
      | some text =>
          cases rest.mapM (itemValue value options) with
          | none => rfl
          | some texts =>
              cases first with
              | true => simp [intercalate_cons]
              | false => simp

/-! ### Steps -/

/-- A moment of an interpolation: a name is looked up, or an option is applied to an item. -/
inductive InterpolateStep where
  | name (name : List UInt8)
  | option (item : StringBuffer) (op : BufferOp)

/-- A name has no zero byte. An operation does not leave an item on the heap without a text while bytes stand in
the object, and an `int` counts the texts that are searched. -/
def InterpolateStep.Sound : InterpolateStep → Prop
  | .name name => 0 ∉ name
  | .option item op => op.Counted item.contents ∧ ¬(item.heap ≠ [] ∧ item.internal ≠ [] ∧ op.empties item.contents)

/-- The steps at the reference that a string begins with. -/
inductive StepAt (lookup : EnvLookup) (text : List UInt8) : InterpolateStep → Prop
  | name {name : List UInt8} (hnames : Names lookup.vars.isSome lookup.find text name) : StepAt lookup text (.name name)
  | option {name item option : List UInt8} {options front back done more : List (List UInt8)} {fuel : Nat}
      {b b' : StringBuffer} {op : BufferOp}
      (hnames : Names lookup.vars.isSome lookup.find text name)
        (hresolve : resolve lookup.find name = some (options, front ++ item :: back))
      (hfront : ∀ item ∈ front, Succeeds lookup.vars.isSome lookup.find options item)
        (hitem : doInterpolate lookup fuel .empty item = .ok b)
      (hoptions : options = done ++ option :: more) (hdone : done.foldlM applyOption b = some b')
        (hop : optionOp option = some (some op)) :
      StepAt lookup text (.option b' op)

/-- The steps of the interpolation of a string. -/
def ReachesStep (lookup : EnvLookup) (text : List UInt8) (step : InterpolateStep) : Prop :=
  ∃ text', Relation.ReflTransGen (Expands lookup.vars.isSome lookup.find) text text' ∧ StepAt lookup text' step

theorem ReachesStep.of_expands {text text' : List UInt8} {step : InterpolateStep}
    (hexpands : Expands lookup.vars.isSome lookup.find text text') (h : ReachesStep lookup text' step) :
    ReachesStep lookup text step := by
  obtain ⟨last, hreach, hstep⟩ := h
  exact ⟨last, .head hexpands hreach, hstep⟩

theorem returns_itemText {item : List UInt8} {options : List (List UInt8)}
    {value : List UInt8 → Option (List UInt8)} (h : Returns (nenvInterpolate lookup item) (value item))
    (hsound : ∀ fuel b done option more b' op, doInterpolate lookup fuel .empty item = .ok b →
    options = done ++ option :: more → done.foldlM applyOption b = some b' → optionOp option = some (some op) → (InterpolateStep.option b' op).Sound) :
    Returns (itemText (interpolateBuffer lookup) options item) (itemValue value options item) := by
  rw [nenvInterpolate] at h
  rw [itemText, itemValue]
  cases hbuffer : interpolateBuffer lookup .empty item with
  | ok b =>
      obtain ⟨fuel, hfuel⟩ := (Outcome.limit_eq_iff (chain_doInterpolate lookup .empty item) (by simp)).mp hbuffer
      have hoptions := foldlM_applyOption_contents options b fun done option more b' op hsplit hdone hop =>
        (hsound fuel b done option more b' op hfuel hsplit hdone hop).2
      rw [hbuffer, Outcome.map_ok] at h
      have hvalue : value item = some b.contents := by
        cases hv : value item with
        | none =>
            rw [hv] at h
            obtain ⟨err, herr⟩ := h
            cases herr
        | some text =>
            rw [hv] at h
            exact congrArg some (Outcome.ok.inj h).symm
      rw [hvalue, Option.bind_some, ← hoptions, Outcome.ok_bind]
      cases options.foldlM applyOption b with
      | none => exact ⟨_, rfl⟩
      | some b' => rfl
  | error err =>
      rw [hbuffer, Outcome.map_error] at h
      cases hv : value item with
      | none => exact ⟨err, rfl⟩
      | some text =>
          rw [hv] at h
          cases h
  | outOfFuel =>
      rw [hbuffer, Outcome.map_outOfFuel] at h
      cases hv : value item with
      | none =>
          rw [hv] at h
          obtain ⟨err, herr⟩ := h
          cases herr
      | some text =>
          rw [hv] at h
          cases h

/-- Interpolation returns the value of a string when its steps are sound. By induction on how the string gets
its value. -/
theorem returns_nenvInterpolate {text : List UInt8} {r : Option (List UInt8)}
    (h : Substitutes lookup.vars.isSome lookup.find text r)
    (hsound : ∀ step, ReachesStep lookup text step → step.Sound) : Returns (nenvInterpolate lookup text) r := by
  induction h with
  | nil => exact nenvInterpolate_nil lookup
  | char hopens _ ih =>
      rw [nenvInterpolate_char hopens]
      exact Returns.appendText (r := some [_]) rfl fun _ => ih
        fun step hstep => hsound step (hstep.of_expands (.rest hopens))
  | unbalanced hopens hparen =>
      rw [nenvInterpolate_unbalanced hopens hparen]
      exact ⟨_, rfl⟩
  | @reference text inside after name r hopens hname value hitems hafter ihname ihitems ihafter =>
      have hinside := ihname fun step hstep => hsound step (hstep.of_expands (.inside hopens))
      -- the reference, from its name on
      have hnamed : ∀ found, name = some found →
        Returns (namedText (interpolateBuffer lookup) lookup found) (nameValue lookup.find value found) := by
        rintro found rfl
        have hnames : Names lookup.vars.isSome lookup.find text found := ⟨inside, after, hopens, hname⟩
        refine returns_namedText (hsound _ ⟨text, .refl, .name hnames⟩)
          (fun options items => (items.mapM (itemValue value options)).map (List.intercalate (joinText options)))
          fun options items hresolve => ?_
        refine returns_itemsText (joinText options) (fun front item back hsplit hfront => ?_) true
        have hmem : item ∈ items := by
          rw [hsplit]
          exact List.mem_append_right _ List.mem_cons_self
        have hsucceeds : ∀ item ∈ front, Succeeds lookup.vars.isSome lookup.find options item := fun item hitem =>
          succeeds_of_itemValue (hitems options items hresolve item
            (by rw [hsplit]; exact List.mem_append_left _ hitem)) (hfront item hitem)
        rw [hsplit] at hresolve
        refine returns_itemText (ihitems options items (by rw [hsplit]; exact hresolve) item hmem
          fun step hstep => ?_) ?_
        · exact hsound step (hstep.of_expands (.item hnames hresolve hsucceeds))
        · intro fuel b done option more b' op hitem hoptions hdone hop
          exact hsound _ ⟨text, .refl, .option hnames hresolve hsucceeds hitem hoptions hdone hop⟩
      have hreference : Returns (nenvInterpolate lookup inside >>= namedText (interpolateBuffer lookup) lookup)
          (name.bind (nameValue lookup.find value)) := hinside.bind hnamed
      have hbehind : (name.bind (nameValue lookup.find value)).isSome → Returns (nenvInterpolate lookup after) r := by
        intro hsome
        refine ihafter hsome fun step hstep => hsound step (hstep.of_expands ?_)
        obtain ⟨front, hfront⟩ := Option.isSome_iff_exists.mp hsome
        obtain ⟨found, rfl, hfound⟩ := Option.bind_eq_some_iff.mp hfront
        obtain ⟨⟨options, items⟩, hresolve, -⟩ := Option.bind_eq_some_iff.mp hfound
        exact .after hopens hname hresolve (succeeds_of_nameValue hresolve (hitems options items hresolve) hsome)
      cases hopens with
      | intro hopens hparen =>
          rw [nenvInterpolate_var hopens hparen]
          exact hreference.appendText hbehind

/-! ### Environments and their parents -/

/-- The walk of `LuaEnvLookupScope` from an environment to its parents. -/
def walkChain (key : List UInt8) : List VarTable → Option (List (List UInt8))
  | [] => none
  | vars :: parents => (vars key).or (walkChain key parents)

/-- The per-call variables, if there are any, and the variables of an environment and its parents. -/
def EnvLookup.ofChain (vars : Option VarTable) (chain : List VarTable) :
    EnvLookup := ⟨vars, fun key => walkChain key chain⟩

/-- The variables of the first table that has them. -/
def findFirst (tables : List VarTable) : VarTable := fun key => tables.findSome? (· key)

theorem walkChain_eq (key : List UInt8) (chain : List VarTable) : walkChain key chain = findFirst chain key := by
  induction chain with
  | nil => rfl
  | cons vars parents ih =>
      rw [walkChain, ih, findFirst, findFirst, List.findSome?_cons]
      cases vars key <;> rfl

theorem find_ofChain (vars : Option VarTable) (chain : List VarTable) :
    (EnvLookup.ofChain vars chain).find = findFirst (vars.toList ++ chain) := by
  funext key
  show (vars.bind fun vars => vars key).or (walkChain key chain) = _
  rw [walkChain_eq]
  cases vars with
  | none => rfl
  | some table =>
      rw [Option.bind_some, Option.toList_some, List.singleton_append, findFirst, findFirst, List.findSome?_cons]
      cases table key <;> rfl

/-- Where no variable refers to itself, `DoInterpolate` comes to an end with the one value of the string, or
fails if there is none. The stacks are unbounded here: a reference that is being expanded keeps its list and an
item on the Lua stack, and `LuaInterpolate.cpp` never calls `lua_checkstack` for more than the 20 slots a C
function has. -/
theorem interpolation_substitutes (vars : Option VarTable) (chain : List VarTable)
    (hwf : WellFounded (RefersTo vars.isSome (findFirst (vars.toList ++ chain)))) (str : List UInt8)
    (hsound : ∀ step, ReachesStep (EnvLookup.ofChain vars chain) str step → step.Sound) :
    ∃ r, (∀ r', Substitutes vars.isSome (findFirst (vars.toList ++ chain)) str r' ↔ r' = r) ∧
      ∃ fuel₀, ∀ fuel ≥ fuel₀, Returns (luaInterpolate (EnvLookup.ofChain vars chain) fuel str) r := by
  obtain ⟨r, hr⟩ := exists_substitutes hwf str
  refine ⟨r, fun r' => ⟨fun hr' => hr'.unique hr, fun heq => heq ▸ hr⟩, ?_⟩
  rw [← find_ofChain] at hr
  have hreturns := returns_nenvInterpolate hr hsound
  have hne : nenvInterpolate (EnvLookup.ofChain vars chain) str ≠ .outOfFuel := by
    intro hout
    rw [hout] at hreturns
    cases r with
    | none =>
        obtain ⟨err, herr⟩ := hreturns
        cases herr
    | some text => cases hreturns
  obtain ⟨fuel₀, hfuel⟩ := (nenvInterpolate_eq_iff hne).mp rfl
  refine ⟨fuel₀, fun fuel hle => ?_⟩
  rw [(chain_luaInterpolate _ str).eq_of_le (by rw [hfuel]; exact hne) hle, hfuel]
  exact hreturns

/-- The steps at a reference to a name without references, to items without references, are all. -/
theorem stepAt_of_flat {text inside after : List UInt8} {step : InterpolateStep}
    (hopens : Opens lookup.vars.isSome text inside after) (hinside : 36 ∉ inside) (hafter : 36 ∉ after)
    (hitems : ∀ options items, resolve lookup.find inside = some (options, items) → ∀ item ∈ items, 36 ∉ item)
    (h : ReachesStep lookup text step) :
    StepAt lookup text step := by
  have hplain : ∀ text', Expands lookup.vars.isSome lookup.find text text' → 36 ∉ text' := by
    intro text' hexpands
    cases hexpands with
    | rest hopens' =>
        cases hopens with
        | intro hopens _ => cases hopens.symm.trans hopens'
    | inside hopens' => exact (hopens.unique hopens').1 ▸ hinside
    | item hnames hresolve _ =>
        obtain ⟨_, _, hopens', hname⟩ := hnames
        obtain ⟨rfl, -⟩ := hopens.unique hopens'
        cases (substitutes_of_plain hinside).unique hname
        exact hitems _ _ hresolve _ (List.mem_append_right _ List.mem_cons_self)
    | after hopens' _ _ _ => exact (hopens.unique hopens').2 ▸ hafter
  obtain ⟨text', hreach, hstep⟩ := h
  rcases hreach.cases_head with rfl | ⟨next, hnext, hreach⟩
  · exact hstep
  · have hlast := plain_of_reach (hplain next hnext) hreach
    obtain ⟨_, _, _, hopens', -⟩ : ∃ name, Names lookup.vars.isSome lookup.find text' name := by
      cases hstep with
      | name hnames => exact ⟨_, hnames⟩
      | option hnames _ _ _ _ _ _ => exact ⟨_, hnames⟩
    exact absurd hopens' (not_opens_of_plain hlast)

/-- A table with one variable, `X`. -/
def tableOfX (item : List UInt8) : VarTable := fun key => if key = [88] then some [item] else none

theorem mem_findFirst_tableOfX {item key : List UInt8} {values : List (List UInt8)}
    (h : findFirst [tableOfX item] key = some values) :
    values = [item] := by
  rw [findFirst, List.findSome?_cons, tableOfX] at h
  split_ifs at h
  · cases h
    rfl
  · cases h

theorem plain_tableOfX (item : List UInt8) (hitem : 36 ∉ item) :
    ∀ key values, findFirst [tableOfX item] key = some values → ∀ text ∈ values, 36 ∉ text := by
  intro key values hvalues text htext
  rw [mem_findFirst_tableOfX hvalues] at htext
  rw [List.mem_singleton.mp htext]
  exact hitem

/-- The items of a name are strings of its variable. -/
theorem plain_of_resolve {find : VarTable}
    (hplain : ∀ key values, find key = some values → ∀ item ∈ values, 36 ∉ item) :
    ∀ options items, resolve find name = some (options, items) → ∀ item ∈ items, 36 ∉ item := by
  intro options items hresolve item hitem
  obtain ⟨-, -, values, hvalues, hselected⟩ := resolve_eq_some hresolve
  exact hplain _ values hvalues item (mem_of_selectedItems hselected hitem)

/-- `$(X:u)` in an environment with `X = ab`. -/
theorem interpolation_substitutes_uppercase :
    ∃ r, (∀ r', Substitutes false (findFirst [tableOfX [97, 98]]) [36, 40, 88, 58, 117, 41] r' ↔ r' = r) ∧
    ∃ fuel₀, ∀ fuel ≥ fuel₀, Returns
    (luaInterpolate (EnvLookup.ofChain none [tableOfX [97, 98]]) fuel [36, 40, 88, 58, 117, 41]) r := by
  have hplain := plain_tableOfX [97, 98] (by decide)
  have hopens : Opens (EnvLookup.ofChain none [tableOfX [97, 98]]).vars.isSome [36, 40, 88, 58, 117, 41] [88, 58, 117]
    [] :=
    @Opens.intro _ 36 [40, 88, 58, 117, 41] 3 (by decide) (by decide)
  refine interpolation_substitutes none [tableOfX [97, 98]] (wellFounded_of_plain hplain) _ fun step hstep => ?_
  have hfind := find_ofChain none [tableOfX [97, 98]]
  have hat := stepAt_of_flat hopens (by decide) (by decide) (by rw [hfind]; exact plain_of_resolve hplain) hstep
  have hname : ∀ name, Names false (EnvLookup.ofChain none [tableOfX [97, 98]]).find [36, 40, 88, 58, 117, 41] name →
    name = [88, 58, 117] := by
    rintro name ⟨_, _, hopens', hname⟩
    obtain ⟨rfl, -⟩ := hopens.unique hopens'
    exact Option.some.inj (hname.unique (substitutes_of_plain (by decide)))
  cases hat with
  | name hnames =>
      rw [hname _ hnames]
      show (0 : UInt8) ∉ [88, 58, 117]
      decide
  | option hnames hresolve _ _ hoptions _ hop =>
      rw [hname _ hnames] at hresolve
      have hall := (resolve_eq_some hresolve).2.1
      rw [show (splitName 0 [88, 58, 117]).2.map unescapeOption = [[117]] by decide, hoptions] at hall
      have hmem := hall ▸ List.mem_append_right _ List.mem_cons_self
      cases List.mem_singleton.mp hmem
      cases hop
      exact And.intro (fun hscans => by cases hscans) fun hthree => hthree.2.2

def slashedPath : List UInt8 := List.replicate 70 97 ++ [47]

/-- `$(X:F)` where `X` is a path that ends in a slash: the file name is empty, but the first bytes of the path
come back. -/
theorem interpolation_uncovers : ¬∀ (vars : Option VarTable) (chain : List VarTable),
    (∀ table ∈ chain, ∀ key values, table key = some values → ∀ item ∈ values, 0 ∉ item) →
    WellFounded (RefersTo vars.isSome (findFirst (vars.toList ++ chain))) → ∀ str : List UInt8,
    ∃ r, (∀ r', Substitutes vars.isSome (findFirst (vars.toList ++ chain)) str r' ↔ r' = r) ∧
      ∃ fuel₀, ∀ fuel ≥ fuel₀, Returns (luaInterpolate (EnvLookup.ofChain vars chain) fuel str) r := by
  intro h
  have hplain := plain_tableOfX slashedPath (by decide +kernel)
  have hzero : ∀ table ∈ [tableOfX slashedPath], ∀ key values, table key = some values → ∀ item ∈ values, 0 ∉ item := by
    intro table htable key values hvalues item hitem
    rw [List.mem_singleton.mp htable, tableOfX] at hvalues
    split_ifs at hvalues
    cases hvalues
    rw [List.mem_singleton.mp hitem]
    decide +kernel
  obtain ⟨r, hr, fuel₀, hfuel⟩ :=
    h none [tableOfX slashedPath] hzero (wellFounded_of_plain hplain) [36, 40, 88, 58, 70, 41]
  have hcode : luaInterpolate (EnvLookup.ofChain none [tableOfX slashedPath]) 100 [36, 40, 88, 58, 70, 41] =
    .ok (List.replicate 64 97) := by
    decide +kernel
  have hreturns := hfuel (max fuel₀ 100) (le_max_left _ _)
  rw [(chain_luaInterpolate _ _).eq_of_le (by rw [hcode]; simp) (le_max_right fuel₀ 100), hcode] at hreturns
  have hopens : Opens false [36, 40, 88, 58, 70, 41] [88, 58, 70] [] :=
    @Opens.intro _ 36 [40, 88, 58, 70, 41] 3 (by decide) (by decide)
  have hvalue := substitutes_of_flat hopens (by decide) (by decide) (plain_of_resolve hplain)
  have hempty : nameValue (findFirst [tableOfX slashedPath]) some [88, 58, 70] = some [] := by decide +kernel
  rw [hempty] at hvalue
  rw [← (hr _).mp hvalue] at hreturns
  cases hreturns

end Tundra
