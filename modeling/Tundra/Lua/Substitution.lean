import Tundra.Lua.InterpolateText
import Tundra.Lua.StringRuns
import Mathlib.Data.List.Infix
import Mathlib.Logic.Relation

/-!
# Substitution

What interpolation is for: a reference stands for the items of a variable, which are strings with references in
turn. Here the value of a string is a list of bytes, and there are no buffers. A string that refers to itself by
way of the variables it names has no value.
-/

namespace Tundra

abbrev VarTable := List UInt8 → Option (List (List UInt8))

/-! ### Options -/

/-- The operation that an option applies to an item. Two of the options say which items are meant and how they
are joined, and apply none. -/
def optionOp : List UInt8 → Option (Option BufferOp)
  | 112 :: text => some (some (.prepend text))
  | 97 :: text => some (some (.append text))
  | 80 :: text => some (some (.prependUnless text))
  | 65 :: text => some (some (.appendUnless text))
  | 102 :: _ => some (some .toForwardSlashes)
  | 98 :: _ => some (some .toBackSlashes)
  | 110 :: _ => some (some .toForwardSlashes)
  | 117 :: _ => some (some .toUppercase)
  | 108 :: _ => some (some .toLowercase)
  | 66 :: _ => some (some .dropSuffix)
  | 70 :: _ => some (some .getFilename)
  | 68 :: _ => some (some .getFilenameDir)
  | 113 :: _ => some (some .quote)
  | 35 :: _ => some (some .escapeForCmdlineDefine)
  | 91 :: _ => some none
  | 106 :: _ => some none
  | _ => none

/-- What an option makes of the text of an item. -/
def transform (text option : List UInt8) :
    Option (List UInt8) := (optionOp option).map fun op => op.elim text (·.onList text)

def joinOption : List UInt8 → Option (List UInt8)
  | 106 :: text => some text
  | _ => none

def indexOption : List UInt8 → Option Int
  | 91 :: text => some (atoi text)
  | _ => none

/-- The text between the items: that of the last `j`, or a space. -/
def joinText (options : List (List UInt8)) : List UInt8 := ((options.filterMap joinOption).getLast?).getD [32]

/-- The items that are meant: the one of the last index, or all. Every index has to be that of an item. -/
def selectedItems (values options : List (List UInt8)) : Option (List (List UInt8)) :=
  if ∀ n ∈ options.filterMap indexOption, 1 ≤ n ∧ n ≤ values.length then
    some ((options.filterMap indexOption).getLast?.elim values fun n => values[n.toNat - 1]?.toList)
  else none

/-- The options and the items that a name stands for. -/
def resolve (find : VarTable) (name : List UInt8) : Option (List (List UInt8) × List (List UInt8)) :=
  if kMaxOptions < (splitName 0 name).2.length then none
  else (find (splitName 0 name).1).bind fun values =>
    (selectedItems values ((splitName 0 name).2.map unescapeOption)).map
      fun items => ((splitName 0 name).2.map unescapeOption, items)

/-! ### Values -/

def itemValue (value : List UInt8 → Option (List UInt8)) (options : List (List UInt8)) (item : List UInt8) :
    Option (List UInt8) :=
  (value item).bind fun text => options.foldlM transform text

/-- The text that a name stands for. -/
def nameValue (find : VarTable) (value : List UInt8 → Option (List UInt8)) (name : List UInt8) : Option (List UInt8) :=
  (resolve find name).bind fun (options, items) => (items.mapM (itemValue value options)).map
    (List.intercalate (joinText options))

/-- A string that begins with a reference: what stands in the parentheses, and what stands behind. -/
inductive Opens (hasVars : Bool) : List UInt8 → List UInt8 → List UInt8 → Prop
  | intro {ch : UInt8} {rest : List UInt8} {len : Nat} (hopens : opensVar hasVars ch rest = true)
      (hparen : findEndParen 0 rest.tail = some len) :
      Opens hasVars (ch :: rest) (rest.tail.take len) (rest.tail.drop (len + 1))

/-- The value of a string. What stands in the parentheses of a reference has its value first, which is a name;
then the items that the name stands for, and then what stands behind. -/
inductive Substitutes (hasVars : Bool) (find : VarTable) : List UInt8 → Option (List UInt8) → Prop
  | nil : Substitutes hasVars find [] (some [])
  | char {ch : UInt8} {rest : List UInt8} {r : Option (List UInt8)} (hopens : opensVar hasVars ch rest = false)
      (hrest : Substitutes hasVars find rest r) : Substitutes hasVars find (ch :: rest) (r.map (ch :: ·))
  | unbalanced {ch : UInt8} {rest : List UInt8} (hopens : opensVar hasVars ch rest = true)
      (hparen : findEndParen 0 rest.tail = none) :
      Substitutes hasVars find (ch :: rest) none
  | reference {text inside after : List UInt8} {name r : Option (List UInt8)} (hopens : Opens hasVars text inside after)
      (hname : Substitutes hasVars find inside name) (value : List UInt8 → Option (List UInt8))
      (hitems : ∀ options items, name.bind (resolve find) = some (options, items) →
        ∀ item ∈ items, Substitutes hasVars find item (value item))
      (hafter : (name.bind (nameValue find value)).isSome → Substitutes hasVars find after r) :
      Substitutes hasVars find text ((name.bind (nameValue find value)).bind fun front => r.map (front ++ ·))

variable {hasVars : Bool} {find : VarTable} {text text' inside after name item key : List UInt8}
  {r r' : Option (List UInt8)}

theorem Opens.unique {inside' after' : List UInt8} (h : Opens hasVars text inside after)
    (h' : Opens hasVars text inside' after') :
    inside = inside' ∧ after = after' := by
  cases h with
  | intro _ hparen =>
      cases h' with
      | intro _ hparen' =>
          cases hparen.symm.trans hparen'
          exact ⟨rfl, rfl⟩

theorem Opens.shorter (h : Opens hasVars text inside after) :
    inside.length < text.length ∧ after.length < text.length := by
  cases h with
  | intro _ _ =>
      simp only [List.length_take, List.length_drop, List.length_tail, List.length_cons]
      omega

theorem mapM_congr_of_mem {α β : Type} {f g : α → Option β} {l : List α} (h : ∀ a ∈ l, f a = g a) :
    l.mapM f = l.mapM g := by
  induction l with
  | nil => rfl
  | cons a l ih =>
      rw [List.mapM_cons, List.mapM_cons, h a List.mem_cons_self, ih fun a ha => h a (List.mem_cons_of_mem _ ha)]

theorem nameValue_congr {value value' : List UInt8 → Option (List UInt8)}
    (h : ∀ options items, resolve find name = some (options, items) → ∀ item ∈ items, value item = value' item) :
    nameValue find value name = nameValue find value' name := by
  rw [nameValue, nameValue]
  cases hresolve : resolve find name with
  | none => rfl
  | some resolved =>
      obtain ⟨options, items⟩ := resolved
      have hitem : ∀ item ∈ items, itemValue value options item = itemValue value' options item := by
        intro item hmem
        rw [itemValue, itemValue, h options items hresolve item hmem]
      simp only [Option.bind_some]
      rw [mapM_congr_of_mem hitem]

theorem Substitutes.unique (h : Substitutes hasVars find text r) (h' : Substitutes hasVars find text r') : r = r' := by
  induction h generalizing r' with
  | nil =>
      cases h' with
      | nil => rfl
      | reference hopens _ _ _ _ => cases hopens
  | char hopens _ ih =>
      cases h' with
      | char _ hrest => rw [ih hrest]
      | unbalanced hopens' _ => cases hopens.symm.trans hopens'
      | reference hopens' _ _ _ _ =>
          cases hopens' with
          | intro hopens' _ => cases hopens.symm.trans hopens'
  | unbalanced hopens hparen =>
      cases h' with
      | char hopens' _ => cases hopens.symm.trans hopens'
      | unbalanced _ _ => rfl
      | reference hopens' _ _ _ _ =>
          cases hopens' with
          | intro _ hparen' => cases hparen.symm.trans hparen'
  | @reference text inside after name r hopens hname value hitems hafter ihname ihitems ihafter =>
      cases h' with
      | nil => cases hopens
      | char hopens' _ =>
          cases hopens with
          | intro hopens _ => cases hopens.symm.trans hopens'
      | unbalanced hopens' hparen' =>
          cases hopens with
          | intro _ hparen => cases hparen.symm.trans hparen'
      | @reference _ inside' after' name' r' hopens' hname' value' hitems' hafter' =>
          obtain ⟨rfl, rfl⟩ := hopens.unique hopens'
          obtain rfl := ihname hname'
          have hvalue : name.bind (nameValue find value) = name.bind (nameValue find value') := by
            cases name with
            | none => rfl
            | some name =>
                exact nameValue_congr fun options items hresolve item hmem =>
                  ihitems options items hresolve item hmem (hitems' options items hresolve item hmem)
          rw [← hvalue] at hafter' ⊢
          cases hfront : name.bind (nameValue find value) with
          | none => rfl
          | some front =>
              have hsome : (name.bind (nameValue find value)).isSome := by
                rw [hfront]
                rfl
              rw [ihafter hsome (hafter' hsome)]

/-! ### What a string expands -/

/-- A string begins with a reference to a name. -/
def Names (hasVars : Bool) (find : VarTable) (text name : List UInt8) : Prop :=
  ∃ inside after, Opens hasVars text inside after ∧ Substitutes hasVars find inside (some name)

/-- An item has a value, and every option is one. -/
def Succeeds (hasVars : Bool) (find : VarTable) (options : List (List UInt8)) (item : List UInt8) : Prop :=
  ∃ value, Substitutes hasVars find item (some value) ∧ (options.foldlM transform value).isSome

/-- The strings that are expanded to expand a string: what stands in the parentheses, the items of the name up
to the first that fails, and the rest. -/
inductive Expands (hasVars : Bool) (find : VarTable) : List UInt8 → List UInt8 → Prop
  | rest {ch : UInt8} {rest : List UInt8} (hopens : opensVar hasVars ch rest = false) : Expands hasVars find
      (ch :: rest) rest
  | inside {text inside after : List UInt8} (hopens : Opens hasVars text inside after) : Expands hasVars find text
      inside
  | item {text name item : List UInt8} {options front back : List (List UInt8)} (hnames : Names hasVars find text name)
      (hresolve : resolve find name = some (options, front ++ item :: back))
        (hfront : ∀ item ∈ front, Succeeds hasVars find options item) :
      Expands hasVars find text item
  | after {text inside after name : List UInt8} {options items : List (List UInt8)}
      (hopens : Opens hasVars text inside after)
      (hname : Substitutes hasVars find inside (some name)) (hresolve : resolve find name = some (options, items))
      (hitems : ∀ item ∈ items, Succeeds hasVars find options item) : Expands hasVars find text after

/-- Expanding a string looks up a key. -/
def LooksUp (hasVars : Bool) (find : VarTable) (text key : List UInt8) : Prop :=
  ∃ text' name, Relation.ReflTransGen (Expands hasVars find) text text' ∧ Names hasVars find text' name ∧
    (splitName 0 name).2.length ≤ kMaxOptions ∧ (splitName 0 name).1 = key

/-- Expanding a string of a variable looks up another one. -/
def RefersTo (hasVars : Bool) (find : VarTable) (key' key : List UInt8) : Prop :=
  ∃ values item, find key = some values ∧ item ∈ values ∧ LooksUp hasVars find item key'

theorem LooksUp.of_expands (hexpands : Expands hasVars find text text') (h : LooksUp hasVars find text' key) :
    LooksUp hasVars find text key := by
  obtain ⟨last, name, hreach, hnames, hcount, hkey⟩ := h
  exact ⟨last, name, .head hexpands hreach, hnames, hcount, hkey⟩

theorem mem_of_selectedItems {values options items : List (List UInt8)}
    (h : selectedItems values options = some items) (hitem : item ∈ items) :
    item ∈ values := by
  rw [selectedItems] at h
  split_ifs at h
  cases h
  cases hlast : (options.filterMap indexOption).getLast? with
  | none =>
      rw [hlast] at hitem
      exact hitem
  | some n =>
      rw [hlast, Option.elim_some, Option.mem_toList] at hitem
      exact List.mem_of_getElem? hitem

theorem resolve_eq_some {options items : List (List UInt8)} (h : resolve find name = some (options, items)) :
    (splitName 0 name).2.length ≤ kMaxOptions ∧ options = (splitName 0 name).2.map unescapeOption ∧
      ∃ values, find (splitName 0 name).1 = some values ∧ selectedItems values options = some items := by
  rw [resolve] at h
  split_ifs at h with hcount
  obtain ⟨values, hvalues, hselected⟩ := Option.bind_eq_some_iff.mp h
  obtain ⟨_, hitems, heq⟩ := Option.map_eq_some_iff.mp hselected
  cases heq
  exact ⟨Nat.le_of_not_lt hcount, rfl, values, hvalues, hitems⟩

theorem mapM_isSome_of_mem {α β : Type} {f : α → Option β} {l : List α} (h : (l.mapM f).isSome) :
    ∀ a ∈ l, (f a).isSome := by
  induction l with
  | nil => intro a ha; cases ha
  | cons b l ih =>
      rw [List.mapM_cons] at h
      cases hb : f b with
      | none => simp [hb] at h
      | some y =>
          intro a ha
          rcases List.mem_cons.mp ha with rfl | ha
          · rw [hb]
            rfl
          · refine ih ?_ a ha
            cases hl : l.mapM f with
            | none => simp [hb, hl] at h
            | some ys => rfl

theorem succeeds_of_itemValue {value : List UInt8 → Option (List UInt8)} {options : List (List UInt8)}
    (hitem : Substitutes hasVars find item (value item)) (hsome : (itemValue value options item).isSome) :
    Succeeds hasVars find options item := by
  rw [itemValue] at hsome
  cases hvalue : value item with
  | none =>
      rw [hvalue] at hsome
      cases hsome
  | some v =>
      rw [hvalue, Option.bind_some] at hsome
      exact ⟨v, hvalue ▸ hitem, hsome⟩

theorem succeeds_of_nameValue {value : List UInt8 → Option (List UInt8)} {options items : List (List UInt8)}
    (hresolve : resolve find name = some (options, items))
    (hitems : ∀ item ∈ items, Substitutes hasVars find item (value item))
    (hsome : (nameValue find value name).isSome) : ∀ item ∈ items, Succeeds hasVars find options item := by
  intro item hitem
  rw [nameValue, hresolve, Option.bind_some, Option.isSome_map] at hsome
  exact succeeds_of_itemValue (hitems item hitem) (mapM_isSome_of_mem hsome item hitem)

open Classical in
noncomputable def valueOf (hasVars : Bool) (find : VarTable) (text : List UInt8) : Option (List UInt8) :=
  if h : ∃ r, Substitutes hasVars find text r then h.choose else none

theorem valueOf_spec (h : ∃ r, Substitutes hasVars find text r) :
    Substitutes hasVars find text (valueOf hasVars find text) := by
  rw [valueOf, dif_pos h]
  exact h.choose_spec

/-- A string has a value when the items of all variables that it looks up have one. By induction on the length
of the string. -/
theorem exists_substitutes_of_items
    (h : ∀ key, LooksUp hasVars find text key → ∀ values, find key = some values →
    ∀ item ∈ values, ∃ r, Substitutes hasVars find item r) :
    ∃ r, Substitutes hasVars find text r := by
  induction hn : text.length using Nat.strong_induction_on generalizing text with
  | h n ih =>
      subst hn
      have hsub : ∀ text', Expands hasVars find text text' → text'.length < text.length →
        ∃ r, Substitutes hasVars find text' r :=
        fun text' hexpands hshorter => ih _ hshorter (fun key hkey => h key (hkey.of_expands hexpands)) rfl
      cases text with
      | nil => exact ⟨_, .nil⟩
      | cons ch rest =>
          cases hopens : opensVar hasVars ch rest with
          | false =>
              obtain ⟨r, hr⟩ := hsub rest (.rest hopens) (Nat.lt_succ_self _)
              exact ⟨_, .char hopens hr⟩
          | true =>
              cases hparen : findEndParen 0 rest.tail with
              | none => exact ⟨_, .unbalanced hopens hparen⟩
              | some len =>
                  have hreference : Opens hasVars (ch :: rest) (rest.tail.take len) (rest.tail.drop (len + 1)) :=
                    .intro hopens hparen
                  obtain ⟨name, hname⟩ := hsub _ (.inside hreference) hreference.shorter.1
                  have hvalue : ∀ options items, name.bind (resolve find) = some (options, items) →
                      ∀ item ∈ items, Substitutes hasVars find item (valueOf hasVars find item) := by
                    intro options items hresolve item hitem
                    obtain ⟨name, rfl, hresolve⟩ := Option.bind_eq_some_iff.mp hresolve
                    obtain ⟨hcount, -, values, hvalues, hselected⟩ := resolve_eq_some hresolve
                    exact valueOf_spec (h _ ⟨_, name, .refl, ⟨_, _, hreference, hname⟩, hcount, rfl⟩ values hvalues item
                      (mem_of_selectedItems hselected hitem))
                  by_cases hsome : (name.bind (nameValue find (valueOf hasVars find))).isSome
                  · obtain ⟨front, hfront⟩ := Option.isSome_iff_exists.mp hsome
                    obtain ⟨name, rfl, hnamed⟩ := Option.bind_eq_some_iff.mp hfront
                    obtain ⟨⟨options, items⟩, hresolve, -⟩ := Option.bind_eq_some_iff.mp hnamed
                    have hsucceeds := succeeds_of_nameValue hresolve (hvalue options items hresolve) hsome
                    obtain ⟨r, hr⟩ := hsub _ (.after hreference hname hresolve hsucceeds) hreference.shorter.2
                    exact ⟨_, .reference hreference hname _ hvalue fun _ => hr⟩
                  · exact ⟨_, .reference (r := none) hreference hname _ hvalue fun hsome' => absurd hsome' hsome⟩

/-- Every string has a value where no variable refers to itself. -/
theorem exists_substitutes (hwf : WellFounded (RefersTo hasVars find)) (text : List UInt8) :
    ∃ r, Substitutes hasVars find text r := by
  have hitems : ∀ key values, find key = some values → ∀ item ∈ values, ∃ r, Substitutes hasVars find item r := by
    intro key
    induction key using hwf.induction with
    | h key ih =>
        intro values hvalues item hitem
        exact exists_substitutes_of_items fun key' hkey' => ih key' ⟨values, item, hvalues, hitem, hkey'⟩
  exact exists_substitutes_of_items fun key _ => hitems key

/-! ### Strings without references -/

theorem not_opens_of_plain (h : 36 ∉ text) : ¬Opens hasVars text inside after := by
  rintro ⟨hopens, -⟩
  rw [opensVar, decide_eq_true_eq] at hopens
  exact h (hopens.1 ▸ List.mem_cons_self)

theorem substitutes_of_plain (h : 36 ∉ text) : Substitutes hasVars find text (some text) := by
  induction text with
  | nil => exact .nil
  | cons ch rest ih =>
      rw [List.mem_cons, not_or] at h
      exact .char (opensVar_of_not_opens fun hopens => h.1 hopens.1.symm) (ih h.2)

theorem plain_of_expands (h : 36 ∉ text) (hexpands : Expands hasVars find text text') : 36 ∉ text' := by
  cases hexpands with
  | rest _ => exact fun hmem => h (List.mem_cons_of_mem _ hmem)
  | inside hopens => exact absurd hopens (not_opens_of_plain h)
  | item hnames _ _ =>
      obtain ⟨_, _, hopens, _⟩ := hnames
      exact absurd hopens (not_opens_of_plain h)
  | after hopens _ _ _ => exact absurd hopens (not_opens_of_plain h)

theorem plain_of_reach (h : 36 ∉ text) (hreach : Relation.ReflTransGen (Expands hasVars find) text text') :
    36 ∉ text' := by
  induction hreach with
  | refl => exact h
  | tail _ hexpands ih => exact plain_of_expands ih hexpands

/-- Variables whose strings have no references do not refer to anything. -/
theorem wellFounded_of_plain (h : ∀ key values, find key = some values → ∀ item ∈ values, 36 ∉ item) :
    WellFounded (RefersTo hasVars find) := by
  refine ⟨fun key => ⟨key, fun key' hrefers => ?_⟩⟩
  obtain ⟨values, item, hvalues, hitem, text', name, hreach, ⟨_, _, hopens, _⟩, -⟩ := hrefers
  exact absurd hopens (not_opens_of_plain (plain_of_reach (h key values hvalues item hitem) hreach))

/-- A string that begins with a reference to a name without references, to items without references. -/
theorem substitutes_of_flat (hopens : Opens hasVars text inside after) (hinside : 36 ∉ inside) (hafter : 36 ∉ after)
    (hitems : ∀ options items, resolve find inside = some (options, items) → ∀ item ∈ items, 36 ∉ item) :
    Substitutes hasVars find text ((nameValue find some inside).map (· ++ after)) := by
  have h := Substitutes.reference hopens (substitutes_of_plain hinside) some
    (fun options items hresolve item hitem => substitutes_of_plain (hitems options items hresolve item hitem))
      fun _ => substitutes_of_plain hafter
  rw [Option.bind_some] at h
  cases hvalue : nameValue find some inside with
  | none =>
      rw [hvalue] at h
      exact h
  | some front =>
      rw [hvalue] at h
      exact h

end Tundra
