import Tundra.Lua.Interpolate
import Mathlib.Data.List.Basic

/-!
# The text of an interpolation

Interpolation puts its text at the end of a buffer. Here it is looked at as a function from strings to texts,
which are put one after the other: a byte that opens no reference is copied, and a reference gives the text of
its items.
-/

namespace Tundra

/-! ### The text of an interpolation -/

def appendText (x y : Outcome InterpolateError (List UInt8)) : Outcome InterpolateError (List UInt8) := do
  let text ← x
  let text' ← y
  return text ++ text'

theorem appendText_eq (x y : Outcome InterpolateError (List UInt8)) :
    appendText x y = x >>= fun text => (text ++ ·) <$> y := by
  cases x with
  | ok text => cases y <;> rfl
  | error err => rfl
  | outOfFuel => rfl

theorem appendText_assoc (x y z : Outcome InterpolateError (List UInt8)) :
    appendText (appendText x y) z = appendText x (appendText y z) := by
  cases x <;> cases y <;> cases z <;> simp [appendText]

@[simp] theorem appendText_nil (x : Outcome InterpolateError (List UInt8)) : appendText x (.ok []) = x := by
  cases x <;> simp [appendText]

@[simp] theorem nil_appendText (x : Outcome InterpolateError (List UInt8)) : appendText (.ok []) x = x := by
  cases x <;> simp [appendText]

@[simp] theorem appendText_ok (text text' : List UInt8) : appendText (.ok text) (.ok text') = .ok (text ++ text') := rfl

def itemText (interpolate : Interpolation) (options : List (List UInt8)) (str : List UInt8) :
    Outcome InterpolateError (List UInt8) := do
  let item ← interpolate .empty str
  match options.foldlM applyOption item with
  | none => .error .interpolationFailed
  | some item => return item.contents

def itemsText (interpolate : Interpolation) (options : List (List UInt8)) (joinString : List UInt8) :
    Bool → List (List UInt8) → Outcome InterpolateError (List UInt8)
  | _, [] => .ok []
  | first, str :: rest =>
      appendText (.ok (if first then [] else joinString))
        (appendText (itemText interpolate options str) (itemsText interpolate options joinString false rest))

theorem contents_addItems (interpolate : Interpolation) (options : List (List UInt8)) (joinString : List UInt8)
    (items : List (List UInt8)) (first : Bool) (output : StringBuffer) :
    StringBuffer.contents <$> addItems interpolate options joinString first output items =
      (output.contents ++ ·) <$> itemsText interpolate options joinString first items := by
  induction items generalizing first output with
  | nil => simp [addItems, itemsText]
  | cons text rest ih =>
      rw [addItems, itemsText, itemText]
      cases interpolate .empty text with
      | error err => rfl
      | outOfFuel => rfl
      | ok item =>
          simp only [Outcome.ok_bind]
          cases options.foldlM applyOption item with
          | none => rfl
          | some item =>
              simp only
              rw [ih]
              cases itemsText interpolate options joinString false rest <;> cases first <;> simp [appendText]

def namedText (interpolate : Interpolation) (lookup : EnvLookup) (name : List UInt8) :
    Outcome InterpolateError (List UInt8) :=
  StringBuffer.contents <$> addVar interpolate lookup .empty name

def varText (interpolate : Interpolation) (lookup : EnvLookup) (str : List UInt8) :
    Outcome InterpolateError (List UInt8) :=
  StringBuffer.contents <$> interpolateVar interpolate lookup .empty str

theorem contents_addVar (interpolate : Interpolation) (lookup : EnvLookup) (output : StringBuffer) (name : List UInt8) :
    StringBuffer.contents <$> addVar interpolate lookup output name = (output.contents ++ ·) <$>
    namedText interpolate lookup name := by
  simp only [namedText, addVar, lookupVar]
  split_ifs
  · rfl
  · cases lookup.find (splitName 0 (name.takeWhile (· ≠ 0))).1 with
    | none => rfl
    | some values =>
        simp only
        generalize List.foldlM (selectOption values.length) _ _ = selection
        cases selection with
        | none => rfl
        | some s =>
            simp only [contents_addItems]
            cases itemsText interpolate _ s.joinString true _ <;> simp

theorem contents_interpolateVar (interpolate : Interpolation) (lookup : EnvLookup) (output : StringBuffer)
    (str : List UInt8) :
    StringBuffer.contents <$> interpolateVar interpolate lookup output str = (output.contents ++ ·) <$>
    varText interpolate lookup str := by
  simp only [varText, interpolateVar]
  cases interpolate .empty str with
  | ok varName => exact contents_addVar interpolate lookup output varName.contents
  | error err => rfl
  | outOfFuel => rfl

variable {lookup : EnvLookup}

/-- Interpolation puts its text behind what is in the buffer, with any fuel. -/
theorem contents_doInterpolate (lookup : EnvLookup) (fuel : Nat) (output : StringBuffer) (str : List UInt8) :
    StringBuffer.contents <$> doInterpolate lookup fuel output str = (output.contents ++ ·) <$>
    luaInterpolate lookup fuel str := by
  induction fuel generalizing output str with
  | zero => rfl
  | succ fuel ih =>
      rw [luaInterpolate]
      cases str with
      | nil => simp [doInterpolate]
      | cons ch rest =>
          rw [doInterpolate, doInterpolate]
          split_ifs with hopens
          · cases findEndParen 0 rest.tail with
            | none => rfl
            | some len =>
                have hvar := contents_interpolateVar (doInterpolate lookup fuel) lookup output (rest.tail.take len)
                rw [varText, Functor.map_map] at hvar
                simp only
                rw [Functor.map_map]
                refine Outcome.map_bind_congr hvar fun second first h => ?_
                refine Eq.trans ?_ (Functor.map_map StringBuffer.contents (output.contents ++ ·) _)
                rw [ih second, ih first, h]
                cases luaInterpolate lookup fuel (rest.tail.drop (len + 1)) <;> simp
          · rw [ih (output.add [ch]), ih (StringBuffer.empty.add [ch])]
            cases luaInterpolate lookup fuel rest <;> simp

theorem contents_interpolateBuffer (lookup : EnvLookup) (output : StringBuffer) (str : List UInt8) :
    StringBuffer.contents <$> interpolateBuffer lookup output str = (output.contents ++ ·) <$>
    nenvInterpolate lookup str := by
  have hlimit : ∀ {β : Type} (f : StringBuffer → β) (b : StringBuffer),
      f <$> interpolateBuffer lookup b str = Outcome.limit fun fuel => f <$> doInterpolate lookup fuel b str := by
    intro β f b
    simp only [map_eq_pure_bind]
    rw [Outcome.limit_bind (chain_doInterpolate lookup b str) fun _ _ => .refl _]
    simp only [Outcome.limit_const]
    rfl
  rw [nenvInterpolate, Functor.map_map, hlimit, hlimit]
  congr 1
  funext fuel
  rw [contents_doInterpolate, luaInterpolate, Functor.map_map]

@[simp] theorem nenvInterpolate_nil (lookup : EnvLookup) : nenvInterpolate lookup [] = .ok [] := by
  rw [nenvInterpolate, interpolateBuffer_nil]
  rfl

theorem nenvInterpolate_char {ch : UInt8} {rest : List UInt8} (h : opensVar lookup.vars.isSome ch rest = false) :
    nenvInterpolate lookup (ch :: rest) = appendText (.ok [ch]) (nenvInterpolate lookup rest) := by
  rw [nenvInterpolate, interpolateBuffer_char h, contents_interpolateBuffer, appendText_eq]
  rfl

theorem nenvInterpolate_unbalanced {ch : UInt8} {rest : List UInt8} (h : opensVar lookup.vars.isSome ch rest = true)
    (hparen : findEndParen 0 rest.tail = none) : nenvInterpolate lookup (ch :: rest) = .error .interpolationFailed := by
  rw [nenvInterpolate, interpolateBuffer_unbalanced h hparen]
  rfl

/-- The text of a reference is that of the name it comes to. -/
theorem varText_eq (lookup : EnvLookup) (str : List UInt8) :
    varText (interpolateBuffer lookup) lookup str = nenvInterpolate lookup str >>= namedText
    (interpolateBuffer lookup) lookup := by
  rw [varText, interpolateVar, map_bind, nenvInterpolate]
  cases interpolateBuffer lookup .empty str <;> rfl

theorem nenvInterpolate_var {ch : UInt8} {rest : List UInt8} {len : Nat}
    (h : opensVar lookup.vars.isSome ch rest = true) (hparen : findEndParen 0 rest.tail = some len) :
    nenvInterpolate lookup (ch :: rest) = appendText
    (nenvInterpolate lookup (rest.tail.take len) >>= namedText (interpolateBuffer lookup) lookup)
      (nenvInterpolate lookup (rest.tail.drop (len + 1))) := by
  rw [nenvInterpolate, interpolateBuffer_var h hparen, ← varText_eq, varText, appendText_eq]
  cases interpolateVar (interpolateBuffer lookup) lookup .empty (rest.tail.take len) with
  | ok output => exact contents_interpolateBuffer lookup output _
  | error err => rfl
  | outOfFuel => rfl

/-! ### Text without references -/

/-- Whether a reference begins in a text that is followed by another. -/
def opensIn : List UInt8 → List UInt8 → Bool
  | [], _ => false
  | ch :: text, after => (ch = 36 ∧ (text ++ after).head? = some 40) || opensIn text after

theorem opensVar_of_not_opens {hasVars : Bool} {ch : UInt8} {rest : List UInt8}
    (h : ¬ (ch = 36 ∧ rest.head? = some 40)) :
    opensVar hasVars ch rest = false := by
  rw [opensVar, decide_eq_false_iff_not]
  exact fun hopens => h ⟨hopens.1, hopens.2.1⟩

theorem nenvInterpolate_text {text after : List UInt8} (h : opensIn text after = false) :
    nenvInterpolate lookup (text ++ after) = appendText (.ok text) (nenvInterpolate lookup after) := by
  induction text with
  | nil => rw [List.nil_append, nil_appendText]
  | cons ch text ih =>
      simp only [opensIn, Bool.or_eq_false_iff, decide_eq_false_iff_not] at h
      rw [List.cons_append, nenvInterpolate_char (opensVar_of_not_opens h.1), ih h.2, ← appendText_assoc]
      rfl

/-! ### Balanced text -/

theorem getElem?_findEndParen {nesting len : Nat} {str : List UInt8} (h : findEndParen nesting str = some len) :
    str[len]? = some 41 := by
  fun_induction findEndParen generalizing len with
  | case1 => cases h
  | case2 nesting rest ih =>
      obtain ⟨k, hk, rfl⟩ := Option.map_eq_some_iff.mp h
      exact ih hk
  | case3 rest =>
      cases h
      rfl
  | case4 nesting rest ih =>
      obtain ⟨k, hk, rfl⟩ := Option.map_eq_some_iff.mp h
      exact ih hk
  | case5 nesting ch rest _ _ _ ih =>
      obtain ⟨k, hk, rfl⟩ := Option.map_eq_some_iff.mp h
      exact ih hk

theorem findEndParen_append {nesting len : Nat} {str : List UInt8} (h : findEndParen nesting str = some len)
    (more : List UInt8) :
    findEndParen nesting (str ++ more) = some len := by
  fun_induction findEndParen generalizing len with
  | case1 => cases h
  | case2 nesting rest ih =>
      obtain ⟨k, hk, rfl⟩ := Option.map_eq_some_iff.mp h
      simp [findEndParen, ih hk]
  | case3 rest =>
      cases h
      rfl
  | case4 nesting rest ih =>
      obtain ⟨k, hk, rfl⟩ := Option.map_eq_some_iff.mp h
      simp [findEndParen, ih hk]
  | case5 nesting ch rest h40 _ h41 ih =>
      obtain ⟨k, hk, rfl⟩ := Option.map_eq_some_iff.mp h
      simp_all [findEndParen]

theorem eq_of_findEndParen {len : Nat} {str : List UInt8} (h : findEndParen 0 str = some len) :
    str = str.take len ++ 41 :: str.drop (len + 1) ∧ (str.take len).length = len := by
  obtain ⟨hlt, hget⟩ := List.getElem?_eq_some_iff.mp (getElem?_findEndParen h)
  refine ⟨?_, List.length_take_of_le hlt.le⟩
  rw [← hget, List.getElem_cons_drop, List.take_append_drop]

theorem findEndParen_other {ch : UInt8} (h40 : ch ≠ 40) (h41 : ch ≠ 41) (nesting : Nat) (rest : List UInt8) :
    findEndParen nesting (ch :: rest) = (findEndParen nesting rest).map (· + 1) := by
  rw [findEndParen]
  · exact h40
  · exact fun _ => h41
  · exact fun _ _ => h41

/-- One byte less of a text that ends where a parenthesis closes. -/
theorem findEndParen_tail {nesting : Nat} {ch : UInt8} {text text' : List UInt8}
    (h : (findEndParen nesting text).map (· + 1) = some (ch :: text').length) :
    findEndParen nesting text = some text'.length := by
  obtain ⟨len, hlen, hsucc⟩ := Option.map_eq_some_iff.mp h
  rw [List.length_cons, Nat.succ.injEq] at hsucc
  rw [hlen, hsucc]

/-- A parenthesis that is open inside a text that ends where an outer one closes is closed in the text. -/
theorem findEndParen_inner {inner outer : Nat} {text after : List UInt8}
    (h : findEndParen (inner + (outer + 1)) (text ++ 41 :: after) = some text.length) :
    ∃ k < text.length, findEndParen inner text = some k ∧
      findEndParen outer (text.drop (k + 1) ++ 41 :: after) = some (text.drop (k + 1)).length := by
  induction text generalizing inner with
  | nil =>
      obtain ⟨k, -, hk⟩ := Option.map_eq_some_iff.mp h
      simp at hk
  | cons ch text ih =>
      have hnest : ∀ {inner' : Nat}, findEndParen (inner' + (outer + 1)) (text ++ 41 :: after) = some text.length →
          findEndParen inner (ch :: text) = (findEndParen inner' text).map (· + 1) → ∃ k < (ch :: text).length,
            findEndParen inner (ch :: text) = some k ∧
              findEndParen outer ((ch :: text).drop (k + 1) ++ 41 :: after) =
                some ((ch :: text).drop (k + 1)).length := by
        intro inner' h' hstep
        obtain ⟨k, hlt, hk, hrest⟩ := ih h'
        refine ⟨k + 1, Nat.succ_lt_succ hlt, ?_, hrest⟩
        rw [hstep, hk]
        rfl
      rw [List.cons_append] at h
      by_cases h40 : ch = 40
      · subst h40
        rw [findEndParen, show inner + (outer + 1) + 1 = inner + 1 + (outer + 1) by omega] at h
        exact hnest (findEndParen_tail h) rfl
      by_cases h41 : ch = 41
      · subst h41
        cases inner with
        | zero =>
            rw [Nat.zero_add, findEndParen] at h
            exact ⟨0, Nat.succ_pos _, rfl, findEndParen_tail h⟩
        | succ inner =>
            rw [show inner + 1 + (outer + 1) = inner + (outer + 1) + 1 by omega, findEndParen] at h
            exact hnest (findEndParen_tail h) rfl
      · rw [findEndParen_other h40 h41] at h
        exact hnest (findEndParen_tail h) (findEndParen_other h40 h41 inner text)

theorem exists_findEndParen_tail {nesting : Nat} {ch : UInt8} {text after : List UInt8}
    (h : findEndParen nesting (ch :: (text ++ 41 :: after)) = some (ch :: text).length) :
    ∃ nesting', findEndParen nesting' (text ++ 41 :: after) = some text.length := by
  by_cases h40 : ch = 40
  · subst h40
    exact ⟨nesting + 1, findEndParen_tail h⟩
  by_cases h41 : ch = 41
  · subst h41
    cases nesting with
    | zero =>
        rw [findEndParen] at h
        simp at h
    | succ nesting => exact ⟨nesting, findEndParen_tail h⟩
  · rw [findEndParen_other h40 h41] at h
    exact ⟨nesting, findEndParen_tail h⟩

/-- Whether a reference begins does not depend on what stands behind a balanced text. -/
theorem opensVar_balanced {nesting : Nat} {ch : UInt8} {body after : List UInt8} (hasVars : Bool)
    (h : findEndParen nesting (ch :: (body ++ 41 :: after)) = some (ch :: body).length) :
    opensVar hasVars ch (body ++ 41 :: after) = opensVar hasVars ch body := by
  rw [opensVar, opensVar, decide_eq_decide]
  refine and_congr_right fun hch => ?_
  subst hch
  rw [findEndParen_other (by decide) (by decide)] at h
  match body with
  | [] => simp
  | [next] =>
      refine iff_of_false (fun hopens => ?_) (fun hopens => ?_) <;>
      · obtain rfl : next = 40 := Option.some.inj hopens.1
        obtain ⟨k, -, hk⟩ := Option.map_eq_some_iff.mp (findEndParen_tail (findEndParen_tail h))
        simp at hk
  | next :: _ :: _ => rfl

theorem nenvInterpolate_balanced {nesting : Nat} {body after : List UInt8}
    (h : findEndParen nesting (body ++ 41 :: after) = some body.length) :
    nenvInterpolate lookup (body ++ 41 :: after) = appendText (nenvInterpolate lookup body)
    (nenvInterpolate lookup (41 :: after)) := by
  induction hn : body.length using Nat.strong_induction_on generalizing nesting body with
  | h n ih =>
      subst hn
      cases body with
      | nil => rw [List.nil_append, nenvInterpolate_nil, nil_appendText]
      | cons ch body =>
          rw [List.cons_append] at h ⊢
          have hbehind := opensVar_balanced lookup.vars.isSome h
          cases hopens : opensVar lookup.vars.isSome ch body with
          | true =>
              have hchar := hopens
              rw [opensVar, decide_eq_true_eq] at hchar
              obtain ⟨rfl, hhead, -⟩ := hchar
              obtain ⟨text, rfl⟩ : ∃ text, body = 40 :: text := ⟨body.tail, (List.cons_head?_tail hhead).symm⟩
              rw [findEndParen_other (by decide) (by decide)] at h
              have htext := findEndParen_tail (findEndParen_tail h)
              rw [← Nat.zero_add (nesting + 1)] at htext
              obtain ⟨k, hlt, hk, hrest⟩ := findEndParen_inner htext
              have hlength : (text.drop (k + 1)).length < (36 :: 40 :: text).length := by
                simp only [List.length_drop, List.length_cons]
                omega
              rw [nenvInterpolate_var (hbehind.trans hopens) (findEndParen_append hk _),
                nenvInterpolate_var hopens hk, appendText_assoc]
              simp only [List.cons_append, List.tail_cons]
              rw [← ih _ hlength hrest rfl, List.take_append_of_le_length hlt.le, List.drop_append_of_le_length hlt]
          | false =>
              obtain ⟨nesting', htail⟩ := exists_findEndParen_tail h
              rw [nenvInterpolate_char (hbehind.trans hopens), nenvInterpolate_char hopens, appendText_assoc,
                ← ih _ (Nat.lt_succ_self _) htail rfl]

end Tundra
