import Tundra.Lua.EnvCache
import Tundra.Lua.InterpolateText

/-!
# Interpolation in two stages

`envclass:interpolate` with per-call variables interpolates a string without them first, which leaves the
references `$(<...)` and `$(@...)` in place, and then interpolates the text that comes out. This gives what
interpolation in one stage does if the references left in place are passed on as they are, to the end of the
first stage, and the second stage finds no others in the text.

`separate` follows the first stage and cuts its text into pieces: text, and references to per-call variables. It
gives up where such a reference has a part in the name of another or meets an option that changes texts.
-/

namespace Tundra

section PerCall

variable (vars env : List UInt8 → Option (List (List UInt8)))

/-! ### Clean interpolation -/

/-- The variables of an environment that no per-call variable hides. -/
def withoutPerCall : EnvLookup := ⟨none, fun key => if (vars key).isSome then none else env key⟩

/-- Interpolation that fails for want of a per-call variable where it meets a reference to one. -/
def cleanInterpolate : Nat → Interpolation
  | 0, _, _ => .outOfFuel
  | _ + 1, output, [] => .ok output
  | fuel + 1, output, ch :: rest =>
      if ch = 36 ∧ rest.head? = some 40 then
        if isCallSign rest[1]? then .error (.noKey rest.tail)
        else
          match findEndParen 0 rest.tail with
          | none => .error .interpolationFailed
          | some len => do
              let output ← interpolateVar (cleanInterpolate fuel) (withoutPerCall vars env) output (rest.tail.take len)
              cleanInterpolate fuel output (rest.tail.drop (len + 1))
      else cleanInterpolate fuel (output.add [ch]) rest

def wantsPerCall : InterpolateError → Bool
  | .noKey key => isCallSign key.head? || (vars key).isSome
  | .interpolationFailed => false

/-- A lookup that has the variables of an environment where no per-call variable hides them. -/
def EnvLookup.Covers (lookup : EnvLookup) : Prop := ∀ key, vars key = none → lookup.find key = env key

variable {vars env} {lookup : EnvLookup}

theorem EnvLookup.Covers.below (h : lookup.Covers vars env) :
    (withoutPerCall vars env).Below (wantsPerCall vars · = true) lookup := by
  intro key
  cases hkey : vars key with
  | none =>
      refine .inl ?_
      rw [h key hkey]
      simp [EnvLookup.find, withoutPerCall, hkey]
  | some values => exact .inr ⟨by simp [EnvLookup.find, withoutPerCall, hkey], by simp [wantsPerCall, hkey]⟩

/-- Where no reference to a per-call variable is met, every lookup gives the same. -/
theorem cleanInterpolate_below (h : lookup.Covers vars env) (fuel : Nat) (output : StringBuffer) (str : List UInt8) :
    Outcome.Below (wantsPerCall vars · = true) (cleanInterpolate vars env fuel output str)
    (interpolateBuffer lookup output str) := by
  induction fuel generalizing output str with
  | zero => exact .outOfFuel _
  | succ fuel ih =>
      cases str with
      | nil =>
          rw [interpolateBuffer_nil]
          exact .refl _
      | cons ch rest =>
          rw [cleanInterpolate]
          split_ifs with hopens hsign
          · refine .error ?_ _
            rw [wantsPerCall, List.head?_tail, hsign, Bool.true_or]
          · have hvar : opensVar lookup.vars.isSome ch rest = true := by
              rw [opensVar, decide_eq_true_eq]
              exact ⟨hopens.1, hopens.2, .inr hsign⟩
            cases hparen : findEndParen 0 rest.tail with
            | none =>
                rw [interpolateBuffer_unbalanced hvar hparen]
                exact .refl _
            | some len =>
                rw [interpolateBuffer_var hvar hparen]
                exact (interpolateVar_below ih h.below _ _).bind fun output => ih output _
          · rw [interpolateBuffer_char (opensVar_of_not_opens hopens)]
            exact ih _ _

end PerCall

/-! ### The pieces of the first stage -/

/-- The text of the first stage in pieces: text, references to per-call variables with the pieces between their
parentheses, and references that are not closed. -/
inductive Pieces where
  | nil
  | text (bytes : List UInt8) (rest : Pieces)
  | callRef (body rest : Pieces)
  | unclosed (rest : Pieces)
deriving DecidableEq

namespace Pieces

/-- The text the pieces make up. -/
def render : Pieces → List UInt8
  | nil => []
  | text bytes rest => bytes ++ rest.render
  | callRef body rest => 36 :: 40 :: (body.render ++ 41 :: rest.render)
  | unclosed rest => 36 :: 40 :: rest.render

def append : Pieces → Pieces → Pieces
  | nil, more => more
  | text bytes rest, more => text bytes (rest.append more)
  | callRef body rest, more => callRef body (rest.append more)
  | unclosed rest, more => unclosed (rest.append more)

/-- In the text of the pieces, references begin only where one was left in place, and they end where they did. -/
def settled : Pieces → Bool
  | nil => true
  | text bytes rest => !opensIn bytes rest.render && rest.settled
  | callRef body rest => findEndParen 0 (body.render ++ [41]) = some body.render.length && body.settled && rest.settled
  | unclosed rest => findEndParen 0 rest.render = none

/-- An option that puts text in front of an item or behind it. -/
def addOption (pieces : Pieces) : List UInt8 → Pieces
  | 112 :: bytes => text bytes pieces
  | 97 :: bytes => pieces.append (text bytes nil)
  | _ => pieces

theorem render_append (pieces more : Pieces) : (pieces.append more).render = pieces.render ++ more.render := by
  induction pieces with
  | nil => rfl
  | text bytes rest ih => rw [append, render, ih, render, List.append_assoc]
  | callRef body rest _ ih => simp only [append, render, ih, List.cons_append, List.append_assoc]
  | unclosed rest ih => simp only [append, render, ih, List.cons_append]

end Pieces

/-- The cut of a string into pieces. It fails as interpolation does, or with no error of its own where it gives up. -/
abbrev Cut := Outcome (Option InterpolateError) Pieces

def Cut.append (r r' : Cut) : Cut := do
  let pieces ← r
  let pieces' ← r'
  return pieces.append pieces'

section Separate

variable (vars env : List UInt8 → Option (List (List UInt8))) (cut : List UInt8 → Cut) (clean : Interpolation)

/-- Give up where a clean interpolation wants a per-call variable. -/
def ofClean {α : Type} : Outcome InterpolateError α → Outcome (Option InterpolateError) α
  | .ok a => .ok a
  | .error err => .error (if wantsPerCall vars err then none else some err)
  | .outOfFuel => .outOfFuel

/-- The options that leave the text of an item as it is, and at most put text around it. -/
def isPlainOption (option : List UInt8) : Bool :=
  option.head? = some 106 ∨ option.head? = some 91 ∨ option.head? = some 112 ∨ option.head? = some 97

def isUnknownOption (option : List UInt8) : Bool := (applyOption .empty option).isNone

/-- An item under options that change its text must be clean. -/
def cutItem (options : List (List UInt8)) (str : List UInt8) : Cut :=
  if options.all isPlainOption then (options.foldl Pieces.addOption ·) <$> cut str
  else if options.any isUnknownOption then Cut.append (cut str) (.error (some .interpolationFailed))
  else do
    let item ← ofClean vars (clean .empty str)
    match options.foldlM applyOption item with
    | none => .error (some .interpolationFailed)
    | some item => return .text item.contents .nil

def cutItems (options : List (List UInt8)) (joinString : List UInt8) : Bool → List (List UInt8) → Cut
  | _, [] => .ok .nil
  | first, str :: rest =>
      Cut.append (.ok (.text (if first then [] else joinString) .nil))
        (Cut.append (cutItem vars cut clean options str) (cutItems options joinString false rest))

/-- A reference from its name on; the name must not be one of a per-call variable. -/
def cutName (name : List UInt8) : Cut :=
  let (key, options) := splitName 0 (name.takeWhile (· ≠ 0))
  if kMaxOptions < options.length then .error (some .interpolationFailed)
  else if (vars key).isSome then .error none
  else
    let options := options.map unescapeOption
    match env key with
    | none => .error (some (.noKey key))
    | some values =>
        match options.foldlM (selectOption values.length) ⟨[32], 0, values.length⟩ with
        | none => .error (some .interpolationFailed)
        | some s => cutItems vars cut clean options s.joinString true ((values.take s.maxIndex).drop s.firstIndex)

/-- A reference; its name must be clean. -/
def cutVar (str : List UInt8) : Cut := do
  let varName ← ofClean vars (clean .empty str)
  cutName vars env cut clean varName.contents

/-- The pieces a string comes to in the first stage, with fuel. -/
def separate : Nat → List UInt8 → Cut
  | 0, _ => .outOfFuel
  | _ + 1, [] => .ok .nil
  | fuel + 1, ch :: rest =>
      if ch = 36 ∧ rest.head? = some 40 then
        match findEndParen 0 rest.tail with
        | none =>
            if isCallSign rest[1]? then Cut.append (.ok (.unclosed .nil)) (separate fuel rest.tail)
              else .error (some .interpolationFailed)
        | some len =>
            let body := rest.tail.take len
            let reference :=
              if isCallSign rest[1]? then (Pieces.callRef · .nil) <$> separate fuel body
              else cutVar vars env (separate fuel) (cleanInterpolate vars env fuel) body
            Cut.append reference (separate fuel (rest.tail.drop (len + 1)))
      else Cut.append (.ok (.text [ch] .nil)) (separate fuel rest)

end Separate

/-! ### What a stage makes of the pieces -/

/-- A stage of interpolation: what it makes of pieces and of the text between the parentheses of a reference,
and when it does not succeed. -/
structure Stage (lookup : EnvLookup) (meaning : Pieces → Outcome InterpolateError (List UInt8))
    (close : List UInt8 → Outcome InterpolateError (List UInt8))
      (Fails : Outcome InterpolateError (List UInt8) → Prop) : Prop where
  nil : meaning .nil = .ok []
  text : ∀ bytes, meaning (.text bytes .nil) = .ok bytes
  append : ∀ pieces more, meaning (pieces.append more) = appendText (meaning pieces) (meaning more)
  meaning_callRef : ∀ body, meaning (.callRef body .nil) = meaning body >>= close
  callRef : ∀ body after, isCallSign (body ++ 41 :: after).head? = true →
    findEndParen 0 (body ++ 41 :: after) = some body.length →
    nenvInterpolate lookup (36 :: 40 :: (body ++ 41 :: after)) =
      appendText (nenvInterpolate lookup body >>= close) (nenvInterpolate lookup after)
  unclosed : ∀ rest, isCallSign rest.head? = true → findEndParen 0 rest = none →
    nenvInterpolate lookup (36 :: 40 :: rest) = appendText (meaning (.unclosed .nil)) (nenvInterpolate lookup rest)
  error : ∀ err, Fails (.error err)
  bind : ∀ x f, Fails x → Fails (x >>= f)
  right : ∀ pieces y, Fails y → Fails (appendText (meaning pieces) y)

/-- A stage follows a cut: it makes what it makes of the pieces, or it does not succeed either. -/
structure Follows (meaning : Pieces → Outcome InterpolateError (List UInt8))
    (Fails : Outcome InterpolateError (List UInt8) → Prop)
    (r : Cut) (x : Outcome InterpolateError (List UInt8)) : Prop where
  ok : ∀ pieces, r = .ok pieces → x = meaning pieces
  fails : ∀ err, r = .error (some err) → Fails x

section Follow

variable {lookup : EnvLookup} {meaning : Pieces → Outcome InterpolateError (List UInt8)}
  {close : List UInt8 → Outcome InterpolateError (List UInt8)} {Fails : Outcome InterpolateError (List UInt8) → Prop}
  {r r' : Cut} {x x' : Outcome InterpolateError (List UInt8)}

theorem Follows.of_none (x : Outcome InterpolateError (List UInt8)) : Follows meaning Fails (.error none) x where
  ok _ h := by cases h
  fails _ h := by cases h

theorem Follows.of_outOfFuel (x : Outcome InterpolateError (List UInt8)) : Follows meaning Fails .outOfFuel x where
  ok _ h := by cases h
  fails _ h := by cases h

theorem Follows.of_ok {pieces : Pieces} (h : x = meaning pieces) : Follows meaning Fails (.ok pieces) x where
  ok _ hpieces := by
    cases hpieces
    exact h
  fails _ herr := by cases herr

theorem Follows.of_fails {err : InterpolateError} (h : Fails x) : Follows meaning Fails (.error (some err)) x where
  ok _ h := by cases h
  fails _ _ := h

/-- A change of the pieces that a stage can make on their text. -/
theorem Follows.map {f : Pieces → Pieces} {g : List UInt8 → Outcome InterpolateError (List UInt8)}
    (h : Follows meaning Fails r x) (hfg : ∀ pieces, meaning (f pieces) = meaning pieces >>= g)
    (hfails : Fails x → Fails (x >>= g)) :
    Follows meaning Fails (f <$> r) (x >>= g) := by
  cases r with
  | outOfFuel => exact .of_outOfFuel _
  | ok pieces =>
      refine .of_ok ?_
      rw [hfg, h.ok pieces rfl]
  | error err =>
      cases err with
      | none => exact .of_none _
      | some err => exact .of_fails (hfails (h.fails err rfl))

variable (hstage : Stage lookup meaning close Fails)

include hstage

theorem Stage.left (h : Fails x) : Fails (appendText x x') := hstage.bind x _ h

theorem Follows.append (h : Follows meaning Fails r x) (h' : Follows meaning Fails r' x') :
    Follows meaning Fails (Cut.append r r') (appendText x x') := by
  cases r with
  | outOfFuel => exact .of_outOfFuel _
  | error err =>
      cases err with
      | none => exact .of_none _
      | some err => exact .of_fails (hstage.left (h.fails err rfl))
  | ok pieces =>
      rw [h.ok pieces rfl]
      cases r' with
      | outOfFuel => exact .of_outOfFuel _
      | error err =>
          cases err with
          | none => exact .of_none _
          | some err => exact .of_fails (hstage.right pieces x' (h'.fails err rfl))
      | ok pieces' =>
          rw [h'.ok pieces' rfl]
          exact .of_ok (hstage.append pieces pieces').symm

theorem Follows.of_clean {α : Type} {vars : List UInt8 → Option (List (List UInt8))} {y z : Outcome InterpolateError α}
    (hyz : Outcome.Below (wantsPerCall vars · = true) y z) {f : α → Cut} {g : α → Outcome InterpolateError (List UInt8)}
    (hfg : ∀ a, Follows meaning Fails (f a) (g a)) : Follows meaning Fails (ofClean vars y >>= f) (z >>= g) := by
  cases y with
  | outOfFuel => exact .of_outOfFuel _
  | ok a =>
      rw [hyz.ok_eq]
      exact hfg a
  | error err =>
      rw [ofClean]
      split_ifs with hwants
      · exact .of_none _
      · rw [hyz.error_eq hwants]
        exact .of_fails (hstage.error err)

end Follow

/-! ### Options -/

/-- An option that puts text around the text of an item. -/
def addOptionText (item : List UInt8) : List UInt8 → List UInt8
  | 112 :: bytes => bytes ++ item
  | 97 :: bytes => item ++ bytes
  | _ => item

theorem applyOption_plain {option : List UInt8} (h : isPlainOption option = true) (item : StringBuffer) :
    ∃ item', applyOption item option = some item' ∧ item'.contents = addOptionText item.contents option := by
  cases option with
  | nil => simp [isPlainOption] at h
  | cons ch bytes =>
      simp only [isPlainOption, List.head?_cons, Option.some.injEq, decide_eq_true_eq] at h
      obtain rfl | rfl | rfl | rfl := h
      · exact ⟨item, rfl, rfl⟩
      · exact ⟨item, rfl, rfl⟩
      · exact ⟨item.prepend bytes, rfl, item.contents_prepend bytes⟩
      · exact ⟨item.add bytes, rfl, item.contents_add bytes⟩

theorem foldlM_applyOption_plain {options : List (List UInt8)} (h : options.all isPlainOption = true)
    (item : StringBuffer) :
    ∃ item', options.foldlM applyOption item = some item' ∧
    item'.contents = options.foldl addOptionText item.contents := by
  induction options generalizing item with
  | nil => exact ⟨item, rfl, rfl⟩
  | cons option options ih =>
      rw [List.all_cons, Bool.and_eq_true] at h
      obtain ⟨item', hitem', hcontents⟩ := applyOption_plain h.1 item
      obtain ⟨item'', hitem'', hcontents'⟩ := ih h.2 item'
      refine ⟨item'', ?_, ?_⟩
      · rw [List.foldlM_cons, hitem']
        exact hitem''
      · rw [hcontents', hcontents, List.foldl_cons]

theorem applyOption_unknown {option : List UInt8} (h : isUnknownOption option = true) (item : StringBuffer) :
    applyOption item option = none := by
  rw [isUnknownOption, Option.isNone_iff_eq_none] at h
  revert h
  unfold applyOption
  split <;> simp

theorem foldlM_applyOption_unknown {options : List (List UInt8)} (h : options.any isUnknownOption = true)
    (item : StringBuffer) :
    options.foldlM applyOption item = none := by
  induction options generalizing item with
  | nil => cases h
  | cons option options ih =>
      rw [List.foldlM_cons]
      rw [List.any_cons, Bool.or_eq_true] at h
      rcases h with h | h
      · rw [applyOption_unknown h]
        rfl
      · cases applyOption item option with
        | none => rfl
        | some item' => exact ih h item'

/-! ### A stage follows the cut -/

section Separate

variable {lookup : EnvLookup} {meaning : Pieces → Outcome InterpolateError (List UInt8)}
  {close : List UInt8 → Outcome InterpolateError (List UInt8)} {Fails : Outcome InterpolateError (List UInt8) → Prop}
  {vars env : List UInt8 → Option (List (List UInt8))} {cut : List UInt8 → Cut} {clean : Interpolation}
  (hstage : Stage lookup meaning close Fails)

include hstage

theorem Stage.meaning_addOption (pieces : Pieces) (option : List UInt8) :
    meaning (pieces.addOption option) = meaning pieces >>= fun text => .ok (addOptionText text option) := by
  unfold Pieces.addOption addOptionText
  split
  · next bytes =>
      rw [show Pieces.text bytes pieces = (Pieces.text bytes .nil).append pieces from rfl, hstage.append, hstage.text]
      cases meaning pieces <;> rfl
  · next bytes =>
      rw [hstage.append, hstage.text]
      cases meaning pieces <;> rfl
  · exact (bind_pure _).symm

theorem Stage.meaning_foldl_addOption (options : List (List UInt8)) (pieces : Pieces) :
    meaning (options.foldl Pieces.addOption pieces) = meaning pieces >>= fun text => .ok
    (options.foldl addOptionText text) := by
  induction options generalizing pieces with
  | nil => exact (bind_pure _).symm
  | cons option options ih =>
      rw [List.foldl_cons, ih, hstage.meaning_addOption, bind_assoc]
      rfl

variable (hcut : ∀ str, Follows meaning Fails (cut str) (nenvInterpolate lookup str))
  (hclean : ∀ output str, Outcome.Below (wantsPerCall vars · = true) (clean output str)
    (interpolateBuffer lookup output str))

include hcut hclean

theorem follows_cutItem (options : List (List UInt8)) (str : List UInt8) :
    Follows meaning Fails (cutItem vars cut clean options str) (itemText (interpolateBuffer lookup) options str) := by
  rw [cutItem]
  split_ifs with hplain hunknown
  · have htext : itemText (interpolateBuffer lookup) options str =
        nenvInterpolate lookup str >>= fun text => .ok (options.foldl addOptionText text) := by
      rw [itemText, nenvInterpolate]
      cases interpolateBuffer lookup .empty str with
      | error err => rfl
      | outOfFuel => rfl
      | ok item =>
          obtain ⟨item', hitem', hcontents⟩ := foldlM_applyOption_plain hplain item
          simp only [Outcome.ok_bind, Outcome.map_ok, hitem', hcontents, Outcome.pure_eq]
    rw [htext]
    exact (hcut str).map (hstage.meaning_foldl_addOption options) (hstage.bind _ _)
  · have htext : itemText (interpolateBuffer lookup) options str =
      appendText (nenvInterpolate lookup str) (.error .interpolationFailed) := by
      rw [itemText, nenvInterpolate]
      cases interpolateBuffer lookup .empty str with
      | error err => rfl
      | outOfFuel => rfl
      | ok item =>
          simp only [Outcome.ok_bind, foldlM_applyOption_unknown hunknown]
          rfl
    rw [htext]
    exact (hcut str).append hstage (.of_fails (hstage.error _))
  · refine Follows.of_clean hstage (hclean .empty str) fun item => ?_
    cases options.foldlM applyOption item with
    | none => exact .of_fails (hstage.error _)
    | some item => exact .of_ok (hstage.text _).symm

theorem follows_cutItems (options : List (List UInt8)) (joinString : List UInt8) (items : List (List UInt8))
    (first : Bool) :
    Follows meaning Fails (cutItems vars cut clean options joinString first items)
      (itemsText (interpolateBuffer lookup) options joinString first items) := by
  induction items generalizing first with
  | nil => exact .of_ok hstage.nil.symm
  | cons str rest ih =>
      rw [cutItems, itemsText]
      exact (Follows.of_ok (hstage.text _).symm).append hstage
        ((follows_cutItem hstage hcut hclean options str).append hstage (ih false))

variable (hlookup : lookup.Covers vars env)

include hlookup

theorem follows_cutName (name : List UInt8) :
    Follows meaning Fails (cutName vars env cut clean name) (namedText (interpolateBuffer lookup) lookup name) := by
  simp only [cutName, namedText, addVar, lookupVar]
  split_ifs with hcount hkey
  · exact .of_fails (hstage.error _)
  · exact .of_none _
  · rw [hlookup _ (by simpa using hkey)]
    cases env (splitName 0 (name.takeWhile (· ≠ 0))).1 with
    | none => exact .of_fails (hstage.error _)
    | some values =>
        simp only
        generalize List.foldlM (selectOption values.length) _ _ = selection
        cases selection with
        | none => exact .of_fails (hstage.error _)
        | some s =>
            simp only [contents_addItems, StringBuffer.contents_empty, List.nil_append, id_map']
            exact follows_cutItems hstage hcut hclean _ _ _ _

theorem follows_cutVar (str : List UInt8) :
    Follows meaning Fails (cutVar vars env cut clean str)
      (nenvInterpolate lookup str >>= namedText (interpolateBuffer lookup) lookup) := by
  have hvar : nenvInterpolate lookup str >>= namedText (interpolateBuffer lookup) lookup =
      interpolateBuffer lookup .empty str >>=
        fun varName => namedText (interpolateBuffer lookup) lookup varName.contents := by
    rw [nenvInterpolate, map_eq_pure_bind, bind_assoc]
    rfl
  rw [hvar]
  exact Follows.of_clean hstage (hclean .empty str)
    fun varName => follows_cutName hstage hcut hclean hlookup varName.contents

omit hcut hclean in
theorem follows_separate (fuel : Nat) (str : List UInt8) :
    Follows meaning Fails (separate vars env fuel str) (nenvInterpolate lookup str) := by
  induction fuel generalizing str with
  | zero => exact .of_outOfFuel _
  | succ fuel ih =>
      cases str with
      | nil =>
          rw [nenvInterpolate_nil]
          exact .of_ok hstage.nil.symm
      | cons ch rest =>
          rw [separate]
          by_cases hopens : ch = 36 ∧ rest.head? = some 40
          · obtain ⟨tail, rfl⟩ : ∃ tail, rest = 40 :: tail := ⟨rest.tail, (List.cons_head?_tail hopens.2).symm⟩
            obtain rfl := hopens.1
            have hvar : ¬ isCallSign tail.head? = true → opensVar lookup.vars.isSome 36 (40 :: tail) = true := by
              intro hsign
              rw [opensVar, decide_eq_true_eq]
              refine ⟨rfl, rfl, .inr ?_⟩
              rwa [List.getElem?_cons_succ, ← List.head?_eq_getElem?]
            rw [if_pos hopens, List.tail_cons, List.getElem?_cons_succ, ← List.head?_eq_getElem?]
            cases hparen : findEndParen 0 tail with
            | none =>
                simp only
                split_ifs with hsign
                · rw [hstage.unclosed tail hsign hparen]
                  exact (Follows.of_ok rfl).append hstage (ih tail)
                · rw [nenvInterpolate_unbalanced (hvar hsign) hparen]
                  exact .of_fails (hstage.error _)
            | some len =>
                simp only
                split_ifs with hsign
                · -- a reference that is left in place
                  obtain ⟨htail, hlen⟩ := eq_of_findEndParen hparen
                  rw [htail] at hsign
                  have hbody : findEndParen 0 (tail.take len ++ 41 :: tail.drop (len + 1)) =
                    some (tail.take len).length := by
                    rw [← htail, hlen]
                    exact hparen
                  have hreference := hstage.callRef _ _ hsign hbody
                  rw [← htail] at hreference
                  rw [hreference]
                  exact ((ih _).map hstage.meaning_callRef (hstage.bind _ _)).append hstage (ih _)
                · rw [nenvInterpolate_var (hvar hsign) hparen]
                  exact (follows_cutVar hstage ih (cleanInterpolate_below hlookup fuel) hlookup _).append hstage (ih _)
          · rw [if_neg hopens, nenvInterpolate_char (opensVar_of_not_opens hopens)]
            exact (Follows.of_ok (hstage.text [ch]).symm).append hstage (ih rest)

end Separate

/-! ### The two stages -/

section Stages

variable (vars env : List UInt8 → Option (List (List UInt8)))

theorem covers_none : EnvLookup.Covers vars env ⟨none, env⟩ := fun _ _ => rfl

theorem covers_some : EnvLookup.Covers vars env ⟨some vars, env⟩ := by
  intro key hkey
  simp [EnvLookup.find, hkey]

/-- The first stage leaves the opening of a reference to a per-call variable in place. -/
theorem nenvInterpolate_callSign {rest : List UInt8} (hsign : isCallSign rest.head? = true) :
    nenvInterpolate ⟨none, env⟩ (36 :: 40 :: rest) = appendText (.ok [36, 40]) (nenvInterpolate ⟨none, env⟩ rest) := by
  have hclosed : opensVar (EnvLookup.mk none env).vars.isSome 36 (40 :: rest) = false := by
    rw [opensVar, decide_eq_false_iff_not]
    rintro ⟨-, -, hvars | hnot⟩
    · cases hvars
    · rw [List.getElem?_cons_succ, ← List.head?_eq_getElem?] at hnot
      exact hnot hsign
  rw [nenvInterpolate_char hclosed, nenvInterpolate_char (opensVar_of_not_opens (by simp)), ← appendText_assoc]
  rfl

theorem firstStage : Stage ⟨none, env⟩ (fun pieces => .ok pieces.render) (fun text => .ok (36 :: 40 :: (text ++ [41])))
    (fun x => ∃ err, x = .error err) where
  nil := rfl
  text bytes := by simp [Pieces.render]
  append pieces more := by rw [Pieces.render_append, appendText_ok]
  meaning_callRef body := rfl
  callRef body after hsign hbody := by
    rw [nenvInterpolate_callSign env hsign, nenvInterpolate_balanced hbody,
      nenvInterpolate_char (opensVar_of_not_opens (by simp))]
    cases nenvInterpolate ⟨none, env⟩ body with
    | error err => rfl
    | outOfFuel => rfl
    | ok text => cases nenvInterpolate ⟨none, env⟩ after <;> simp [appendText]
  unclosed rest hsign _ := nenvInterpolate_callSign env hsign
  error err := ⟨err, rfl⟩
  bind x f h := by
    obtain ⟨err, rfl⟩ := h
    exact ⟨err, rfl⟩
  right pieces y h := by
    obtain ⟨err, rfl⟩ := h
    exact ⟨err, rfl⟩

noncomputable def expandPieces (lookup : EnvLookup) : Pieces → Outcome InterpolateError (List UInt8)
  | .nil => .ok []
  | .text bytes rest => appendText (.ok bytes) (expandPieces lookup rest)
  | .callRef body rest =>
      appendText (expandPieces lookup body >>= namedText (interpolateBuffer lookup) lookup) (expandPieces lookup rest)
  | .unclosed _ => .error .interpolationFailed

theorem expandPieces_append (lookup : EnvLookup) (pieces more : Pieces) :
    expandPieces lookup (pieces.append more) = appendText (expandPieces lookup pieces) (expandPieces lookup more) := by
  induction pieces with
  | nil => exact (nil_appendText _).symm
  | text bytes rest ih => rw [Pieces.append, expandPieces, ih, expandPieces, appendText_assoc]
  | callRef body rest _ ih => rw [Pieces.append, expandPieces, ih, expandPieces, appendText_assoc]
  | unclosed rest ih => rfl

theorem opensVar_vars (rest : List UInt8) :
    opensVar (EnvLookup.mk (some vars) env).vars.isSome 36 (40 :: rest) = true := by
  rw [opensVar, decide_eq_true_eq]
  exact ⟨rfl, rfl, .inl rfl⟩

theorem nenvInterpolate_vars {body after : List UInt8} (h : findEndParen 0 (body ++ 41 :: after) = some body.length) :
    nenvInterpolate ⟨some vars, env⟩ (36 :: 40 :: (body ++ 41 :: after)) =
      appendText (nenvInterpolate ⟨some vars, env⟩ body >>=
      namedText (interpolateBuffer ⟨some vars, env⟩) ⟨some vars, env⟩)
        (nenvInterpolate ⟨some vars, env⟩ after) := by
  rw [nenvInterpolate_var (opensVar_vars vars env _) h]
  simp

theorem oneStage :
    Stage ⟨some vars, env⟩ (expandPieces ⟨some vars, env⟩)
    (namedText (interpolateBuffer ⟨some vars, env⟩) ⟨some vars, env⟩)
    (fun x => ∀ text, x ≠ .ok text) where
  nil := rfl
  text bytes := appendText_nil _
  append := expandPieces_append _
  meaning_callRef body := appendText_nil _
  callRef body after _ hbody := nenvInterpolate_vars vars env hbody
  unclosed rest _ hparen := nenvInterpolate_unbalanced (opensVar_vars vars env rest) hparen
  error err text h := by cases h
  bind x f hfails text h := by
    obtain ⟨a, ha, -⟩ := Outcome.bind_eq_ok.mp h
    exact hfails a ha
  right pieces y hfails text h := by
    obtain ⟨a, -, h⟩ := Outcome.bind_eq_ok.mp h
    obtain ⟨b, hb, -⟩ := Outcome.bind_eq_ok.mp h
    exact hfails b hb

/-- The second stage expands the pieces if their text is settled. -/
theorem nenvInterpolate_render {pieces : Pieces} (h : pieces.settled = true) :
    nenvInterpolate ⟨some vars, env⟩ pieces.render = expandPieces ⟨some vars, env⟩ pieces := by
  induction pieces with
  | nil => exact nenvInterpolate_nil _
  | text bytes rest ih =>
      rw [Pieces.settled, Bool.and_eq_true, Bool.not_eq_true'] at h
      rw [Pieces.render, nenvInterpolate_text h.1, ih h.2, expandPieces]
  | callRef body rest ihbody ih =>
      rw [Pieces.settled, Bool.and_eq_true, Bool.and_eq_true, decide_eq_true_eq] at h
      have hbody := findEndParen_append h.1.1 rest.render
      rw [List.append_assoc, List.singleton_append] at hbody
      rw [Pieces.render, nenvInterpolate_vars vars env hbody, ihbody h.1.2, ih h.2, expandPieces]
  | unclosed rest ih =>
      rw [Pieces.settled, decide_eq_true_eq] at h
      exact nenvInterpolate_unbalanced (opensVar_vars vars env _) h

end Stages

/-! ### One stage and two -/

/-- The first stage leaves references to per-call variables in place one by one, and no others in its text, or
interpolation fails on account of something else. -/
def Separable (vars env : List UInt8 → Option (List (List UInt8))) (str : List UInt8) : Prop :=
  ∃ fuel, (∃ pieces, separate vars env fuel str = .ok pieces ∧ pieces.settled = true) ∨
    ∃ err, separate vars env fuel str = .error (some err)

/-- Interpolation comes to an end: it meets no cyclic definition. -/
def EnvLookup.Ends (lookup : EnvLookup) (str : List UInt8) : Prop := ∃ fuel, luaInterpolate lookup fuel str ≠ .outOfFuel

namespace EnvState

variable {s : EnvState} {e : Nat} {str : List UInt8} {vars : List UInt8 → Option (List (List UInt8))}

/-- `interpolate` with per-call variables returns what `nenv.interpolate` with them does, and fails where it does. -/
def AgreesWithOneStage (s : EnvState) (e : Nat) (str : List UInt8) (vars : List UInt8 → Option (List (List UInt8))) :
    Prop :=
  (∀ text, (∃ fuel, (s.interpolate fuel e str (some vars)).2 = .ok text) ↔
    ∃ fuel, luaInterpolate (s.lookup e (some vars)) fuel str = .ok text) ∧
  ((∃ fuel err, (s.interpolate fuel e str (some vars)).2 = .error err) ↔
    ∃ fuel err, luaInterpolate (s.lookup e (some vars)) fuel str = .error err)

/-- What is cached for a string is what interpolation of the current variables comes to. -/
def CurrentAt (s : EnvState) (e : Nat) (str : List UInt8) : Prop :=
  ∀ text, s.cached e str = some text → nenvInterpolate (s.lookup e none) str = .ok text

theorem interpolate_vars_eq_iff (hcurrent : s.CurrentAt e str) {r : Outcome InterpolateError (List UInt8)}
    (hr : r ≠ .outOfFuel) :
    (∃ fuel, (s.interpolate fuel e str (some vars)).2 = r) ↔
      (nenvInterpolate (s.lookup e none) str >>= nenvInterpolate (s.lookup e (some vars))) = r := by
  cases hcached : s.cached e str with
  | some text =>
      have hreturn : ∀ fuel, (s.interpolate fuel e str (some vars)).2 =
        luaInterpolate (s.lookup e (some vars)) fuel text := by
        intro fuel
        rw [EnvState.interpolate, hcached]
        rfl
      simp only [hreturn]
      rw [hcurrent text hcached, Outcome.ok_bind, nenvInterpolate_eq_iff hr]
  | none =>
      have hlookup : ∀ text, (s.store e str text).lookup e (some vars) = s.lookup e (some vars) := by
        intro text
        simp only [EnvState.lookup, EnvLookup.mk.injEq, true_and]
        funext key
        exact getList_store s e e str text key
      have hreturn : ∀ fuel, (s.interpolate fuel e str (some vars)).2 =
          luaInterpolate (s.lookup e none) fuel str >>=
            fun text => luaInterpolate (s.lookup e (some vars)) fuel text := by
        intro fuel
        rw [EnvState.interpolate, hcached]
        simp only
        cases luaInterpolate (s.lookup e none) fuel str with
        | ok text =>
            rw [Outcome.ok_bind, ← hlookup text]
            rfl
        | error err => rfl
        | outOfFuel => rfl
      have hchain := (chain_luaInterpolate (s.lookup e none) str).bind
        fun text => chain_luaInterpolate (s.lookup e (some vars)) text
      simp only [hreturn]
      rw [← Outcome.limit_eq_iff hchain hr,
        Outcome.limit_bind (chain_luaInterpolate _ str) fun text => chain_luaInterpolate _ text]
      simp only [← nenvInterpolate_eq_limit]

theorem agreesWithOneStage_iff (hcurrent : s.CurrentAt e str) : s.AgreesWithOneStage e str vars ↔
    (∀ text, (nenvInterpolate (s.lookup e none) str >>= nenvInterpolate (s.lookup e (some vars))) = .ok text ↔
      nenvInterpolate (s.lookup e (some vars)) str = .ok text) ∧
    ((∃ err, (nenvInterpolate (s.lookup e none) str >>= nenvInterpolate (s.lookup e (some vars))) = .error err) ↔
      ∃ err, nenvInterpolate (s.lookup e (some vars)) str = .error err) := by
  refine and_congr (forall_congr' fun text => ?_) (iff_congr ?_ ?_)
  · rw [interpolate_vars_eq_iff hcurrent (by simp), nenvInterpolate_eq_iff (by simp)]
  · rw [exists_comm]
    exact exists_congr fun err => interpolate_vars_eq_iff hcurrent (by simp)
  · rw [exists_comm]
    exact exists_congr fun err => (nenvInterpolate_eq_iff (by simp)).symm

/-- Interpolation in two stages is interpolation in one where the first stage keeps references to per-call
variables apart. The Lua stack, for which `LuaInterpolate.cpp` never calls `lua_checkstack`, is unbounded
here. -/
theorem interpolate_twoStage (hcurrent : s.CurrentAt e str) (hends : (s.lookup e (some vars)).Ends str)
    (hseparable : Separable vars (s.getList e) str) : s.AgreesWithOneStage e str vars := by
  rw [agreesWithOneStage_iff hcurrent]
  obtain ⟨fuel, hseparate⟩ := hseparable
  have hfirst := follows_separate (firstStage (s.getList e)) (covers_none vars (s.getList e)) fuel str
  have hone := follows_separate (oneStage vars (s.getList e)) (covers_some vars (s.getList e)) fuel str
  rcases hseparate with ⟨pieces, hpieces, hsettled⟩ | ⟨err, herr⟩
  · have hequal : (nenvInterpolate (s.lookup e none) str >>= nenvInterpolate (s.lookup e (some vars))) =
        nenvInterpolate (s.lookup e (some vars)) str := by
      rw [EnvState.lookup, EnvState.lookup, hfirst.ok pieces hpieces, hone.ok pieces hpieces, Outcome.ok_bind]
      exact nenvInterpolate_render vars (s.getList e) hsettled
    rw [hequal]
    exact ⟨fun text => Iff.rfl, Iff.rfl⟩
  · obtain ⟨err', herr'⟩ := hfirst.fails err herr
    have hfails := hone.fails err herr
    rw [EnvState.lookup, EnvState.lookup, herr', Outcome.error_bind]
    refine ⟨fun text => iff_of_false (fun h => by cases h) (hfails text), iff_of_true ⟨err', rfl⟩ ?_⟩
    -- one stage does not succeed, and it ends
    cases hresult : nenvInterpolate ⟨some vars, s.getList e⟩ str with
    | ok text => exact absurd hresult (hfails text)
    | error err => exact ⟨err, rfl⟩
    | outOfFuel =>
        rw [nenvInterpolate_eq_limit] at hresult
        exact absurd hresult (Outcome.limit_ne_iff.mpr hends)

end EnvState

/-- An environment with the command line `cc $(<)` in `C`, and `$(<)` alone in `X`. -/
def commandEnv :
    EnvState := EnvState.empty.create none
    [([67], .string [99, 99, 32, 36, 40, 60, 41]), ([88], .string [36, 40, 60, 41])]

/-- The inputs `a` and `b`, and the output `o`. -/
def inputsAndOutput : List UInt8 → Option (List (List UInt8))
  | [60] => some [[97], [98]]
  | [64] => some [[111]]
  | _ => none

theorem currentAt_commandEnv (str : List UInt8) : commandEnv.CurrentAt 0 str := by
  intro text htext
  exact absurd ((EnvState.Extends.create _ none _).cached 0 str text htext).1 (Nat.lt_irrefl 0)

/-- The command line `$(C:p@ ) $(@)`. -/
theorem interpolate_twoStage_command :
    (∃ fuel, (commandEnv.interpolate fuel 0 [36, 40, 67, 58, 112, 64, 32, 41, 32, 36, 40, 64, 41]
    (some inputsAndOutput)).2 =
      .ok [64, 32, 99, 99, 32, 97, 32, 98, 32, 111]) ∧
    commandEnv.AgreesWithOneStage 0 [36, 40, 67, 58, 112, 64, 32, 41, 32, 36, 40, 64, 41] inputsAndOutput :=
  ⟨⟨30, by decide⟩, EnvState.interpolate_twoStage (currentAt_commandEnv _) ⟨30, by decide⟩
    ⟨30, .inl ⟨_, rfl, by decide⟩⟩⟩

/-- `$(X:u)`: the first stage turns the reference to upper case, and the second stage then expands it. -/
theorem interpolate_twoStage_uppercase :
    (∀ key, inputsAndOutput key ≠ none → key = [60] ∨ key = [64]) ∧ commandEnv.CurrentAt 0 [36, 40, 88, 58, 117, 41] ∧
    (commandEnv.lookup 0 (some inputsAndOutput)).Ends [36, 40, 88, 58, 117, 41] ∧
    (commandEnv.interpolate 20 0 [36, 40, 88, 58, 117, 41] (some inputsAndOutput)).2 = .ok [97, 32, 98] ∧
    luaInterpolate (commandEnv.lookup 0 (some inputsAndOutput)) 20 [36, 40, 88, 58, 117, 41] = .ok [65, 32, 66] ∧
    ¬ commandEnv.AgreesWithOneStage 0 [36, 40, 88, 58, 117, 41] inputsAndOutput := by
  have htwo : (commandEnv.interpolate 20 0 [36, 40, 88, 58, 117, 41] (some inputsAndOutput)).2 =
    .ok [97, 32, 98] := by decide
  have hone : luaInterpolate (commandEnv.lookup 0 (some inputsAndOutput)) 20 [36, 40, 88, 58, 117, 41] =
    .ok [65, 32, 66] := by decide
  refine ⟨?_, currentAt_commandEnv _, ⟨20, ?_⟩, htwo, hone, ?_⟩
  · intro key hkey
    unfold inputsAndOutput at hkey
    split at hkey
    · exact .inl rfl
    · exact .inr rfl
    · exact absurd rfl hkey
  · rw [hone]
    simp
  · rintro ⟨hok, -⟩
    have hupper := (EnvState.interpolate_vars_eq_iff (currentAt_commandEnv _) (by simp)).mp ((hok _).mpr ⟨20, hone⟩)
    have hlower := (EnvState.interpolate_vars_eq_iff (currentAt_commandEnv _) (by simp)).mp ⟨20, htwo⟩
    rw [hupper] at hlower
    simp at hlower

end Tundra
