import Tundra.Lib.Outcome
import Tundra.Lua.StringBuffer

/-!
# Interpolation

`DoInterpolate` of `LuaInterpolate.cpp`: every `$(...)` of a string is replaced by the items of a variable. The
inside is interpolated first and gives the name of the variable and formatting options. The items are
interpolated in turn, transformed and joined. Definitions that refer to themselves never end, so the
interpolation runs on fuel; what it reaches is `interpolateBuffer`.

Strings are lists of bytes, which may be zero. The text of a name ends at its first zero byte.
-/

namespace Tundra

/-- The errors raised: a missing key, or `interpolation failed`. -/
inductive InterpolateError where
  | noKey (key : List UInt8)
  | interpolationFailed
deriving DecidableEq

/-- `LuaEnvLookup`: the per-call variables, if there are any, and the variables of the environment and its
parents. A single string in the per-call variables counts as a list of one. -/
structure EnvLookup where
  vars : Option (List UInt8 → Option (List (List UInt8)))
  env : List UInt8 → Option (List (List UInt8))

/-- `LuaEnvLookupScope`. -/
def EnvLookup.find (lookup : EnvLookup) (key : List UInt8) : Option (List (List UInt8)) :=
  (lookup.vars.bind fun vars => vars key).or (lookup.env key)

def kMaxOptions : Nat := 10

/-- A name cut at the colons that have no backslash in front: the key and the options. -/
def splitName (prev : UInt8) : List UInt8 → List UInt8 × List (List UInt8)
  | [] => ([], [])
  | ch :: rest =>
      let (piece, options) := splitName ch rest
      if ch = 58 ∧ prev ≠ 92 then ([], piece :: options) else (ch :: piece, options)

def unescapeOption : List UInt8 → List UInt8
  | [] => []
  | 92 :: 58 :: rest => 58 :: unescapeOption rest
  | ch :: rest => ch :: unescapeOption rest

/-- The digits of `atoi`; the value stops at what fits a `long`. -/
def atoiDigits : Nat → List UInt8 → Nat
  | value, [] => value
  | value, ch :: rest =>
      if 48 ≤ ch ∧ ch ≤ 57 then atoiDigits (min (10 * value + (ch.toNat - 48)) (2 ^ 63)) rest else value

/-- `atoi`: white space, a sign and digits, cast to an `int`. -/
def atoi (text : List UInt8) : Int :=
  let value : Int :=
    match text.dropWhile isSpace with
    | 45 :: rest => -(atoiDigits 0 rest : Int)
    | 43 :: rest => min (atoiDigits 0 rest : Int) (2 ^ 63 - 1)
    | rest => min (atoiDigits 0 rest : Int) (2 ^ 63 - 1)
  (Int32.ofInt value).toInt

/-- The join string and the items that are selected. -/
structure Selection where
  joinString : List UInt8
  firstIndex : Nat
  maxIndex : Nat

/-- The effect of an option on the selection. An index that is not one of an item makes the interpolation fail. -/
def selectOption (count : Nat) (s : Selection) : List UInt8 → Option Selection
  | 106 :: text => some { s with joinString := text }
  | 91 :: text =>
      let index := atoi text
      if 1 ≤ index ∧ index ≤ count then some { s with firstIndex := index.toNat - 1, maxIndex := index.toNat } else none
  | _ => some s

def applyOption (item : StringBuffer) : List UInt8 → Option StringBuffer
  | 112 :: text => some (item.prepend text)
  | 97 :: text => some (item.add text)
  | 80 :: text => some (item.prependUnless text)
  | 65 :: text => some (item.appendUnless text)
  | 102 :: _ => some item.toForwardSlashes
  | 98 :: _ => some item.toBackSlashes
  | 110 :: _ => some item.toForwardSlashes
  | 117 :: _ => some item.toUppercase
  | 108 :: _ => some item.toLowercase
  | 66 :: _ => some item.dropSuffix
  | 70 :: _ => some item.getFilename
  | 68 :: _ => some item.getFilenameDir
  | 113 :: _ => some item.quote
  | 35 :: _ => some item.escapeForCmdlineDefine
  | 91 :: _ => some item
  | 106 :: _ => some item
  | _ => none

/-- What interpolation does with strings below the one it works on. -/
abbrev Interpolation := StringBuffer → List UInt8 → Outcome InterpolateError StringBuffer

def addItems (interpolate : Interpolation) (options : List (List UInt8)) (joinString : List UInt8) :
    Bool → StringBuffer → List (List UInt8) → Outcome InterpolateError StringBuffer
  | _, output, [] => .ok output
  | first, output, text :: rest => do
      let item ← interpolate .empty text
      match options.foldlM applyOption item with
      | none => .error .interpolationFailed
      | some item =>
          let output := if first then output else output.add joinString
          addItems interpolate options joinString false (output.add item.contents) rest

/-- `InterpolateVar` from the lookup on. -/
def lookupVar (interpolate : Interpolation) (lookup : EnvLookup) (output : StringBuffer) (key : List UInt8)
    (options : List (List UInt8)) :
    Outcome InterpolateError StringBuffer :=
  match lookup.find key with
  | none => .error (.noKey key)
  | some values =>
      match options.foldlM (selectOption values.length) ⟨[32], 0, values.length⟩ with
      | none => .error .interpolationFailed
      | some s => addItems interpolate options s.joinString true output ((values.take s.maxIndex).drop s.firstIndex)

/-- `InterpolateVar` from the name on. -/
def addVar (interpolate : Interpolation) (lookup : EnvLookup) (output : StringBuffer) (name : List UInt8) :
    Outcome InterpolateError StringBuffer :=
  let (key, options) := splitName 0 (name.takeWhile (· ≠ 0))
  if kMaxOptions < options.length then .error .interpolationFailed
  else lookupVar interpolate lookup output key (options.map unescapeOption)

def interpolateVar (interpolate : Interpolation) (lookup : EnvLookup) (output : StringBuffer) (str : List UInt8) :
    Outcome InterpolateError StringBuffer := do
  let varName ← interpolate .empty str
  addVar interpolate lookup output varName.contents

def findEndParen : Nat → List UInt8 → Option Nat
  | _, [] => none
  | nesting, 40 :: rest => (findEndParen (nesting + 1) rest).map (· + 1)
  | 0, 41 :: _ => some 0
  | nesting + 1, 41 :: rest => (findEndParen nesting rest).map (· + 1)
  | nesting, _ :: rest => (findEndParen nesting rest).map (· + 1)

/-- The bytes `<` and `@`, with which the names of per-call variables begin. -/
def isCallSign (ch : Option UInt8) : Bool := ch = some 60 ∨ ch = some 64

/-- Whether a reference begins here. Those to per-call variables are left alone when there are none. -/
def opensVar (hasVars : Bool) (ch : UInt8) (rest : List UInt8) : Bool :=
  ch = 36 ∧ rest.head? = some 40 ∧ (hasVars ∨ ¬ isCallSign rest[1]?)

def doInterpolate (lookup : EnvLookup) : Nat → Interpolation
  | 0, _, _ => .outOfFuel
  | _ + 1, output, [] => .ok output
  | fuel + 1, output, ch :: rest =>
      if opensVar lookup.vars.isSome ch rest then
        match findEndParen 0 rest.tail with
        | none => .error .interpolationFailed
        | some len => do
            let output ← interpolateVar (doInterpolate lookup fuel) lookup output (rest.tail.take len)
            doInterpolate lookup fuel output (rest.tail.drop (len + 1))
      else doInterpolate lookup fuel (output.add [ch]) rest

def luaInterpolate (lookup : EnvLookup) (fuel : Nat) (str : List UInt8) : Outcome InterpolateError (List UInt8) :=
  StringBuffer.contents <$> doInterpolate lookup fuel .empty str

/-! ### More fuel and more variables -/

open Outcome (Below Chain)

variable {Lossy : InterpolateError → Prop} {f g : Interpolation} {lookup lookup' : EnvLookup} {output : StringBuffer}

theorem addItems_below (hfg : ∀ b str, Below Lossy (f b str) (g b str)) (options : List (List UInt8))
    (joinString : List UInt8) (items : List (List UInt8)) (first : Bool) (output : StringBuffer) :
    Below Lossy (addItems f options joinString first output items)
    (addItems g options joinString first output items) := by
  induction items generalizing first output with
  | nil => exact .refl _
  | cons text rest ih =>
      rw [addItems, addItems]
      refine (hfg .empty text).bind fun item => ?_
      cases options.foldlM applyOption item with
      | none => exact .refl _
      | some item => exact ih _ _

/-- A lookup that knows at least the keys of another, up to keys whose lack is an error that may be lost. -/
def EnvLookup.Below (Lossy : InterpolateError → Prop) (lookup lookup' : EnvLookup) : Prop :=
  ∀ key, lookup.find key = lookup'.find key ∨ (lookup.find key = none ∧ Lossy (.noKey key))

theorem addVar_below (hfg : ∀ b str, Below Lossy (f b str) (g b str)) (hlookup : lookup.Below Lossy lookup')
    (output : StringBuffer) (name : List UInt8) :
    Below Lossy (addVar f lookup output name) (addVar g lookup' output name) := by
  simp only [addVar, lookupVar]
  split_ifs with hcount
  · exact .refl _
  · rcases hlookup (splitName 0 (name.takeWhile (· ≠ 0))).1 with heq | ⟨hnone, hlossy⟩
    · rw [heq]
      split
      · exact .refl _
      · split
        · exact .refl _
        · exact addItems_below hfg _ _ _ _ _
    · rw [hnone]
      exact .error hlossy _

theorem interpolateVar_below (hfg : ∀ b str, Below Lossy (f b str) (g b str)) (hlookup : lookup.Below Lossy lookup')
    (output : StringBuffer) (str : List UInt8) :
    Below Lossy (interpolateVar f lookup output str) (interpolateVar g lookup' output str) :=
  (hfg .empty str).bind fun varName => addVar_below hfg hlookup output varName.contents

theorem doInterpolate_below (hlookup : lookup.Below Lossy lookup')
    (hvars : lookup.vars.isSome = lookup'.vars.isSome) {n m : Nat} (hnm : n ≤ m) (output : StringBuffer)
    (str : List UInt8) : Below Lossy (doInterpolate lookup n output str) (doInterpolate lookup' m output str) := by
  induction n generalizing m output str with
  | zero => exact .outOfFuel _
  | succ n ih =>
      obtain ⟨m, rfl⟩ : ∃ k, m = k + 1 := ⟨m - 1, by omega⟩
      have hstep : ∀ b str, Below Lossy (doInterpolate lookup n b str) (doInterpolate lookup' m b str) :=
        fun b str => ih (by omega) b str
      cases str with
      | nil => exact .refl _
      | cons ch rest =>
          rw [doInterpolate, doInterpolate, hvars]
          split_ifs with hopens
          · cases findEndParen 0 rest.tail with
            | none => exact .refl _
            | some len => exact (interpolateVar_below hstep hlookup _ _).bind fun output => hstep _ _
          · exact hstep _ _

theorem EnvLookup.Below.refl (lookup : EnvLookup) : lookup.Below Lossy lookup := fun _ => .inl rfl

theorem chain_doInterpolate (lookup : EnvLookup) (output : StringBuffer) (str : List UInt8) :
    Chain fun n => doInterpolate lookup n output str :=
  fun n => doInterpolate_below (.refl lookup) rfl (Nat.le_succ n) output str

/-! ### Interpolation without a bound -/

/-- What interpolation of a string at the end of a buffer comes to. It is out of fuel when the definitions never end. -/
noncomputable def interpolateBuffer (lookup : EnvLookup) : Interpolation :=
  fun output str => Outcome.limit fun fuel => doInterpolate lookup fuel output str

section Limit

variable {F : Nat → Interpolation}

theorem chain_addItems (hF : ∀ b str, Chain fun n => F n b str) (options : List (List UInt8)) (joinString : List UInt8)
    (items : List (List UInt8)) (first : Bool) (output : StringBuffer) :
    Chain fun n => addItems (F n) options joinString first output items :=
  fun n => addItems_below (fun b str => hF b str n) options joinString items first output

theorem limit_addItems (hF : ∀ b str, Chain fun n => F n b str) (options : List (List UInt8)) (joinString : List UInt8)
    (items : List (List UInt8)) (first : Bool) (output : StringBuffer) :
    Outcome.limit (fun n => addItems (F n) options joinString first output items) =
      addItems (fun b str => Outcome.limit fun n => F n b str) options joinString first output items := by
  induction items generalizing first output with
  | nil => exact Outcome.limit_const _
  | cons text rest ih =>
      simp only [addItems]
      rw [Outcome.limit_bind (hF .empty text)]
      · congr 1
        funext item
        cases options.foldlM applyOption item with
        | none => exact Outcome.limit_const _
        | some item => exact ih _ _
      · intro item
        cases options.foldlM applyOption item with
        | none => exact fun _ => .refl _
        | some item => exact chain_addItems hF _ _ _ _ _

theorem limit_addVar (hF : ∀ b str, Chain fun n => F n b str) (lookup : EnvLookup) (output : StringBuffer)
    (name : List UInt8) :
    Outcome.limit (fun n => addVar (F n) lookup output name) = addVar
    (fun b str => Outcome.limit fun n => F n b str) lookup output name := by
  simp only [addVar, lookupVar]
  split_ifs with hcount
  · exact Outcome.limit_const _
  · cases lookup.find (splitName 0 (name.takeWhile (· ≠ 0))).1 with
    | none => exact Outcome.limit_const _
    | some values =>
        simp only
        generalize List.foldlM (selectOption values.length) _ _ = selection
        cases selection with
        | none => exact Outcome.limit_const _
        | some s => exact limit_addItems hF _ _ _ _ _

theorem limit_interpolateVar (hF : ∀ b str, Chain fun n => F n b str) (lookup : EnvLookup) (output : StringBuffer)
    (str : List UInt8) :
    Outcome.limit (fun n => interpolateVar (F n) lookup output str) =
      interpolateVar (fun b str => Outcome.limit fun n => F n b str) lookup output str := by
  simp only [interpolateVar]
  rw [Outcome.limit_bind (hF .empty str)]
  · congr 1
    funext varName
    exact limit_addVar hF lookup output varName.contents
  · exact fun varName n => addVar_below (fun b str => hF b str n) (.refl lookup) output varName.contents

end Limit

theorem interpolateBuffer_eq (lookup : EnvLookup) (output : StringBuffer) (str : List UInt8) :
    interpolateBuffer lookup output str = Outcome.limit fun n => doInterpolate lookup (n + 1) output str :=
  (Outcome.limit_succ (chain_doInterpolate lookup output str)).symm

@[simp] theorem interpolateBuffer_nil (lookup : EnvLookup) (output : StringBuffer) :
    interpolateBuffer lookup output [] = .ok output := by
  rw [interpolateBuffer_eq]
  exact Outcome.limit_const _

theorem interpolateBuffer_char {ch : UInt8} {rest : List UInt8} (h : opensVar lookup.vars.isSome ch rest = false) :
    interpolateBuffer lookup output (ch :: rest) = interpolateBuffer lookup (output.add [ch]) rest := by
  rw [interpolateBuffer_eq]
  simp only [doInterpolate, h, Bool.false_eq_true, if_false]
  rfl

theorem interpolateBuffer_unbalanced {ch : UInt8} {rest : List UInt8}
    (h : opensVar lookup.vars.isSome ch rest = true) (hparen : findEndParen 0 rest.tail = none) :
    interpolateBuffer lookup output (ch :: rest) = .error .interpolationFailed := by
  rw [interpolateBuffer_eq]
  simp only [doInterpolate, h, if_true, hparen, Outcome.limit_const]

theorem interpolateBuffer_var {ch : UInt8} {rest : List UInt8} {len : Nat}
    (h : opensVar lookup.vars.isSome ch rest = true) (hparen : findEndParen 0 rest.tail = some len) :
    interpolateBuffer lookup output (ch :: rest) = interpolateVar (interpolateBuffer lookup) lookup output
    (rest.tail.take len) >>= fun output =>
      interpolateBuffer lookup output (rest.tail.drop (len + 1)) := by
  rw [interpolateBuffer_eq]
  simp only [doInterpolate, h, if_true, hparen]
  rw [Outcome.limit_bind]
  · rw [limit_interpolateVar (chain_doInterpolate lookup)]
    rfl
  · exact fun n => interpolateVar_below (fun b str => chain_doInterpolate lookup b str n) (.refl lookup) _ _
  · exact fun output => chain_doInterpolate lookup output _

noncomputable def nenvInterpolate (lookup : EnvLookup) (str : List UInt8) : Outcome InterpolateError (List UInt8) :=
  StringBuffer.contents <$> interpolateBuffer lookup .empty str

theorem chain_luaInterpolate (lookup : EnvLookup) (str : List UInt8) :
    Chain fun fuel => luaInterpolate lookup fuel str :=
  fun n => (chain_doInterpolate lookup .empty str n).bind fun _ => .refl _

theorem nenvInterpolate_eq_limit (lookup : EnvLookup) (str : List UInt8) :
    nenvInterpolate lookup str = Outcome.limit fun fuel => luaInterpolate lookup fuel str := by
  simp only [nenvInterpolate, luaInterpolate, map_eq_pure_bind]
  rw [Outcome.limit_bind (chain_doInterpolate lookup .empty str) fun _ _ => .refl _]
  simp only [Outcome.limit_const]
  rfl

/-- What `nenv.interpolate` comes to is what it comes to with enough fuel. -/
theorem nenvInterpolate_eq_iff {str : List UInt8} {r : Outcome InterpolateError (List UInt8)} (hr : r ≠ .outOfFuel) :
    nenvInterpolate lookup str = r ↔ ∃ fuel, luaInterpolate lookup fuel str = r := by
  rw [nenvInterpolate_eq_limit, Outcome.limit_eq_iff (chain_luaInterpolate lookup str) hr]

theorem interpolateBuffer_below (hlookup : lookup.Below Lossy lookup')
    (hvars : lookup.vars.isSome = lookup'.vars.isSome) (output : StringBuffer) (str : List UInt8) :
    Below Lossy (interpolateBuffer lookup output str) (interpolateBuffer lookup' output str) :=
  Outcome.limit_below (chain_doInterpolate lookup output str) (chain_doInterpolate lookup' output str)
    fun _ => doInterpolate_below hlookup hvars le_rfl output str

theorem nenvInterpolate_below (hlookup : lookup.Below Lossy lookup')
    (hvars : lookup.vars.isSome = lookup'.vars.isSome) (str : List UInt8) :
    Below Lossy (nenvInterpolate lookup str) (nenvInterpolate lookup' str) :=
  (interpolateBuffer_below hlookup hvars .empty str).bind fun _ => .refl _

end Tundra
