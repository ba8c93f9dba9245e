import Mathlib.Data.List.TakeWhile
import Mathlib.Data.List.Basic

/-!
# Lua patterns

The pattern matcher of `lstrlib.c` in the C locale: `match`, `gmatch` and `gsub` of the string library. A
pattern ends at its first terminator; a place in the subject is the list of the bytes from there on.
-/

namespace Tundra.Lua

inductive PatternError where
  | endsWithEscape
  | missingBracket
  | unbalanced
  | missingFrontierSet
  | invalidCaptureIndex
  | invalidPatternCapture
  | tooManyCaptures
  | unfinishedCapture
  | outOfFuel
deriving DecidableEq

/-- `len` of a capture. -/
inductive CaptureLen where
  | unfinished
  | position
  | closed (len : Nat)
deriving DecidableEq

/-- An entry of `capture`; its `init` is a place in the subject. -/
structure Capture where
  init : List UInt8
  len : CaptureLen
deriving DecidableEq

def LUA_MAXCAPTURES : Nat := 32

inductive PatternItem where
  | any
  | cls (cl : UInt8)
  | set (negated : Bool) (content : List UInt8)
  | char (ch : UInt8)
deriving DecidableEq

/-! ### Items -/

def isDigit (c : UInt8) : Bool := 48 ≤ c && c ≤ 57
def isLower (c : UInt8) : Bool := 97 ≤ c && c ≤ 122
def isUpper (c : UInt8) : Bool := 65 ≤ c && c ≤ 90
def isAlpha (c : UInt8) : Bool := isLower c || isUpper c
def isAlnum (c : UInt8) : Bool := isAlpha c || isDigit c
def isCntrl (c : UInt8) : Bool := c < 32 || c = 127
def isPunct (c : UInt8) : Bool := 33 ≤ c && c ≤ 126 && !isAlnum c
def isBlank (c : UInt8) : Bool := c = 32 || (9 ≤ c && c ≤ 13)
def isXdigit (c : UInt8) : Bool := isDigit c || (97 ≤ c && c ≤ 102) || (65 ≤ c && c ≤ 70)

def toLower (c : UInt8) : UInt8 := if isUpper c then c + 32 else c

/-- The classes of `match_class` by their small letters. -/
def charClass (cl c : UInt8) : Option Bool :=
  match cl.toNat with
  | 97 => some (isAlpha c)
  | 99 => some (isCntrl c)
  | 100 => some (isDigit c)
  | 108 => some (isLower c)
  | 112 => some (isPunct c)
  | 115 => some (isBlank c)
  | 117 => some (isUpper c)
  | 119 => some (isAlnum c)
  | 120 => some (isXdigit c)
  | 122 => some (c = 0)
  | _ => none

def matchClass (c cl : UInt8) : Bool :=
  match charClass (toLower cl) c with
  | some res => if isLower cl then res else !res
  | none => cl = c

/-- The loop of `matchbracketclass` over what is between the brackets. -/
def matchSet (c : UInt8) : List UInt8 → Bool
  | 37 :: cl :: rest => matchClass c cl || matchSet c rest
  | first :: 45 :: last :: rest => (first ≤ c && c ≤ last) || matchSet c rest
  | ch :: rest => ch = c || matchSet c rest
  | [] => false

def singleMatch (c : UInt8) : PatternItem → Bool
  | .any => true
  | .cls cl => matchClass c cl
  | .set negated content => matchSet c content != negated
  | .char ch => ch = c

/-- The loop of `classend` that looks for a `]`: what is in front of it, and what is behind. -/
def setEnd : List UInt8 → Except PatternError (List UInt8 × List UInt8)
  | [] => .error .missingBracket
  | [_] => .error .missingBracket
  | ch :: next :: rest =>
      if ch = 37 then
        match rest with
        | 93 :: behind => .ok ([ch, next], behind)
        | _ => do
            let (content, behind) ← setEnd rest
            return (ch :: next :: content, behind)
      else if next = 93 then .ok ([ch], rest)
      else do
        let (content, behind) ← setEnd (next :: rest)
        return (ch :: content, behind)

/-- `classend`: the item a pattern begins with, and what is next. -/
def classEnd : List UInt8 → Except PatternError (PatternItem × List UInt8)
  | [] => .error .outOfFuel
  | 37 :: rest =>
      match rest with
      | [] => .error .endsWithEscape
      | cl :: next => .ok (.cls cl, next)
  | 91 :: rest => do
      let (negated, body) := match rest with
        | 94 :: body => (true, body)
        | body => (false, body)
      let (content, next) ← setEnd body
      return (.set negated content, next)
  | ch :: next => .ok (if ch = 46 then .any else .char ch, next)

/-! ### `match` -/

/-- Where a match ended, with the captures there. -/
abbrev MatchResult := Except PatternError (Option (List UInt8 × List Capture))

/-- `max_expand`; `rest` matches what is behind the item. -/
def maxExpand (rest : List UInt8 → MatchResult) (item : PatternItem) : List UInt8 → MatchResult
  | [] => rest []
  | c :: s =>
      if singleMatch c item then do
        match ← maxExpand rest item s with
        | some res => return some res
        | none => rest (c :: s)
      else rest (c :: s)

def minExpand (rest : List UInt8 → MatchResult) (item : PatternItem) : List UInt8 → MatchResult
  | [] => rest []
  | c :: s => do
      match ← rest (c :: s) with
      | some res => return some res
      | none => if singleMatch c item then minExpand rest item s else return none

/-- The loop of `matchbalance`. -/
def balance (b e : UInt8) : Nat → List UInt8 → Option (List UInt8)
  | _, [] => none
  | cont, c :: s =>
      if c = e then if cont = 1 then some s else balance b e (cont - 1) s
      else balance b e (if c = b then cont + 1 else cont) s

def matchBalance (b e : UInt8) : List UInt8 → Option (List UInt8)
  | [] => none
  | c :: s => if c = b then balance b e 1 s else none

def previousByte (src s : List UInt8) :
    UInt8 := if s.length = src.length then 0 else src.getD (src.length - s.length - 1) 0

def captureToClose (captures : List Capture) : Except PatternError Nat :=
  match captures.reverse.findIdx? (·.len = .unfinished) with
  | some k => .ok (captures.length - 1 - k)
  | none => .error .invalidPatternCapture

def matchCapture (captures : List Capture) (s : List UInt8) (digit : UInt8) :
    Except PatternError (Option (List UInt8)) :=
  match if 49 ≤ digit then captures[digit.toNat - 49]? else none with
  | none => .error .invalidCaptureIndex
  | some capture =>
      match capture.len with
      | .unfinished => .error .invalidCaptureIndex
      | .position => .ok none
      | .closed len => .ok (if len ≤ s.length ∧ capture.init.take len = s.take len then some (s.drop len) else none)

/-- The `dflt` case of `match`: an item and its repetition. `matchRest` is `match` with the captures there are. -/
def matchDefault (matchRest : List UInt8 → List UInt8 → MatchResult) (p s : List UInt8) : MatchResult := do
  let (item, ep) ← classEnd p
  let m := s.head?.any (singleMatch · item)
  match ep.head? with
  | some 63 => do
      match ← if m then matchRest ep.tail s.tail else .ok none with
      | some res => return some res
      | none => matchRest ep.tail s
  | some 42 => maxExpand (matchRest ep.tail) item s
  | some 43 => if m then maxExpand (matchRest ep.tail) item s.tail else return none
  | some 45 => minExpand (matchRest ep.tail) item s
  | _ => if m then matchRest ep s.tail else return none

/-- `match`, with a bound on its depth that the length of the pattern gives. -/
def matchPattern (src : List UInt8) : Nat → List UInt8 → List UInt8 → List Capture → MatchResult
  | 0, _, _, _ => .error .outOfFuel
  | fuel + 1, p, s, captures =>
      match p with
      | [] => .ok (some (s, captures))
      | 40 :: rest =>
          if captures.length ≥ LUA_MAXCAPTURES then .error .tooManyCaptures
          else
            match rest with
            | 41 :: rest => matchPattern src fuel rest s (captures ++ [⟨s, .position⟩])
            | _ => matchPattern src fuel rest s (captures ++ [⟨s, .unfinished⟩])
      | 41 :: rest => do
          let l ← captureToClose captures
          matchPattern src fuel rest s
            (captures.modify l fun capture => { capture with len := .closed (capture.init.length - s.length) })
      | 37 :: 98 :: rest =>
          match rest with
          | b :: e :: rest =>
              match matchBalance b e s with
              | none => .ok none
              | some s => matchPattern src fuel rest s captures
          | _ => .error .unbalanced
      | 37 :: 102 :: rest =>
          if rest.head? ≠ some 91 then .error .missingFrontierSet
          else do
            let (item, next) ← classEnd rest
            if singleMatch (previousByte src s) item || !singleMatch (s.headD 0) item then return none
            else matchPattern src fuel next s captures
      | _ =>
          match p.head? == some 37 && (p.getD 1 0 |> isDigit) with
          | true => do
              match ← matchCapture captures s (p.getD 1 0) with
              | none => return none
              | some s => matchPattern src fuel (p.drop 2) s captures
          | false =>
              if p = [36] then .ok (if s = [] then some (s, captures) else none)
              else matchDefault (fun p s => matchPattern src fuel p s captures) p s

/-- A try at one place, with no captures. -/
def matchAt (src p s : List UInt8) : MatchResult := matchPattern src (p.length + 1) p s []

/-- The loop of `str_find_aux`: the place and the end of the first match. -/
def findMatch (src p : List UInt8) (anchor : Bool) :
    List UInt8 → Except PatternError (Option (List UInt8 × List UInt8 × List Capture))
  | [] => do
      match ← matchAt src p [] with
      | some (e, captures) => return some ([], e, captures)
      | none => return none
  | c :: s => do
      match ← matchAt src p (c :: s) with
      | some (e, captures) => return some (c :: s, e, captures)
      | none => if anchor then return none else findMatch src p anchor s

/-- What a match gives back: a piece of the subject, or a position. -/
inductive MatchValue where
  | text (bytes : List UInt8)
  | position (index : Nat)
deriving DecidableEq

def pushOneCapture (src : List UInt8) (capture : Capture) : Except PatternError MatchValue :=
  match capture.len with
  | .unfinished => .error .unfinishedCapture
  | .position => .ok (.position (src.length - capture.init.length + 1))
  | .closed len => .ok (.text (capture.init.take len))

def pushCaptures (src start e : List UInt8) (captures : List Capture) : Except PatternError (List MatchValue) :=
  if captures = [] then .ok [.text (start.take (start.length - e.length))] else captures.mapM (pushOneCapture src)

def patternText (p : List UInt8) : List UInt8 := p.takeWhile (· ≠ 0)

/-- `str_match`: what is found, or nothing for `nil`. -/
def strMatch (src p : List UInt8) : Except PatternError (Option (List MatchValue)) := do
  let (anchor, p) := match patternText p with
    | 94 :: p => (true, p)
    | p => (false, p)
  match ← findMatch src p anchor src with
  | none => return none
  | some (start, e, captures) => some <$> pushCaptures src start e captures

/-- `gmatch`: the first values of its matches, one after the other, with a bound on the length of the subject. -/
def gmatchFrom (src p : List UInt8) : Nat → List UInt8 → Except PatternError (List MatchValue)
  | 0, _ => .ok []
  | steps + 1, s => do
      match ← findMatch src p false s with
      | none => return []
      | some (start, e, captures) => do
          let values ← pushCaptures src start e captures
          -- an empty match goes on behind the next byte, if there is one
          let rest ← if e ≠ start then gmatchFrom src p steps e
            else match e with
              | [] => .ok []
              | _ :: s => gmatchFrom src p steps s
          return values.take 1 ++ rest

def gmatch (src p : List UInt8) :
    Except PatternError (List MatchValue) := gmatchFrom src (patternText p) (src.length + 1) src

/-- `add_s` with a replacement that names no captures: the signs behind escapes. -/
def addReplacement : List UInt8 → List UInt8
  | 37 :: ch :: rest => ch :: addReplacement rest
  | ch :: rest => ch :: addReplacement rest
  | [] => []

/-- The loop of `str_gsub` for a replacement that names no captures. -/
def gsubFrom (src p replacement : List UInt8) : Nat → List UInt8 → Except PatternError (List UInt8)
  | 0, s => .ok s
  | steps + 1, s => do
      match ← matchAt src p s with
      | some (e, _) =>
          let added := addReplacement replacement
          if e.length < s.length then return added ++ (← gsubFrom src p replacement steps e)
          else
            match s with
            | [] => return added
            | c :: s => return added ++ c :: (← gsubFrom src p replacement steps s)
      | none =>
          match s with
          | [] => return []
          | c :: s => return c :: (← gsubFrom src p replacement steps s)

/-- The text `str_gsub` gives back, for a pattern without an anchor. -/
def gsub (src p replacement : List UInt8) :
    Except PatternError (List UInt8) := gsubFrom src (patternText p) replacement (src.length + 1) src

/-! ### Single items -/

/-- An item goes as far as it can when what is behind it never begins where the item could go on. -/
theorem maxExpand_stops {rest : List UInt8 → MatchResult} {item : PatternItem}
    (hrest : ∀ c s, singleMatch c item = true → rest (c :: s) = .ok none) (s : List UInt8) :
    maxExpand rest item s = rest (s.dropWhile (singleMatch · item)) := by
  induction s with
  | nil => rfl
  | cons c s ih =>
      rw [maxExpand, ih, List.dropWhile_cons]
      by_cases hc : singleMatch c item = true
      · rw [if_pos hc, if_pos hc, hrest c s hc]
        cases rest (s.dropWhile (singleMatch · item)) with
        | error err => rfl
        | ok res => cases res <;> rfl
      · rw [if_neg hc, if_neg hc]

/-- An item with nothing behind it goes as far as it can. -/
theorem maxExpand_takes {rest : List UInt8 → MatchResult} {item : PatternItem} {captures : List Capture}
    (hrest : ∀ s, rest s = .ok (some (s, captures))) (s : List UInt8) :
    maxExpand rest item s = .ok (some (s.dropWhile (singleMatch · item), captures)) := by
  induction s with
  | nil => exact hrest []
  | cons c s ih =>
      rw [maxExpand, ih, List.dropWhile_cons]
      by_cases hc : singleMatch c item = true
      · rw [if_pos hc, if_pos hc]
        rfl
      · rw [if_neg hc, if_neg hc]
        exact hrest _

def beginsItem : List UInt8 → Bool
  | [] => false
  | [36] => false
  | 37 :: ch :: _ => ch != 98 && ch != 102 && !isDigit ch
  | ch :: _ => ch != 40 && ch != 41

theorem matchPattern_default {src p s : List UInt8} {captures : List Capture} {fuel : Nat} (hp : beginsItem p = true) :
    matchPattern src (fuel + 1) p s captures = matchDefault (fun p s => matchPattern src fuel p s captures) p s := by
  rw [matchPattern]
  · have hdigit : (p.head? == some 37 && (p.getD 1 0 |> isDigit)) = false := by
      rcases p with _ | ⟨c, _ | ⟨ch, rest⟩⟩
      · rfl
      · cases hc : (some c == some (37 : UInt8)) <;> simp [hc, isDigit]
      · by_cases hc : c = 37
        · subst hc
          simp only [beginsItem, Bool.and_eq_true] at hp
          simpa using hp.2
        · simp [hc]
    have hend : p ≠ [36] := by
      rintro rfl
      simp [beginsItem] at hp
    rw [hdigit]
    exact if_neg hend
  · rintro rfl
    simp [beginsItem] at hp
  · rintro rest rfl
    cases rest <;> simp [beginsItem] at hp
  · rintro rest rfl
    cases rest <;> simp [beginsItem] at hp
  · rintro rest rfl
    simp [beginsItem] at hp
  · rintro rest rfl
    simp [beginsItem] at hp

/-- A sign that says how often the item in front of it is repeated. -/
def isRepetition (ch : UInt8) : Bool := ([42, 43, 45, 63] : List UInt8).contains ch

theorem matchPattern_once {src p ep s : List UInt8} {item : PatternItem} {captures : List Capture} {fuel : Nat}
    (hp : beginsItem p = true) (hclass : classEnd p = .ok (item, ep)) (hep : ep.head?.any isRepetition = false) :
    matchPattern src (fuel + 1) p s captures =
      if s.head?.any (singleMatch · item) then matchPattern src fuel ep s.tail captures else .ok none := by
  rw [matchPattern_default hp, matchDefault, hclass]
  cases ep with
  | nil => rfl
  | cons ch ep =>
      have hne : ch ≠ 42 ∧ ch ≠ 43 ∧ ch ≠ 45 ∧ ch ≠ 63 := by simpa [isRepetition] using hep
      simp only [bind, Except.bind, List.head?_cons]
      split
      · rename_i heq
        exact absurd (Option.some.inj heq) hne.2.2.2
      · rename_i heq
        exact absurd (Option.some.inj heq) hne.1
      · rename_i heq
        exact absurd (Option.some.inj heq) hne.2.1
      · rename_i heq
        exact absurd (Option.some.inj heq) hne.2.2.1
      · rfl

theorem matchPattern_plus {src p ep s : List UInt8} {item : PatternItem} {captures : List Capture} {fuel : Nat}
    (hp : beginsItem p = true) (hclass : classEnd p = .ok (item, 43 :: ep)) :
    matchPattern src (fuel + 1) p s captures =
      if s.head?.any (singleMatch · item) then maxExpand (matchPattern src fuel ep · captures) item s.tail
      else .ok none := by
  rw [matchPattern_default hp, matchDefault, hclass]
  rfl

/-- A byte that is an item of its own, unless it is the sign for the end. -/
def isOrdinary (ch : UInt8) : Bool := !([37, 40, 41, 46, 91] : List UInt8).contains ch

theorem matchPattern_char {src p s : List UInt8} {captures : List Capture} {fuel : Nat} {ch : UInt8}
    (hch : isOrdinary ch = true) (hend : ch :: p ≠ [36]) (hp : p.head?.any isRepetition = false) :
    matchPattern src (fuel + 1)
    (ch :: p) s captures = if s.head? = some ch then matchPattern src fuel p s.tail captures else .ok none := by
  have hne : ch ≠ 37 ∧ ch ≠ 40 ∧ ch ≠ 41 ∧ ch ≠ 46 ∧ ch ≠ 91 := by simpa [isOrdinary] using hch
  obtain ⟨h37, h40, h41, h46, h91⟩ := hne
  have hbegins : beginsItem (ch :: p) = true := by
    rw [beginsItem]
    · simp [h40, h41]
    · simpa using hend
    · simp [h37]
  have hclass : classEnd (ch :: p) = .ok (.char ch, p) := by
    rw [classEnd]
    · rw [if_neg h46]
    · exact h37
    · exact h91
  rw [matchPattern_once hbegins hclass hp]
  cases s with
  | nil => rfl
  | cons c s => simp [singleMatch, eq_comm]

theorem matchPattern_end {src s : List UInt8} {captures : List Capture} {fuel : Nat} :
    matchPattern src (fuel + 1) [36] s captures = .ok (if s = [] then some (s, captures) else none) := rfl

end Tundra.Lua
