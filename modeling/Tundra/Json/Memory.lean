import Tundra.Json.Parser
import Tundra.Lib.Bytes
import Tundra.Lib.Checked
import Tundra.Lib.Region

/-!
# JSON in the buffer

The lexer and the parser of `JsonParse.cpp` on the buffer they are given. `GetStringLexeme` writes a string over
its own text, from the opening quote on, and lexemes and values hold pointers to what it has written. An access
outside the buffer ends a run.

In front of the cursor the buffer holds strings, from the cursor on it is as it was given. This is what every
operation of the lexer keeps.
-/

namespace Tundra

open Bytes

open Checked (MemoryFault)

namespace JsonMemory

def readByte (buffer : List UInt8) (ptr : Nat) : Except MemoryFault UInt8 :=
  match buffer[ptr]? with
  | some ch => .ok ch
  | none => .error .overrun

def writeByte (buffer : List UInt8) (ptr : Nat) (ch : UInt8) : Except MemoryFault (List UInt8) :=
  if ptr < buffer.length then .ok (buffer.set ptr ch) else .error .overrun

/-- The string at a pointer, as a library function reads it. -/
def readText (buffer : List UInt8) (ptr : Nat) : Except MemoryFault (List UInt8) :=
  match readString buffer ptr with
  | some text => .ok text
  | none => .error .overrun

/-- A loop that goes over all bytes of a kind: where it stops. -/
def scanWhile (p : UInt8 → Bool) (buffer : List UInt8) (ptr : Nat) : Except MemoryFault Nat :=
  let stop := ptr + ((buffer.drop ptr).takeWhile p).length
  if stop < buffer.length then .ok stop else .error .overrun

/-- `JsonLexeme`, where a string is a pointer. -/
inductive Lexeme where
  | string (ptr : Nat)
  | number (n : Rat)
  | valueSeparator
  | nameSeparator
  | beginObject
  | beginArray
  | endObject
  | endArray
  | boolean (b : Bool)
  | null
  | eof
  | error
deriving DecidableEq

/-- `JsonValue`, where strings are pointers. -/
inductive Value where
  | null
  | boolean (b : Bool)
  | object (members : List (Nat × Value))
  | array (values : List Value)
  | string (ptr : Nat)
  | number (n : Rat)

/-- `JsonLexerState`. -/
structure LexerState where
  buffer : List UInt8
  cursor : Nat
  lineNumber : Nat
  lexeme : Option Lexeme
deriving DecidableEq

/-! ### `GetStringLexeme` -/

/-- The digits of a hexadecimal code, and the place behind them. The end of the text is no digit. -/
def hexLoop (buffer : List UInt8) : Nat → Nat → Nat → Except MemoryFault (Option (Nat × Nat))
  | 0, rptr, hexCode => .ok (some (hexCode, rptr))
  | i + 1, rptr, hexCode => do
      let code ← readByte buffer rptr
      match hexDigit code with
      | some digit => hexLoop buffer i (rptr + 1) (hexCode * 16 + digit)
      | none => return none

/-- What one turn of the loop of `GetStringLexeme` ends with. -/
inductive StringTurn where
  | next (buffer : List UInt8) (rptr wptr : Nat)
  | done (buffer : List UInt8) (rptr : Nat)
  | failed
deriving DecidableEq

/-- One turn of the loop of `GetStringLexeme`. -/
def stringTurn (buffer : List UInt8) (rptr wptr : Nat) : Except MemoryFault StringTurn := do
  let ch ← readByte buffer rptr
  if ch = 0 then return .failed
  else if ch = ascii '"' then
    let buffer ← writeByte buffer wptr 0
    return .done buffer (rptr + 1)
  else if ch = ascii '\\' then
    let next ← readByte buffer (rptr + 1)
    match escapedChar next with
    | some c =>
        let buffer ← writeByte buffer wptr c
        return .next buffer (rptr + 2) (wptr + 1)
    | none =>
        if next = ascii 'u' then
          match ← hexLoop buffer 4 (rptr + 2) 0 with
          | some (hexCode, rptr) =>
              if hexCode > 127 then return .failed
              else
                let buffer ← writeByte buffer wptr (.ofNat hexCode)
                return .next buffer rptr (wptr + 1)
          | none => return .failed
        else return .failed
  else
    let buffer ← writeByte buffer wptr ch
    return .next buffer (rptr + 1) (wptr + 1)

/-- The loop of `GetStringLexeme`: the buffer, and the place behind the closing quote unless there is an error. -/
def stringLoop : Nat → List UInt8 → Nat → Nat → Except MemoryFault (List UInt8 × Option Nat)
  | 0, _, _, _ => .error .stuck
  | fuel + 1, buffer, rptr, wptr => do
      match ← stringTurn buffer rptr wptr with
      | .next buffer rptr wptr => stringLoop fuel buffer rptr wptr
      | .done buffer rptr => return (buffer, some rptr)
      | .failed => return (buffer, none)

def getStringLexeme (state : LexerState) : Except MemoryFault (Lexeme × LexerState) := do
  match ← stringLoop state.buffer.length state.buffer (state.cursor + 1) state.cursor with
  | (buffer, some rptr) => return (.string state.cursor, { state with buffer := buffer, cursor := rptr })
  | (buffer, none) => return (.error, { state with buffer := buffer })

/-! ### The other lexemes -/

def getNumberLexeme (strtod : List UInt8 → Rat × Nat) (state : LexerState) :
    Except MemoryFault (Lexeme × LexerState) := do
  let text ← readText state.buffer state.cursor
  let (number, length) := strtod text
  return if length ≠ 0 then (.number number, { state with cursor := state.cursor + length }) else (.error, state)

def getLiteralLexeme (state : LexerState) : Except MemoryFault (Lexeme × LexerState) := do
  let eptr ← scanWhile isAlnum state.buffer state.cursor
  let word := (state.buffer.drop state.cursor).take (eptr - state.cursor)
  return if word = "true".toList.map ascii then (.boolean true, { state with cursor := eptr })
    else if word = "null".toList.map ascii then (.null, { state with cursor := eptr })
    else if word = "false".toList.map ascii then (.boolean false, { state with cursor := eptr })
    else (.error, state)

/-- `JsonLexerStateInit`. -/
def LexerState.init (buffer : List UInt8) : LexerState := ⟨buffer, 0, 1, none⟩

namespace LexerState

def skipWhitespace (state : LexerState) : Except MemoryFault LexerState := do
  let ptr ← scanWhile isSpace state.buffer state.cursor
  let space := (state.buffer.drop state.cursor).take (ptr - state.cursor)
  return { state with cursor := ptr, lineNumber := state.lineNumber + space.count (ascii '\n') }

/-- The cursor behind a lexeme of one byte. -/
def advance (state : LexerState) : LexerState := { state with cursor := state.cursor + 1 }

variable (strtod : List UInt8 → Rat × Nat)

/-- The switch of `JsonLexerFetchNext`. -/
def getLexeme (state : LexerState) : Except MemoryFault (Lexeme × LexerState) := do
  let ch ← readByte state.buffer state.cursor
  if ch = ascii '-' ∨ ascii '0' ≤ ch ∧ ch ≤ ascii '9' then getNumberLexeme strtod state
  else if ch = ascii '"' then getStringLexeme state
  else if ch = ascii '\x7b' then return (.beginObject, state.advance)
  else if ch = ascii '\x7d' then return (.endObject, state.advance)
  else if ch = ascii '[' then return (.beginArray, state.advance)
  else if ch = ascii ']' then return (.endArray, state.advance)
  else if ch = ascii ',' then return (.valueSeparator, state.advance)
  else if ch = ascii ':' then return (.nameSeparator, state.advance)
  else if ch = 0 then return (.eof, state)
  else getLiteralLexeme state

/-- `JsonLexerFetchNext`. -/
def fetchNext (state : LexerState) : Except MemoryFault (Lexeme × LexerState) := do
  let state ← state.skipWhitespace
  state.getLexeme strtod

/-- `JsonLexerPeek`. -/
def peek (state : LexerState) : Except MemoryFault (Lexeme × LexerState) := do
  match state.lexeme with
  | some lexeme => return (lexeme, state)
  | none =>
      let (lexeme, state) ← state.fetchNext strtod
      return (lexeme, { state with lexeme := some lexeme })

/-- `JsonLexerNext`. -/
def next (state : LexerState) : Except MemoryFault (Lexeme × LexerState) := do
  match state.lexeme with
  | some lexeme => return (lexeme, { state with lexeme := none })
  | none => state.fetchNext strtod

/-- `JsonLexerSkip`. -/
def skip (state : LexerState) : Except MemoryFault LexerState := do
  match state.lexeme with
  | some _ => return { state with lexeme := none }
  | none =>
      let (_, state) ← state.next strtod
      return state

end LexerState

/-! ### The parser -/

inductive Parsed (α : Type) where
  | ok (value : α) (lexer : LexerState)
  | failed (line : Nat) (error : String)
  | outOfFuel
  | fault (fault : MemoryFault)

def jsonError {α : Type} (lexer : LexerState) (error : String) : Parsed α := .failed lexer.lineNumber error

/-- What the parser does after an operation of the lexer. -/
def Parsed.after {α β : Type} (result : Except MemoryFault β) (k : β → Parsed α) : Parsed α :=
  match result with
  | .ok b => k b
  | .error reason => .fault reason

section Parser

variable (strtod : List UInt8 → Rat × Nat)

def valueOfLexeme (value : Value) (lexer : LexerState) :
    Parsed Value := .after (lexer.skip strtod) fun lexer => .ok value lexer

mutual

def jsonParseValue : Nat → LexerState → Parsed Value
  | 0, _ => .outOfFuel
  | fuel + 1, lexer =>
      .after (lexer.peek strtod) fun (l, lexer) =>
        match l with
        | .beginObject => jsonParseObject fuel lexer
        | .beginArray => jsonParseArray fuel lexer
        | .string ptr => valueOfLexeme strtod (.string ptr) lexer
        | .number n => valueOfLexeme strtod (.number n) lexer
        | .boolean b => valueOfLexeme strtod (.boolean b) lexer
        | .null => valueOfLexeme strtod .null lexer
        | _ => jsonError lexer "invalid document"

def jsonParseObject : Nat → LexerState → Parsed Value
  | 0, _ => .outOfFuel
  | fuel + 1, lexer =>
      .after (lexer.next strtod) fun (l, lexer) =>
        if l = .beginObject then objectLoop fuel lexer [] false false else jsonError lexer "expected '\x7b'"

/-- The loop of `JsonParseObject`. -/
def objectLoop : Nat → LexerState → List (Nat × Value) → Bool → Bool → Parsed Value
  | 0, _, _, _, _ => .outOfFuel
  | fuel + 1, lexer, kvPairs, seenValue, seenComma =>
      .after (lexer.next strtod) fun (l, lexer) =>
        match l with
        | .string key =>
            if seenValue ∧ ¬seenComma then jsonError lexer "expected ','"
            else
              .after (lexer.next strtod) fun (l, lexer) =>
                if l = .nameSeparator then
                  match jsonParseValue fuel lexer with
                  | .ok value lexer => objectLoop fuel lexer (kvPairs ++ [(key, value)]) true false
                  | .failed line error => .failed line error
                  | .outOfFuel => .outOfFuel
                  | .fault reason => .fault reason
                else jsonError lexer "expected ':'"
        | .endObject => .ok (.object kvPairs) lexer
        | .valueSeparator =>
            if ¬seenValue then jsonError lexer "expected key name"
            else if seenComma then jsonError lexer "duplicate comma"
            else objectLoop fuel lexer kvPairs false true
        | _ => jsonError lexer "expected object to continue"

def jsonParseArray : Nat → LexerState → Parsed Value
  | 0, _ => .outOfFuel
  | fuel + 1, lexer =>
      .after (lexer.next strtod) fun (l, lexer) =>
        if l = .beginArray then arrayLoop fuel lexer [] else jsonError lexer "expected '['"

/-- The loop of `JsonParseArray`. -/
def arrayLoop : Nat → LexerState → List Value → Parsed Value
  | 0, _, _ => .outOfFuel
  | fuel + 1, lexer, values =>
      .after (lexer.peek strtod) fun (l, lexer) =>
        if l = .endArray then valueOfLexeme strtod (.array values) lexer
        else if values.length > 0 ∧ l ≠ .valueSeparator then jsonError lexer "expected ','"
        else
          .after (if values.length > 0 then lexer.skip strtod else .ok lexer) fun lexer =>
            match jsonParseValue fuel lexer with
            | .ok value lexer => arrayLoop fuel lexer (values ++ [value])
            | .failed line error => .failed line error
            | .outOfFuel => .outOfFuel
            | .fault reason => .fault reason

end

def jsonParse (buffer : List UInt8) : Parsed Value :=
  match jsonParseValue strtod (4 * buffer.length + 4) (.init buffer) with
  | .ok root lexer =>
      .after (lexer.next strtod) fun (l, lexer) => if l = .eof then .ok root lexer
        else jsonError lexer "data after document"
  | .failed line error => .failed line error
  | .outOfFuel => .outOfFuel
  | .fault reason => .fault reason

end Parser

end JsonMemory

end Tundra
