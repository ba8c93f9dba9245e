import Tundra.Json.Lexer

/-!
# Parsing JSON

`JsonParse`, a recursive descent over the lexemes with one lexeme of lookahead. Objects and arrays keep track of
their commas in different ways: an object by two flags while it takes the lexemes one by one, an array by the
number of its values and by peeking.

Every call and every turn of a loop uses up one unit of fuel. `jsonParse` has enough of it: it never runs out
(`jsonParse_ne_outOfFuel`).
-/

namespace Tundra

/-- What a parser function ends with; `failed` is a null pointer with the line and the text of the message. -/
inductive JsonParsed (α : Type) where
  | ok (value : α) (lexer : JsonLexerState)
  | failed (line : Nat) (error : String)
  | outOfFuel

def jsonError {α : Type} (lexer : JsonLexerState) (error : String) : JsonParsed α := .failed lexer.lineNumber error

section Parser

variable (strtod : List UInt8 → Rat × Nat)

mutual

def jsonParseValue : Nat → JsonLexerState → JsonParsed JsonValue
  | 0, _ => .outOfFuel
  | fuel + 1, lexer =>
      let (l, lexer) := lexer.peek strtod
      match l with
      | .beginObject => jsonParseObject fuel lexer
      | .beginArray => jsonParseArray fuel lexer
      | .string s => .ok (.string s) (lexer.skip strtod)
      | .number n => .ok (.number n) (lexer.skip strtod)
      | .boolean b => .ok (.boolean b) (lexer.skip strtod)
      | .null => .ok .null (lexer.skip strtod)
      | _ => jsonError lexer "invalid document"

def jsonParseObject : Nat → JsonLexerState → JsonParsed JsonValue
  | 0, _ => .outOfFuel
  | fuel + 1, lexer =>
      let (l, lexer) := lexer.next strtod
      if l = .beginObject then objectLoop fuel lexer [] false false else jsonError lexer "expected '\x7b'"

/-- The loop of `JsonParseObject`. -/
def objectLoop : Nat → JsonLexerState → JsonObject → Bool → Bool → JsonParsed JsonValue
  | 0, _, _, _, _ => .outOfFuel
  | fuel + 1, lexer, kvPairs, seenValue, seenComma =>
      let (l, lexer) := lexer.next strtod
      match l with
      | .string key =>
          if seenValue ∧ ¬seenComma then jsonError lexer "expected ','"
          else
            let (l, lexer) := lexer.next strtod
            if l = .nameSeparator then
              match jsonParseValue fuel lexer with
              | .ok value lexer => objectLoop fuel lexer (kvPairs ++ [(key, value)]) true false
              | .failed line error => .failed line error
              | .outOfFuel => .outOfFuel
            else jsonError lexer "expected ':'"
      | .endObject => .ok (.object kvPairs) lexer
      | .valueSeparator =>
          if ¬seenValue then jsonError lexer "expected key name"
          else if seenComma then jsonError lexer "duplicate comma"
          else objectLoop fuel lexer kvPairs false true
      | _ => jsonError lexer "expected object to continue"

def jsonParseArray : Nat → JsonLexerState → JsonParsed JsonValue
  | 0, _ => .outOfFuel
  | fuel + 1, lexer =>
      let (l, lexer) := lexer.next strtod
      if l = .beginArray then arrayLoop fuel lexer [] else jsonError lexer "expected '['"

/-- The loop of `JsonParseArray`. -/
def arrayLoop : Nat → JsonLexerState → List JsonValue → JsonParsed JsonValue
  | 0, _, _ => .outOfFuel
  | fuel + 1, lexer, values =>
      let (l, lexer) := lexer.peek strtod
      if l = .endArray then .ok (.array values) (lexer.skip strtod)
      else if values.length > 0 ∧ l ≠ .valueSeparator then jsonError lexer "expected ','"
      else
        match jsonParseValue fuel (if values.length > 0 then lexer.skip strtod else lexer) with
        | .ok value lexer => arrayLoop fuel lexer (values ++ [value])
        | .failed line error => .failed line error
        | .outOfFuel => .outOfFuel

end

/-- `JsonParse`: the document, or the line and the text of the message. -/
def jsonParse (buffer : CString) : JsonParsed JsonValue :=
  match jsonParseValue strtod (4 * buffer.bytes.length + 4) (.init buffer) with
  | .ok root lexer =>
      let (l, lexer) := lexer.next strtod
      if l = .eof then .ok root lexer else jsonError lexer "data after document"
  | .failed line error => .failed line error
  | .outOfFuel => .outOfFuel

end Parser

end Tundra
