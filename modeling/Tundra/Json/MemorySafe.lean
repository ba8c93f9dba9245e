import Tundra.Json.Grammar
import Tundra.Json.MemoryLexer

/-!
# The tree in the buffer

The parser on the buffer gives the tree of the parser on the text: what a pointer points to is decoded when the
lexeme is taken, lies in front of the cursor from then on, and is never written again. This holds with a lexeme
of lookahead as well, whose string is decoded before the parser asks for it.
-/

namespace Tundra

open Bytes Checked Region

namespace JsonMemory

section Lexer

variable {strtod : List UInt8 → Rat × Nat} {state s : LexerState} {state' : JsonLexerState} {l : Lexeme}
  {after text : List UInt8}

/-! ### Operations of the lexer -/

theorem skipWhitespace_eq (hunread : Unread after state.buffer state.cursor text) :
    state.skipWhitespace = .ok { state with
    cursor := state.cursor + (text.takeWhile isSpace).length
    lineNumber := state.lineNumber + (text.takeWhile isSpace).count (ascii '\n') } := by
  obtain ⟨hscan, hspace⟩ := scanWhile_eq (show isSpace 0 = false by decide) hunread
  rw [LexerState.skipWhitespace, hscan, ok_bind]
  dsimp only
  rw [Nat.add_sub_cancel_left, hspace]
  rfl

theorem drop_takeWhile (text : List UInt8) (p : UInt8 → Bool) :
    text.drop (text.takeWhile p).length = text.dropWhile p := by
  calc
    text.drop (text.takeWhile p).length = (text.takeWhile p ++ text.dropWhile p).drop (text.takeWhile p).length := by
      rw [List.takeWhile_append_dropWhile]
    _ = text.dropWhile p := List.drop_left

/-- What an operation of the lexer has done, when the one on the text has come to another state. After an error
nothing is said about the buffer. -/
structure Fetched (after : List UInt8) (state : LexerState) (l : Lexeme) (s : LexerState) (s' : JsonLexerState) :
    Prop where
  lineNumber : s.lineNumber = s'.lineNumber
  moved : l ≠ .error → Moved state s
  unread : l ≠ .error → Unread after s.buffer s.cursor s'.cursor
  below : l ≠ .error → l.Below s.buffer s.cursor

theorem fetchNext_fetched (hstrtod : ∀ text, (strtod text).2 ≤ text.length)
    (hunread : Unread after state.buffer state.cursor state'.cursor) (hline : state.lineNumber = state'.lineNumber) :
    ∃ l s s', state.fetchNext strtod = .ok (l, s) ∧ state'.fetchNext strtod = (l.read s.buffer, s') ∧
      s.lexeme = state.lexeme ∧ s'.lexeme = state'.lexeme ∧ Fetched after state l s s' := by
  have hle := (List.takeWhile_prefix (l := state'.cursor) isSpace).length_le
  have hunread₁ := hunread.drop hle
  rw [drop_takeWhile] at hunread₁
  obtain ⟨l, s, hget, hlexed⟩ := @getLexeme_lexed _ { state with
    cursor := state.cursor + (state'.cursor.takeWhile isSpace).length
    lineNumber := state.lineNumber + (state'.cursor.takeWhile isSpace).count (ascii '\n') } _ _ hstrtod hunread₁
  refine ⟨l, s, (state'.fetchNext strtod).2, ?_, Prod.ext hlexed.read.symm rfl, hlexed.lexeme, rfl, ?_, ?_,
    hlexed.unread, hlexed.below⟩
  · rw [LexerState.fetchNext, skipWhitespace_eq hunread, ok_bind, hget]
  · rw [hlexed.lineNumber, hline]
    rfl
  · intro hl
    have hspace : Moved state { state with
        cursor := state.cursor + (state'.cursor.takeWhile isSpace).length
        lineNumber := state.lineNumber + (state'.cursor.takeWhile isSpace).count (ascii '\n') } := ⟨Nat.le_add_right _ _, .refl _ _ _⟩
    exact hspace.trans (hlexed.moved hl)

/-- The lexer on the buffer and the lexer on the text. -/
structure Follows (after : List UInt8) (state : LexerState) (state' : JsonLexerState) : Prop where
  unread : Unread after state.buffer state.cursor state'.cursor
  lineNumber : state.lineNumber = state'.lineNumber
  lexeme : state.lexeme.map (Lexeme.read state.buffer) = state'.lexeme
  below : ∀ l ∈ state.lexeme, l.Below state.buffer state.cursor

theorem next_fetched (hstrtod : ∀ text, (strtod text).2 ≤ text.length) (h : Follows after state state') :
    ∃ l s s', state.next strtod = .ok (l, s) ∧ state'.next strtod = (l.read s.buffer, s') ∧ Fetched after state l s s' ∧
      (l ≠ .error → Follows after s s') := by
  have hlexeme' := h.lexeme
  rw [LexerState.next, JsonLexerState.next]
  cases hlexeme : state.lexeme with
  | some l =>
      rw [hlexeme] at hlexeme'
      have hbelow := h.below l hlexeme
      rw [← hlexeme']
      refine ⟨l, { state with lexeme := none }, { state' with lexeme := none }, rfl, rfl, ?_, ?_⟩
      · exact ⟨h.lineNumber, fun _ => ⟨Nat.le_refl _, .refl _ _ _⟩, fun _ => h.unread, fun _ => hbelow⟩
      · intro _
        exact ⟨h.unread, h.lineNumber, rfl, (by simp)⟩
  | none =>
      rw [hlexeme] at hlexeme'
      obtain ⟨l, s, s', hfetch, hfetch', hnone, hnone', hfetched⟩ := fetchNext_fetched hstrtod h.unread h.lineNumber
      rw [← hlexeme']
      refine ⟨l, s, s', hfetch, hfetch', hfetched, ?_⟩
      intro hl
      rw [hlexeme] at hnone
      rw [← hlexeme'] at hnone'
      refine ⟨hfetched.unread hl, hfetched.lineNumber, ?_, ?_⟩
      · rw [hnone, hnone']
        rfl
      · rw [hnone]
        simp

theorem peek_fetched (hstrtod : ∀ text, (strtod text).2 ≤ text.length) (h : Follows after state state') :
    ∃ l s s', state.peek strtod = .ok (l, s) ∧ state'.peek strtod = (l.read s.buffer, s') ∧ s.lexeme = some l ∧
    s'.lexeme = some (l.read s.buffer) ∧
      Fetched after state l s s' ∧ (l ≠ .error → Follows after s s') := by
  have hlexeme' := h.lexeme
  rw [LexerState.peek, JsonLexerState.peek]
  cases hlexeme : state.lexeme with
  | some l =>
      rw [hlexeme] at hlexeme'
      have hbelow := h.below l hlexeme
      rw [← hlexeme']
      refine ⟨l, state, state', rfl, rfl, hlexeme, hlexeme'.symm, ?_, ?_⟩
      · exact ⟨h.lineNumber, fun _ => .refl state, fun _ => h.unread, fun _ => hbelow⟩
      · intro _
        exact h
  | none =>
      rw [hlexeme] at hlexeme'
      obtain ⟨l, s, s', hfetch, hfetch', -, -, hfetched⟩ := fetchNext_fetched hstrtod h.unread h.lineNumber
      rw [← hlexeme', hfetch']
      refine ⟨l, { s with lexeme := some l }, { s' with lexeme := some (l.read s.buffer) }, ?_, rfl, rfl, rfl, ?_, ?_⟩
      · dsimp only
        rw [hfetch]
        rfl
      · exact ⟨hfetched.lineNumber, fun hl => ⟨(hfetched.moved hl).cursor, (hfetched.moved hl).buffer⟩,
          hfetched.unread, hfetched.below⟩
      · intro hl
        refine ⟨hfetched.unread hl, hfetched.lineNumber, rfl, ?_⟩
        rintro _ ⟨⟩
        exact hfetched.below hl

theorem skip_followed (h : Follows after state state') (hlexeme : state.lexeme = some l) :
    ∃ s, state.skip strtod = .ok s ∧ s.buffer = state.buffer ∧ s.cursor = state.cursor ∧ Follows after s
    (state'.skip strtod) := by
  have hlexeme' := h.lexeme
  rw [hlexeme] at hlexeme'
  refine ⟨{ state with lexeme := none }, ?_, rfl, rfl, ?_⟩
  · rw [LexerState.skip, hlexeme]
    rfl
  · rw [JsonLexerState.skip, ← hlexeme']
    exact ⟨h.unread, h.lineNumber, rfl, (by simp)⟩

/-! ### Runs of the lexer -/

/-- What the lexer comes to from a state, by its operations in any order, as long as there is no error. -/
inductive LexerRun (strtod : List UInt8 → Rat × Nat) (state : LexerState) : LexerState → Prop
  | refl : LexerRun strtod state state
  | peek {s s' : LexerState} {l : Lexeme} (h : LexerRun strtod state s) (hpeek : s.peek strtod = .ok (l, s'))
      (hl : l ≠ .error) :
      LexerRun strtod state s'
  | next {s s' : LexerState} {l : Lexeme} (h : LexerRun strtod state s) (hnext : s.next strtod = .ok (l, s'))
      (hl : l ≠ .error) :
      LexerRun strtod state s'
  | skip {s s' : LexerState} {l : Lexeme} (h : LexerRun strtod state s) (hlexeme : s.lexeme = some l)
      (hskip : s.skip strtod = .ok s') :
      LexerRun strtod state s'

theorem LexerRun.trans {s₁ s₂ s₃ : LexerState} (h : LexerRun strtod s₁ s₂) (h' : LexerRun strtod s₂ s₃) :
    LexerRun strtod s₁ s₃ := by
  induction h' with
  | refl => exact h
  | peek _ hpeek hl ih => exact .peek ih hpeek hl
  | next _ hnext hl ih => exact .next ih hnext hl
  | skip _ hlexeme hskip ih => exact .skip ih hlexeme hskip

theorem fetchNext_moved (hstrtod : ∀ text, (strtod text).2 ≤ text.length)
    (hunread : Unread after state.buffer state.cursor text) (hfetch : state.fetchNext strtod = .ok (l, s))
    (hl : l ≠ .error) : Moved state s ∧ ∃ text', Unread after s.buffer s.cursor text' := by
  obtain ⟨l', s', t', hfetch', -, -, -, hfetched⟩ :=
    @fetchNext_fetched _ state ⟨text, state.lineNumber, none⟩ after hstrtod hunread rfl
  rw [hfetch] at hfetch'
  obtain ⟨rfl, rfl⟩ := Prod.mk.inj (Except.ok.inj hfetch')
  exact ⟨hfetched.moved hl, _, hfetched.unread hl⟩

/-- Whatever the lexer does, in front of the cursor it leaves the buffer alone, and behind the new one too. -/
theorem LexerRun.moved (hstrtod : ∀ text, (strtod text).2 ≤ text.length)
    (hunread : Unread after state.buffer state.cursor text) (h : LexerRun strtod state s) :
    Moved state s ∧ ∃ text', Unread after s.buffer s.cursor text' := by
  induction h with
  | refl => exact ⟨.refl state, text, hunread⟩
  | @peek s s' l _ hpeek hl ih =>
      obtain ⟨hmoved, text', hunread'⟩ := ih
      rw [LexerState.peek] at hpeek
      cases hlexeme : s.lexeme with
      | some peeked =>
          rw [hlexeme] at hpeek
          cases hpeek
          exact ⟨hmoved, text', hunread'⟩
      | none =>
          rw [hlexeme] at hpeek
          obtain ⟨⟨l', s₁⟩, hfetch, hrest⟩ := bind_eq_ok.mp hpeek
          cases hrest
          obtain ⟨hstep, hunread''⟩ := fetchNext_moved hstrtod hunread' hfetch hl
          exact ⟨hmoved.trans ⟨hstep.cursor, hstep.buffer⟩, hunread''⟩
  | @next s s' l _ hnext hl ih =>
      obtain ⟨hmoved, text', hunread'⟩ := ih
      rw [LexerState.next] at hnext
      cases hlexeme : s.lexeme with
      | some peeked =>
          rw [hlexeme] at hnext
          cases hnext
          exact ⟨⟨hmoved.cursor, hmoved.buffer⟩, text', hunread'⟩
      | none =>
          rw [hlexeme] at hnext
          obtain ⟨hstep, hunread''⟩ := fetchNext_moved hstrtod hunread' hnext hl
          exact ⟨hmoved.trans hstep, hunread''⟩
  | @skip s s' l _ hlexeme hskip ih =>
      obtain ⟨hmoved, text', hunread'⟩ := ih
      rw [LexerState.skip, hlexeme] at hskip
      cases hskip
      exact ⟨⟨hmoved.cursor, hmoved.buffer⟩, text', hunread'⟩

/-- A comma that was peeked at is left out between values. -/
theorem separator_followed (h : Follows after s state') (hlexeme : s.lexeme = some l) (c : Prop) [Decidable c] :
    ∃ s₁, (if c then s.skip strtod else .ok s) = .ok s₁ ∧ s₁.buffer = s.buffer ∧ s₁.cursor = s.cursor ∧
    LexerRun strtod s s₁ ∧
      Follows after s₁ (if c then state'.skip strtod else state') := by
  by_cases hc : c
  · obtain ⟨s₁, hskip, hbuffer, hcursor, hfollows⟩ := @skip_followed strtod _ _ _ _ h hlexeme
    rw [if_pos hc, if_pos hc]
    exact ⟨s₁, hskip, hbuffer, hcursor, .skip .refl hlexeme hskip, hfollows⟩
  · rw [if_neg hc, if_neg hc]
    exact ⟨s, rfl, rfl, rfl, .refl, h⟩

end Lexer

/-! ### Trees in the buffer -/

mutual

/-- The tree with its strings. -/
def Value.read (buffer : List UInt8) : Value → JsonValue
  | .null => .null
  | .boolean b => .boolean b
  | .object members => .object (readMembers buffer members)
  | .array values => .array (readValues buffer values)
  | .string ptr => .string (stringAt buffer ptr)
  | .number n => .number n

def readMembers (buffer : List UInt8) : List (Nat × Value) → JsonObject
  | [] => []
  | (key, v) :: members => (stringAt buffer key, v.read buffer) :: readMembers buffer members

def readValues (buffer : List UInt8) : List Value → List JsonValue
  | [] => []
  | v :: values => v.read buffer :: readValues buffer values

end

mutual

/-- The strings of the tree end in front of a place. -/
def Value.Below (buffer : List UInt8) (limit : Nat) : Value → Prop
  | .null => True
  | .boolean _ => True
  | .object members => MembersBelow buffer limit members
  | .array values => ValuesBelow buffer limit values
  | .string ptr => StringBelow buffer limit ptr
  | .number _ => True

def MembersBelow (buffer : List UInt8) (limit : Nat) : List (Nat × Value) → Prop
  | [] => True
  | (key, v) :: members => StringBelow buffer limit key ∧ v.Below buffer limit ∧ MembersBelow buffer limit members

def ValuesBelow (buffer : List UInt8) (limit : Nat) : List Value → Prop
  | [] => True
  | v :: values => v.Below buffer limit ∧ ValuesBelow buffer limit values

end

section Tree

variable {buffer buffer' : List UInt8} {limit limit' : Nat}

mutual

/-- A tree stays what it is as long as nothing in front of the ends of its strings is changed. -/
theorem Value.kept (htake : buffer'.take limit = buffer.take limit) (hle : limit ≤ limit') :
    ∀ v : Value, v.Below buffer limit → v.Below buffer' limit' ∧ v.read buffer' = v.read buffer
  | .null, _ => ⟨trivial, rfl⟩
  | .boolean _, _ => ⟨trivial, rfl⟩
  | .object members, h => by
      obtain ⟨hbelow, hread⟩ := members_kept htake hle members h
      exact ⟨hbelow, congrArg JsonValue.object hread⟩
  | .array values, h => by
      obtain ⟨hbelow, hread⟩ := values_kept htake hle values h
      exact ⟨hbelow, congrArg JsonValue.array hread⟩
  | .string ptr, h => by
      obtain ⟨hbelow, hstring⟩ := StringBelow.kept h htake
      exact ⟨hbelow.mono hle, congrArg JsonValue.string hstring⟩
  | .number _, _ => ⟨trivial, rfl⟩

theorem members_kept (htake : buffer'.take limit = buffer.take limit) (hle : limit ≤ limit') :
    ∀ members : List (Nat × Value), MembersBelow buffer limit members →
      MembersBelow buffer' limit' members ∧ readMembers buffer' members = readMembers buffer members
  | [], _ => ⟨trivial, rfl⟩
  | (key, v) :: members, h => by
      obtain ⟨hkey, hv, hmembers⟩ := h
      obtain ⟨hkey', hstring⟩ := hkey.kept htake
      obtain ⟨hv', hread⟩ := v.kept htake hle hv
      obtain ⟨hmembers', hreads⟩ := members_kept htake hle members hmembers
      refine ⟨⟨hkey'.mono hle, hv', hmembers'⟩, ?_⟩
      rw [readMembers, readMembers, hstring, hread, hreads]

theorem values_kept (htake : buffer'.take limit = buffer.take limit) (hle : limit ≤ limit') :
    ∀ values : List Value, ValuesBelow buffer limit values →
      ValuesBelow buffer' limit' values ∧ readValues buffer' values = readValues buffer values
  | [], _ => ⟨trivial, rfl⟩
  | v :: values, h => by
      obtain ⟨hv, hvalues⟩ := h
      obtain ⟨hv', hread⟩ := v.kept htake hle hv
      obtain ⟨hvalues', hreads⟩ := values_kept htake hle values hvalues
      refine ⟨⟨hv', hvalues'⟩, ?_⟩
      rw [readValues, readValues, hread, hreads]

end

theorem readMembers_append (members : List (Nat × Value)) (key : Nat) (v : Value) :
    readMembers buffer (members ++ [(key, v)]) = readMembers buffer members ++
    [(stringAt buffer key, v.read buffer)] := by
  induction members with
  | nil => rfl
  | cons member members ih =>
      rw [List.cons_append, readMembers, ih]
      rfl

theorem membersBelow_append {members : List (Nat × Value)} (h : MembersBelow buffer limit members) {key : Nat}
    (hkey : StringBelow buffer limit key) {v : Value} (hv : v.Below buffer limit) :
    MembersBelow buffer limit (members ++ [(key, v)]) := by
  induction members with
  | nil => exact ⟨hkey, hv, trivial⟩
  | cons member members ih => exact ⟨h.1, h.2.1, ih h.2.2⟩

theorem readValues_append (values : List Value) (v : Value) :
    readValues buffer (values ++ [v]) = readValues buffer values ++ [v.read buffer] := by
  induction values with
  | nil => rfl
  | cons value values ih =>
      rw [List.cons_append, readValues, ih]
      rfl

theorem valuesBelow_append {values : List Value} (h : ValuesBelow buffer limit values) {v : Value}
    (hv : v.Below buffer limit) :
    ValuesBelow buffer limit (values ++ [v]) := by
  induction values with
  | nil => exact ⟨hv, trivial⟩
  | cons value values ih => exact ⟨h.1, ih h.2⟩

theorem length_readValues (values : List Value) : (readValues buffer values).length = values.length := by
  induction values with
  | nil => rfl
  | cons v values ih => rw [readValues, List.length_cons, ih, List.length_cons]

end Tree

/-! ### The parser -/

/-- What a parser function ends with, against the function on the text. -/
inductive Simulates (strtod : List UInt8 → Rat × Nat) (after : List UInt8) (state : LexerState) :
    Parsed Value → JsonParsed JsonValue → Prop
  | ok {v : Value} {s : LexerState} {s' : JsonLexerState} (hfollows : Follows after s s')
      (hrun : LexerRun strtod state s) (hbelow : v.Below s.buffer s.cursor) :
      Simulates strtod after state (.ok v s) (.ok (v.read s.buffer) s')
  | failed (line : Nat) (error : String) : Simulates strtod after state (.failed line error) (.failed line error)
  | outOfFuel (result : Parsed Value) : Simulates strtod after state result .outOfFuel

section Parser

variable {strtod : List UInt8 → Rat × Nat} {state s : LexerState} {state' s' : JsonLexerState} {l : Lexeme}
  {after : List UInt8} {v : Value} {r : Parsed Value}
  {r' : JsonParsed JsonValue}

theorem Simulates.of_run (hrun : LexerRun strtod state s) (h : Simulates strtod after s r r') :
    Simulates strtod after state r r' := by
  cases h with
  | ok hfollows hrest hbelow => exact .ok hfollows (hrun.trans hrest) hbelow
  | failed line error => exact .failed line error
  | outOfFuel => exact .outOfFuel r

theorem simulates_error (hline : s.lineNumber = s'.lineNumber) (error : String) :
    Simulates strtod after state (jsonError s error) (Tundra.jsonError s' error) := by
  rw [jsonError, Tundra.jsonError, hline]
  exact .failed _ _

theorem simulates_lexeme (v : Value) (hrun : LexerRun strtod state s) (hfollows : Follows after s s')
    (hlexeme : s.lexeme = some l) (hbelow : v.Below s.buffer s.cursor) :
    Simulates strtod after state (valueOfLexeme strtod v s) (.ok (v.read s.buffer) (s'.skip strtod)) := by
  obtain ⟨s₁, hskip, hbuffer, hcursor, hfollows₁⟩ := @skip_followed strtod _ _ _ _ hfollows hlexeme
  rw [valueOfLexeme, hskip, ← hbuffer]
  apply Simulates.ok hfollows₁ (hrun.skip hlexeme hskip)
  rwa [hbuffer, hcursor]

/-- An error that was peeked at is found again by the parser. -/
theorem value_error {n fuel : Nat} (hle : n ≤ fuel) (hline : state.lineNumber = state'.lineNumber)
    (hlexeme : state.lexeme = some .error) (hlexeme' : state'.lexeme = some .error) :
    Tundra.jsonParseValue strtod n state' = .outOfFuel ∨
      ∃ line error, jsonParseValue strtod fuel state = .failed line error ∧
      Tundra.jsonParseValue strtod n state' = .failed line error := by
  cases n with
  | zero =>
      left
      rw [Tundra.jsonParseValue]
  | succ n =>
      right
      obtain ⟨fuel, rfl⟩ := Nat.exists_eq_add_of_lt (Nat.lt_of_succ_le hle)
      refine ⟨state.lineNumber, "invalid document", ?_, ?_⟩
      · rw [jsonParseValue, LexerState.peek, hlexeme]
        rfl
      · rw [Tundra.jsonParseValue, JsonLexerState.peek, hlexeme', hline]
        rfl

/-- The parser functions simulate those on the text, up to an amount of fuel for these. -/
structure SimulatesWith (strtod : List UInt8 → Rat × Nat) (after : List UInt8) (fuel' : Nat) : Prop where
  value : ∀ {fuel : Nat} {state : LexerState} {state' : JsonLexerState}, fuel' ≤ fuel → Follows after state state' →
    Simulates strtod after state (jsonParseValue strtod fuel state) (Tundra.jsonParseValue strtod fuel' state')
  object : ∀ {fuel : Nat} {state : LexerState} {state' : JsonLexerState}, fuel' ≤ fuel → Follows after state state' →
    Simulates strtod after state (jsonParseObject strtod fuel state) (Tundra.jsonParseObject strtod fuel' state')
  members : ∀ {fuel : Nat} {state : LexerState} {state' : JsonLexerState} {kvPairs : List (Nat × Value)}
    {seenValue seenComma : Bool}, fuel' ≤ fuel →
    Follows after state state' → MembersBelow state.buffer state.cursor kvPairs →
      Simulates strtod after state (objectLoop strtod fuel state kvPairs seenValue seenComma)
        (Tundra.objectLoop strtod fuel' state' (readMembers state.buffer kvPairs) seenValue seenComma)
  array : ∀ {fuel : Nat} {state : LexerState} {state' : JsonLexerState}, fuel' ≤ fuel → Follows after state state' →
    Simulates strtod after state (jsonParseArray strtod fuel state) (Tundra.jsonParseArray strtod fuel' state')
  values : ∀ {fuel : Nat} {state : LexerState} {state' : JsonLexerState} {values : List Value}, fuel' ≤ fuel →
    Follows after state state' →
    ValuesBelow state.buffer state.cursor values →
      Simulates strtod after state (arrayLoop strtod fuel state values)
        (Tundra.arrayLoop strtod fuel' state' (readValues state.buffer values))

theorem Lexeme.read_eq_iff {buffer : List UInt8} (l l₀ : Lexeme) (hl₀ : ∀ ptr, l₀ ≠ .string ptr) :
    l.read buffer = l₀.read buffer ↔ l = l₀ := by
  cases l₀ with
  | string ptr => exact absurd rfl (hl₀ ptr)
  | _ => cases l <;> simp [Lexeme.read]

theorem simulatesWith_zero : SimulatesWith strtod after 0 where
  value := fun _ _ => .outOfFuel _
  object := fun _ _ => .outOfFuel _
  members := fun _ _ _ => .outOfFuel _
  array := fun _ _ => .outOfFuel _
  values := fun _ _ _ => .outOfFuel _

section Step

variable {n fuel : Nat} (hstrtod : ∀ text, (strtod text).2 ≤ text.length) (h : SimulatesWith strtod after n)

include hstrtod h

theorem value_succ (hle : n ≤ fuel) (hfollows : Follows after state state') :
    Simulates strtod after state (jsonParseValue strtod (fuel + 1) state)
    (Tundra.jsonParseValue strtod (n + 1) state') := by
  obtain ⟨l, s, s', hpeek, hpeek', hlexeme, -, hfetched, hnext⟩ := peek_fetched hstrtod hfollows
  rw [jsonParseValue, hpeek, Tundra.jsonParseValue, hpeek']
  cases l with
  | beginObject => exact (h.object hle (hnext (by simp))).of_run (.peek .refl hpeek (by simp))
  | beginArray => exact (h.array hle (hnext (by simp))).of_run (.peek .refl hpeek (by simp))
  | string ptr =>
      exact simulates_lexeme (.string ptr) (.peek .refl hpeek (by simp)) (hnext (by simp)) hlexeme
        (hfetched.below (by simp) ptr rfl)
  | number n => exact simulates_lexeme (.number n) (.peek .refl hpeek (by simp)) (hnext (by simp)) hlexeme trivial
  | boolean b => exact simulates_lexeme (.boolean b) (.peek .refl hpeek (by simp)) (hnext (by simp)) hlexeme trivial
  | null => exact simulates_lexeme .null (.peek .refl hpeek (by simp)) (hnext (by simp)) hlexeme trivial
  | valueSeparator => exact simulates_error hfetched.lineNumber _
  | nameSeparator => exact simulates_error hfetched.lineNumber _
  | endObject => exact simulates_error hfetched.lineNumber _
  | endArray => exact simulates_error hfetched.lineNumber _
  | eof => exact simulates_error hfetched.lineNumber _
  | error => exact simulates_error hfetched.lineNumber _

theorem object_succ (hle : n ≤ fuel) (hfollows : Follows after state state') :
    Simulates strtod after state (jsonParseObject strtod (fuel + 1) state)
    (Tundra.jsonParseObject strtod (n + 1) state') := by
  obtain ⟨l, s, s', hread, hread', hfetched, hnext⟩ := next_fetched hstrtod hfollows
  rw [jsonParseObject, hread, Tundra.jsonParseObject, hread']
  have hbegin : l.read s.buffer = .beginObject ↔ l = .beginObject := l.read_eq_iff .beginObject (by simp)
  change Simulates strtod after state (if l = .beginObject then _ else _) _
  dsimp only
  simp only [hbegin]
  split_ifs with hl
  · have hne : l ≠ .error := by
      rw [hl]
      simp
    exact (@SimulatesWith.members _ _ _ h fuel s s' [] false false hle (hnext hne) trivial).of_run
      (.next .refl hread hne)
  · exact simulates_error hfetched.lineNumber _

theorem members_succ {kvPairs : List (Nat × Value)} {seenValue seenComma : Bool} (hle : n ≤ fuel)
    (hfollows : Follows after state state') (hkvPairs : MembersBelow state.buffer state.cursor kvPairs) :
    Simulates strtod after state (objectLoop strtod (fuel + 1) state kvPairs seenValue seenComma)
      (Tundra.objectLoop strtod (n + 1) state' (readMembers state.buffer kvPairs) seenValue seenComma) := by
  obtain ⟨l, s, s', hread, hread', hfetched, hnext⟩ := next_fetched hstrtod hfollows
  rw [objectLoop, hread, Tundra.objectLoop, hread']
  have hmembers : l ≠ .error → MembersBelow s.buffer s.cursor kvPairs ∧
    readMembers s.buffer kvPairs = readMembers state.buffer kvPairs :=
    fun hl => members_kept (hfetched.moved hl).buffer.take (hfetched.moved hl).cursor kvPairs hkvPairs
  cases l with
  | string key =>
      change Simulates strtod after state (if seenValue ∧ ¬seenComma then _ else _)
        (if seenValue ∧ ¬seenComma then _ else _)
      split_ifs with hcomma
      · exact simulates_error hfetched.lineNumber _
      obtain ⟨hmembers₁, hreads₁⟩ := hmembers (by simp)
      obtain ⟨l₂, s₂, s₂', hread₂, hread₂', hfetched₂, hnext₂⟩ := next_fetched hstrtod (hnext (by simp))
      rw [hread₂, hread₂']
      have hseparator : l₂.read s₂.buffer = .nameSeparator ↔ l₂ = .nameSeparator :=
        l₂.read_eq_iff .nameSeparator (by simp)
      change Simulates strtod after state (if l₂ = .nameSeparator then _ else _) _
      dsimp only
      simp only [hseparator]
      split_ifs with hl₂
      · have hne : l₂ ≠ .error := by
          rw [hl₂]
          simp
        have hrun₂ : LexerRun strtod s s₂ := .next .refl hread₂ hne
        have hvalue := h.value hle (hnext₂ hne)
        generalize jsonParseValue strtod fuel s₂ = r at hvalue ⊢
        generalize Tundra.jsonParseValue strtod n s₂' = r' at hvalue ⊢
        cases hvalue with
        | failed line error => exact .failed line error
        | outOfFuel => exact .outOfFuel _
        | @ok v s₃ s₃' hfollows₃ hrun₃ hbelow₃ =>
            -- the key and the members so far are in front of what the value was read from
            have hrun := hrun₂.trans hrun₃
            obtain ⟨hmoved, -⟩ := hrun.moved hstrtod (hnext (by simp)).unread
            obtain ⟨hmembers₃, hreads₃⟩ := members_kept hmoved.buffer.take hmoved.cursor kvPairs hmembers₁
            obtain ⟨hkey₃, hstring₃⟩ := (hfetched.below (by simp) key rfl).kept hmoved.buffer.take
            have hloop := @SimulatesWith.members _ _ _ h fuel s₃ s₃' (kvPairs ++ [(key, v)]) true false hle hfollows₃
              (membersBelow_append hmembers₃ (hkey₃.mono hmoved.cursor) hbelow₃)
            rw [readMembers_append, hstring₃, hreads₃, hreads₁] at hloop
            exact hloop.of_run (.trans (.next .refl hread (by simp)) hrun)
      · exact simulates_error hfetched₂.lineNumber _
  | endObject =>
      obtain ⟨hmembers₁, hreads₁⟩ := hmembers (by simp)
      rw [← hreads₁]
      exact @Simulates.ok strtod after state (.object kvPairs) s s' (hnext (by simp)) (.next .refl hread (by simp))
        hmembers₁
  | valueSeparator =>
      change Simulates strtod after state (if ¬seenValue then _ else if seenComma then _ else _)
        (if ¬seenValue then _ else if seenComma then _ else _)
      split_ifs with hseen hcomma
      · exact simulates_error hfetched.lineNumber _
      · obtain ⟨hmembers₁, hreads₁⟩ := hmembers (by simp)
        rw [← hreads₁]
        exact (h.members hle (hnext (by simp)) hmembers₁).of_run (.next .refl hread (by simp))
      · exact simulates_error hfetched.lineNumber _
  | number n => exact simulates_error hfetched.lineNumber _
  | nameSeparator => exact simulates_error hfetched.lineNumber _
  | beginObject => exact simulates_error hfetched.lineNumber _
  | beginArray => exact simulates_error hfetched.lineNumber _
  | endArray => exact simulates_error hfetched.lineNumber _
  | boolean b => exact simulates_error hfetched.lineNumber _
  | null => exact simulates_error hfetched.lineNumber _
  | eof => exact simulates_error hfetched.lineNumber _
  | error => exact simulates_error hfetched.lineNumber _

theorem array_succ (hle : n ≤ fuel) (hfollows : Follows after state state') :
    Simulates strtod after state (jsonParseArray strtod (fuel + 1) state)
    (Tundra.jsonParseArray strtod (n + 1) state') := by
  obtain ⟨l, s, s', hread, hread', hfetched, hnext⟩ := next_fetched hstrtod hfollows
  rw [jsonParseArray, hread, Tundra.jsonParseArray, hread']
  have hbegin : l.read s.buffer = .beginArray ↔ l = .beginArray := l.read_eq_iff .beginArray (by simp)
  change Simulates strtod after state (if l = .beginArray then _ else _) _
  dsimp only
  simp only [hbegin]
  split_ifs with hl
  · have hne : l ≠ .error := by
      rw [hl]
      simp
    exact (@SimulatesWith.values _ _ _ h fuel s s' [] hle (hnext hne) trivial).of_run (.next .refl hread hne)
  · exact simulates_error hfetched.lineNumber _

theorem element_succ {values : List Value} (hle : n ≤ fuel) (hrun : LexerRun strtod state s)
    (hfollows : Follows after s s') (hvalues : ValuesBelow s.buffer s.cursor values) :
    Tundra.jsonParseValue strtod n s' = .outOfFuel ∨
      (∃ line error, jsonParseValue strtod fuel s = .failed line error ∧
      Tundra.jsonParseValue strtod n s' = .failed line error) ∨
      ∃ v s₁ s₁', jsonParseValue strtod fuel s = .ok v s₁ ∧ Tundra.jsonParseValue strtod n s' = .ok
      (v.read s₁.buffer) s₁' ∧
        Simulates strtod after state (arrayLoop strtod fuel s₁ (values ++ [v]))
          (Tundra.arrayLoop strtod n s₁' (readValues s.buffer values ++ [v.read s₁.buffer])) := by
  have hvalue := h.value hle hfollows
  generalize jsonParseValue strtod fuel s = r at hvalue ⊢
  generalize Tundra.jsonParseValue strtod n s' = r' at hvalue ⊢
  cases hvalue with
  | outOfFuel => exact .inl rfl
  | failed line error => exact .inr (.inl ⟨line, error, rfl, rfl⟩)
  | @ok v s₁ s₁' hfollows₁ hrun₁ hbelow₁ =>
      -- the values so far are in front of what the next one was read from
      obtain ⟨hmoved, -⟩ := hrun₁.moved hstrtod hfollows.unread
      obtain ⟨hvalues₁, hreads₁⟩ := values_kept hmoved.buffer.take hmoved.cursor values hvalues
      have hloop := h.values hle hfollows₁ (valuesBelow_append hvalues₁ hbelow₁)
      rw [readValues_append, hreads₁] at hloop
      exact .inr (.inr ⟨v, s₁, s₁', rfl, rfl, hloop.of_run (hrun.trans hrun₁)⟩)

theorem values_succ {values : List Value} (hle : n ≤ fuel) (hfollows : Follows after state state')
    (hvalues : ValuesBelow state.buffer state.cursor values) :
    Simulates strtod after state (arrayLoop strtod (fuel + 1) state values)
      (Tundra.arrayLoop strtod (n + 1) state' (readValues state.buffer values)) := by
  obtain ⟨l, s, s', hpeek, hpeek', hlexeme, hlexeme', hfetched, hnext⟩ := peek_fetched hstrtod hfollows
  rw [arrayLoop, hpeek, Tundra.arrayLoop, hpeek']
  have hend : l.read s.buffer = .endArray ↔ l = .endArray := l.read_eq_iff .endArray (by simp)
  have hseparator : l.read s.buffer = .valueSeparator ↔ l = .valueSeparator := l.read_eq_iff .valueSeparator (by simp)
  have hvalues₁ : l ≠ .error → ValuesBelow s.buffer s.cursor values ∧
    readValues s.buffer values = readValues state.buffer values :=
    fun hl => values_kept (hfetched.moved hl).buffer.take (hfetched.moved hl).cursor values hvalues
  change Simulates strtod after state (if l = .endArray then _ else _) _
  dsimp only
  simp only [hend, hseparator, length_readValues, ne_eq]
  by_cases hl : l = .endArray
  · subst hl
    obtain ⟨hbelow, hreads⟩ := hvalues₁ (by simp)
    rw [if_pos rfl, if_pos rfl, ← hreads]
    exact simulates_lexeme (.array values) (.peek .refl hpeek (by simp)) (hnext (by simp)) hlexeme hbelow
  rw [if_neg hl, if_neg hl]
  by_cases hcomma : values.length > 0 ∧ ¬l = .valueSeparator
  · rw [if_pos hcomma, if_pos hcomma]
    exact simulates_error hfetched.lineNumber _
  rw [if_neg hcomma, if_neg hcomma]
  by_cases herror : l = .error
  · subst herror
    have hempty : ¬values.length > 0 := fun hlength => hcomma ⟨hlength, by simp⟩
    rw [if_neg hempty, if_neg hempty]
    rcases value_error hle hfetched.lineNumber hlexeme hlexeme' with hfuel | ⟨line, error, hvalue, hvalue'⟩
    · rw [hfuel]
      exact .outOfFuel _
    · rw [hvalue', Parsed.after, hvalue]
      exact .failed line error
  · obtain ⟨hbelow, hreads⟩ := hvalues₁ herror
    obtain ⟨s₁, hskip, hbuffer, hcursor, hrun, hfollows₁⟩ :=
      @separator_followed strtod _ _ _ _ (hnext herror) hlexeme (values.length > 0) _
    rw [← hbuffer, ← hcursor] at hbelow
    rw [← hreads, ← hbuffer, hskip]
    rcases element_succ hstrtod h hle (.trans (.peek .refl hpeek herror) hrun) hfollows₁ hbelow with
      hfuel | ⟨line, error, hvalue, hvalue'⟩ | ⟨v, s₂, s₂', hvalue, hvalue', hloop⟩
    · rw [hfuel]
      exact .outOfFuel _
    · rw [hvalue', Parsed.after, hvalue]
      exact .failed line error
    · rw [hvalue', Parsed.after, hvalue]
      exact hloop

end Step

theorem simulatesWith (hstrtod : ∀ text, (strtod text).2 ≤ text.length) (n : Nat) : SimulatesWith strtod after n := by
  induction n with
  | zero => exact simulatesWith_zero
  | succ n ih =>
      have hfuel : ∀ {fuel : Nat}, n + 1 ≤ fuel → ∃ fuel', fuel = fuel' + 1 ∧ n ≤ fuel' := fun {fuel} hle =>
        ⟨fuel - 1, by omega, by omega⟩
      constructor
      · intro fuel state state' hle hfollows
        obtain ⟨fuel, rfl, hfuel⟩ := hfuel hle
        exact value_succ hstrtod ih hfuel hfollows
      · intro fuel state state' hle hfollows
        obtain ⟨fuel, rfl, hfuel⟩ := hfuel hle
        exact object_succ hstrtod ih hfuel hfollows
      · intro fuel state state' kvPairs seenValue seenComma hle hfollows hkvPairs
        obtain ⟨fuel, rfl, hfuel⟩ := hfuel hle
        exact members_succ hstrtod ih hfuel hfollows hkvPairs
      · intro fuel state state' hle hfollows
        obtain ⟨fuel, rfl, hfuel⟩ := hfuel hle
        exact array_succ hstrtod ih hfuel hfollows
      · intro fuel state state' values hle hfollows hvalues
        obtain ⟨fuel, rfl, hfuel⟩ := hfuel hle
        exact values_succ hstrtod ih hfuel hfollows hvalues

/-- `JsonParse` ends as it does on the text. A tree is read from the buffer as it is in the end. -/
theorem jsonParse_followed (hstrtod : ∀ text, (strtod text).2 ≤ text.length) (text : CString) (after : List UInt8) :
    (∃ line error, jsonParse strtod (text.bytes ++ 0 :: after) = .failed line error ∧
    Tundra.jsonParse strtod text = .failed line error) ∨
      ∃ root lexer lexer', jsonParse strtod (text.bytes ++ 0 :: after) = .ok root lexer ∧ LexerRun strtod
      (.init (text.bytes ++ 0 :: after)) lexer ∧
        Tundra.jsonParse strtod text = .ok (root.read lexer.buffer) lexer' := by
  have hfollows : Follows after (.init (text.bytes ++ 0 :: after)) (.init text) :=
    ⟨⟨text.noNul, rfl⟩, rfl, rfl, by simp [LexerState.init]⟩
  have hfuel : 4 * text.bytes.length + 4 ≤ 4 * (text.bytes ++ 0 :: after).length + 4 := by
    rw [List.length_append]
    omega
  have hvalue := (simulatesWith hstrtod _).value hfuel hfollows
  have hreturns := jsonParse_ne_outOfFuel strtod text
  rw [Tundra.jsonParse] at hreturns
  rw [jsonParse, Tundra.jsonParse]
  generalize jsonParseValue strtod (4 * (text.bytes ++ 0 :: after).length + 4) (.init (text.bytes ++ 0 :: after)) =
    r at hvalue ⊢
  generalize Tundra.jsonParseValue strtod (4 * text.bytes.length + 4) (.init text) = r' at hvalue hreturns ⊢
  cases hvalue with
  | outOfFuel => exact absurd rfl hreturns
  | failed line error => exact .inl ⟨line, error, rfl, rfl⟩
  | @ok root s s' hfollows hrun hbelow =>
      obtain ⟨l, lexer, lexer', hnext, hnext', hfetched, -⟩ := next_fetched hstrtod hfollows
      dsimp only
      rw [hnext, hnext']
      have heof : l.read lexer.buffer = .eof ↔ l = .eof := l.read_eq_iff .eof (by simp)
      rw [Parsed.after]
      dsimp only
      simp only [heof]
      split_ifs with hl
      · have hne : l ≠ .error := by
          rw [hl]
          simp
        have hmoved := hfetched.moved hne
        obtain ⟨-, hread⟩ := root.kept hmoved.buffer.take hmoved.cursor hbelow
        exact .inr ⟨root, lexer, lexer', rfl, hrun.next hnext hne, by rw [hread]⟩
      · exact .inl ⟨lexer.lineNumber, "data after document", rfl,
          congrArg (JsonParsed.failed · _) hfetched.lineNumber.symm⟩

end Parser

/-! ### Strings over their own text -/

section InPlace

variable {strtod : List UInt8 → Rat × Nat} {state state' : LexerState} {ptr : Nat} {after : List UInt8} {text : CString}

/-- The cursor stays within the text, and what is behind it is the text as it was given. -/
theorem LexerRun.unread (hstrtod : ∀ text, (strtod text).2 ≤ text.length)
    (h : LexerRun strtod (.init (text.bytes ++ 0 :: after)) state) :
    state.cursor ≤ text.bytes.length ∧ state.buffer.drop state.cursor = (text.bytes ++ 0 :: after).drop state.cursor ∧
      Unread after state.buffer state.cursor (text.bytes.drop state.cursor) := by
  have hinit : Unread after (text.bytes ++ 0 :: after) 0 text.bytes := ⟨text.noNul, rfl⟩
  obtain ⟨hmoved, text', hnul, hunread⟩ := @LexerRun.moved _ (.init (text.bytes ++ 0 :: after)) _ _ _ hstrtod hinit h
  have hdrop : state.buffer.drop state.cursor = (text.bytes ++ 0 :: after).drop state.cursor := hmoved.buffer.drop
  have hlength := congrArg List.length (hunread.symm.trans hdrop)
  simp only [List.length_append, List.length_cons, List.length_drop] at hlength
  have hcursor : state.cursor ≤ text.bytes.length := by omega
  refine ⟨hcursor, hdrop, fun hmem => text.noNul (List.mem_of_mem_drop hmem), ?_⟩
  rw [hdrop, List.drop_append_of_le_length hcursor]

theorem eq_of_ite_eq {α : Type} {c : Prop} [Decidable c] {a b x : α} (ha : a ≠ x) (h : (if c then a else b) = x) :
    b = x := by
  by_cases hc : c
  · rw [if_pos hc] at h
    exact absurd h ha
  · rwa [if_neg hc] at h

theorem getNumberLexeme_ne_string : getNumberLexeme strtod state ≠ .ok (.string ptr, state') := by
  intro h
  rw [getNumberLexeme] at h
  obtain ⟨text, -, h⟩ := bind_eq_ok.mp h
  dsimp only at h
  split_ifs at h <;> cases h

theorem getLiteralLexeme_ne_string : getLiteralLexeme state ≠ .ok (.string ptr, state') := by
  intro h
  rw [getLiteralLexeme] at h
  obtain ⟨eptr, -, h⟩ := bind_eq_ok.mp h
  dsimp only at h
  split_ifs at h <;> cases h

theorem getLexeme_string (h : state.getLexeme strtod = .ok (.string ptr, state')) :
    getStringLexeme state = .ok (.string ptr, state') := by
  rw [LexerState.getLexeme] at h
  obtain ⟨ch, -, h⟩ := bind_eq_ok.mp h
  replace h := eq_of_ite_eq getNumberLexeme_ne_string h
  by_cases hquote : ch = ascii '"'
  · rwa [if_pos hquote] at h
  · rw [if_neg hquote] at h
    -- the lexemes of one byte, and the end
    iterate 7 replace h := eq_of_ite_eq (by simp [pure, Except.pure]) h
    exact absurd h getLiteralLexeme_ne_string

/-- What a turn of the loop of `GetStringLexeme` leaves in the buffer. -/
def StringTurn.written : StringTurn → Option (List UInt8)
  | .next buffer _ _ => some buffer
  | .done buffer _ => some buffer
  | .failed => none

/-- A string that is written over its own text, from the quote on to the place where the lexer goes on. -/
structure InPlace (strtod : List UInt8 → Rat × Nat) (text : CString) (quote : LexerState) (ptr : Nat)
    (state' : LexerState) : Prop where
  start : ptr = quote.cursor
  behind : ∀ buffer rptr wptr, StringRun quote.buffer ptr buffer rptr wptr → ptr ≤ wptr ∧ wptr < rptr ∧
    rptr < state'.cursor
  written : ∀ buffer rptr wptr, StringRun quote.buffer ptr buffer rptr wptr →
    ∀ turn, stringTurn buffer rptr wptr = .ok turn →
    ∀ buffer' ∈ turn.written, Within wptr (wptr + 1) buffer buffer'
  within : Within ptr state'.cursor quote.buffer state'.buffer
  terminated : StringBelow state'.buffer state'.cursor ptr
  kept : ∀ lexeme later, LexerRun strtod { state' with lexeme := lexeme } later →
    (Tundra.getStringLexeme (text.bytes.drop ptr)).1 = .string (stringAt later.buffer ptr)

theorem unread_skipWhitespace {bytes : List UInt8}
    (hunread : Unread after state.buffer state.cursor (bytes.drop state.cursor))
    (hspace : state.skipWhitespace = .ok state') :
    Unread after state'.buffer state'.cursor (bytes.drop state'.cursor) := by
  have hle := (List.takeWhile_prefix (l := bytes.drop state.cursor) isSpace).length_le
  have hunread₁ := hunread.drop hle
  rw [List.drop_drop] at hunread₁
  rw [skipWhitespace_eq hunread] at hspace
  rw [← Except.ok.inj hspace]
  exact hunread₁

theorem stringLoop_of_getStringLexeme (h : getStringLexeme state = .ok (.string ptr, state')) : ptr = state.cursor ∧
    stringLoop state.buffer.length state.buffer (state.cursor + 1) state.cursor = .ok
    (state'.buffer, some state'.cursor) := by
  rw [getStringLexeme] at h
  obtain ⟨⟨buffer, stop⟩, hloop, h⟩ := bind_eq_ok.mp h
  cases stop with
  | none => cases h
  | some stop =>
      cases h
      exact ⟨rfl, hloop⟩

/-- Every string that is fetched is written over its own text, and it is never written again. -/
theorem inPlace_of_fetchNext (hstrtod : ∀ text, (strtod text).2 ≤ text.length)
    (h : LexerRun strtod (.init (text.bytes ++ 0 :: after)) state) {quote : LexerState}
    (hspace : state.skipWhitespace = .ok quote) (hfetch : state.fetchNext strtod = .ok (.string ptr, state')) :
    InPlace strtod text quote ptr state' := by
  obtain ⟨-, -, hunread⟩ := h.unread hstrtod
  have hunread₁ := unread_skipWhitespace hunread hspace
  rw [LexerState.fetchNext, hspace, ok_bind] at hfetch
  have hstring := getLexeme_string hfetch
  obtain ⟨rfl, hloop⟩ := stringLoop_of_getStringLexeme hstring
  have hlexed : Lexed after quote (Tundra.getStringLexeme (text.bytes.drop quote.cursor)).1
    (Tundra.getStringLexeme (text.bytes.drop quote.cursor)).2
      (.string quote.cursor) state' := by
    generalize text.bytes.drop quote.cursor = unread at hunread₁
    cases unread with
    | nil =>
        obtain ⟨l, hdrop⟩ := hunread₁.drop_nil
        rw [LexerState.getLexeme, readByte_of_drop hdrop] at hfetch
        cases hfetch
    | cons ch unread =>
        obtain ⟨l, s, hget, hlexed⟩ := getStringLexeme_lexed hunread₁
        rw [hstring] at hget
        obtain ⟨rfl, rfl⟩ := Prod.mk.inj (Except.ok.inj hget)
        exact hlexed
  have hbelow := hlexed.below (by simp) quote.cursor rfl
  constructor
  · rfl
  · intro buffer rptr wptr hrun
    obtain ⟨hstart, hbehind, -⟩ := hrun.behind
    obtain ⟨fuel, hrest⟩ := hrun.stringLoop hloop
    exact ⟨hstart, hbehind, stringLoop_le hrest⟩
  · intro buffer rptr wptr hrun turn hturn buffer' hbuffer'
    cases turnDone hturn with
    | next c hread =>
        obtain rfl := Option.some.inj hbuffer'
        exact .set (Nat.le_refl _) (Nat.lt_succ_self _) _ c
    | done =>
        obtain rfl := Option.some.inj hbuffer'
        exact .set (Nat.le_refl _) (Nat.lt_succ_self _) _ 0
    | failed => cases hbuffer'
  · exact (hlexed.moved (by simp)).buffer
  · exact hbelow
  · intro lexeme later hlater
    -- whatever comes later leaves alone what is in front of the cursor
    obtain ⟨hmoved, -⟩ := @LexerRun.moved _ { state' with lexeme := lexeme } _ _ _ hstrtod (hlexed.unread (by simp))
      hlater
    obtain ⟨-, hkept⟩ := hbelow.kept hmoved.buffer.take
    rw [hkept]
    exact hlexed.read.symm

/-- The tree that `JsonParse` returns has the strings that a decoder out of place would give, and holds them to
the end: in every order of the operations of the lexer, a string is written over its own text, behind the place
where it is read, and nothing that is not read yet and no string from before is changed. -/
theorem jsonParse_inPlace (strtod : List UInt8 → Rat × Nat) (hstrtod : ∀ text, (strtod text).2 ≤ text.length)
    (text : CString) (after : List UInt8) {root : Value} {lexer : LexerState}
    (h : jsonParse strtod (text.bytes ++ 0 :: after) = .ok root lexer) :
    (∃ lexer', Tundra.jsonParse strtod text = .ok (root.read lexer.buffer) lexer') ∧
      LexerRun strtod (.init (text.bytes ++ 0 :: after)) lexer ∧
      ∀ state, LexerRun strtod (.init (text.bytes ++ 0 :: after)) state →
        state.cursor ≤ text.bytes.length ∧
        state.buffer.drop state.cursor = (text.bytes ++ 0 :: after).drop state.cursor ∧
          ∀ quote state' ptr, state.skipWhitespace = .ok quote → state.fetchNext strtod = .ok (.string ptr, state') →
            InPlace strtod text quote ptr state' := by
  have hlexer : ∀ state, LexerRun strtod (.init (text.bytes ++ 0 :: after)) state →
      state.cursor ≤ text.bytes.length ∧ state.buffer.drop state.cursor = (text.bytes ++ 0 :: after).drop state.cursor ∧
        ∀ quote state' ptr, state.skipWhitespace = .ok quote → state.fetchNext strtod = .ok (.string ptr, state') →
          InPlace strtod text quote ptr state' := by
    intro state hrun
    obtain ⟨hcursor, hdrop, -⟩ := hrun.unread hstrtod
    exact ⟨hcursor, hdrop, fun quote state' ptr hspace hfetch => inPlace_of_fetchNext hstrtod hrun hspace hfetch⟩
  rcases jsonParse_followed hstrtod text after with ⟨line, error, hfailed, -⟩ | ⟨root', s, s', hroot, hrun, hread⟩
  · rw [hfailed] at h
    cases h
  · rw [hroot] at h
    obtain ⟨rfl, rfl⟩ := Parsed.ok.inj h
    exact ⟨⟨s', hread⟩, hrun, hlexer⟩

/-- An object with escapes in a key and in a string of an array. -/
def escapedDocument : CString := .lit "\x7b\"a\\n\":[\"\\\"b\\\"\",true]\x7d"

/-- The strings of an array that is a member of an object. -/
def stringsAt (value : JsonValue) (key : CString) : Option (List (Option CString)) :=
  ((value.asObject.bind fun obj => JsonObject.find obj key).bind JsonValue.asArray).map (List.map JsonValue.asString)

theorem jsonParse_inPlace_document : ∃ root lexer lexer',
    jsonParse (fun _ => (0, 0)) (escapedDocument.bytes ++ 0 :: []) = .ok root lexer ∧
      Tundra.jsonParse (fun _ => (0, 0)) escapedDocument = .ok (root.read lexer.buffer) lexer' ∧
        stringsAt (root.read lexer.buffer) (.lit "a\n") = some [some (.lit "\"b\""), none] := by
  have hstrings : (match jsonParse (fun _ => (0, 0)) (escapedDocument.bytes ++ 0 :: []) with
      | .ok root lexer => stringsAt (root.read lexer.buffer) (.lit "a\n")
      | _ => none) = some [some (.lit "\"b\""), none] := by
    decide +kernel
  cases h : jsonParse (fun _ => (0, 0)) (escapedDocument.bytes ++ 0 :: []) with
  | ok root lexer =>
      rw [h] at hstrings
      obtain ⟨⟨lexer', hread⟩, -, -⟩ :=
        jsonParse_inPlace (fun _ => (0, 0)) (fun _ => Nat.zero_le _) escapedDocument [] h
      exact ⟨root, lexer, lexer', rfl, hread, hstrings⟩
  | failed line error => simp [h] at hstrings
  | outOfFuel => simp [h] at hstrings
  | fault f => simp [h] at hstrings

end InPlace

end JsonMemory

end Tundra
