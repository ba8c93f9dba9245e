import Tundra.Json

/-!
# The lexemes of a JSON document

The lexer of `JsonParse.cpp`. A string is decoded in place, over the text that was read already; nothing in
front of the cursor changes, so the text behind the cursor is all that has to be carried along. `strtod` is a
parameter: it gives a number and how much of the text it is.

The texts of the errors of the lexer are never shown, an error is one more kind of lexeme.
-/

namespace Tundra

inductive JsonLexeme where
  | string (s : CString)
  | number (n : Rat)
  | valueSeparator
  | nameSeparator
  | beginObject
  | beginArray
  | endObject
  | endArray
  | boolean (b : Bool)
  | null
  | eof
  | error
deriving DecidableEq

/-- The byte of a character of the ASCII set. -/
def ascii (c : Char) : UInt8 := .ofNat c.toNat

/-- `isalnum` in the C locale. -/
def isAlnum (ch : UInt8) : Bool :=
  ascii '0' ≤ ch ∧ ch ≤ ascii '9' ∨ ascii 'a' ≤ ch ∧ ch ≤ ascii 'z' ∨ ascii 'A' ≤ ch ∧ ch ≤ ascii 'Z'

def hexDigit (code : UInt8) : Option Nat :=
  if ascii '0' ≤ code ∧ code ≤ ascii '9' then some (code - ascii '0').toNat
  else if ascii 'a' ≤ code ∧ code ≤ ascii 'f' then some ((code - ascii 'a').toNat + 10)
  else if ascii 'A' ≤ code ∧ code ≤ ascii 'F' then some ((code - ascii 'A').toNat + 10)
  else none

/-- The character behind a backslash, apart from the hexadecimal codes. -/
def escapedChar (next : UInt8) : Option UInt8 :=
  if next = ascii '\\' then some (ascii '\\')
  else if next = ascii '"' then some (ascii '"')
  else if next = ascii '/' then some (ascii '/')
  else if next = ascii 'b' then some 8
  else if next = ascii 'f' then some 12
  else if next = ascii 'n' then some 10
  else if next = ascii 'r' then some 13
  else if next = ascii 't' then some 9
  else none

/-- The number behind `\u`, if there are four hexadecimal digits. -/
def hexCode (codes : List UInt8) :
    Option Nat := codes.foldlM (fun hexCode code => (hexDigit code).map fun digit => hexCode * 16 + digit) 0

/-- The loop of `GetStringLexeme`: what is written for the string, and the text behind the closing quote. -/
def stringLoop : List UInt8 → List UInt8 → Option (List UInt8 × List UInt8)
  | [], _ => none
  | ch :: text, written =>
      if ch = ascii '"' then some (written, text)
      else if ch = ascii '\\' then
        match text with
        | next :: text =>
            match escapedChar next with
            | some c => stringLoop text (written ++ [c])
            | none =>
                if next = ascii 'u' then
                  match text with
                  | c0 :: c1 :: c2 :: c3 :: text =>
                      match hexCode [c0, c1, c2, c3] with
                      | some hexCode => if hexCode > 127 then none else stringLoop text (written ++ [.ofNat hexCode])
                      | none => none
                  | _ => none
                else none
        | [] => none
      else stringLoop text (written ++ [ch])

def getStringLexeme (cursor : List UInt8) : JsonLexeme × List UInt8 :=
  match stringLoop cursor.tail [] with
  | some (written, text) => (.string (.ofBytes written), text)
  | none => (.error, cursor)

def getNumberLexeme (strtod : List UInt8 → Rat × Nat) (cursor : List UInt8) : JsonLexeme × List UInt8 :=
  let (number, length) := strtod cursor
  if length ≠ 0 then (.number number, cursor.drop length) else (.error, cursor)

def getLiteralLexeme (cursor : List UInt8) : JsonLexeme × List UInt8 :=
  let word := cursor.takeWhile isAlnum
  if word = "true".toList.map ascii then (.boolean true, cursor.drop 4)
  else if word = "null".toList.map ascii then (.null, cursor.drop 4)
  else if word = "false".toList.map ascii then (.boolean false, cursor.drop 5)
  else (.error, cursor)

/-- The lexeme at the cursor, where there is no space. -/
def getLexeme (strtod : List UInt8 → Rat × Nat) (cursor : List UInt8) : JsonLexeme × List UInt8 :=
  match cursor with
  | [] => (.eof, cursor)
  | ch :: text =>
      if ch = ascii '-' ∨ ascii '0' ≤ ch ∧ ch ≤ ascii '9' then getNumberLexeme strtod cursor
      else if ch = ascii '"' then getStringLexeme cursor
      else if ch = ascii '\x7b' then (.beginObject, text)
      else if ch = ascii '\x7d' then (.endObject, text)
      else if ch = ascii '[' then (.beginArray, text)
      else if ch = ascii ']' then (.endArray, text)
      else if ch = ascii ',' then (.valueSeparator, text)
      else if ch = ascii ':' then (.nameSeparator, text)
      else getLiteralLexeme cursor

structure JsonLexerState where
  cursor : List UInt8
  lineNumber : Nat
  /-- `m_Lexeme`, unless it is invalid. -/
  lexeme : Option JsonLexeme
deriving DecidableEq

namespace JsonLexerState

/-- `JsonLexerStateInit`. -/
def init (buffer : CString) : JsonLexerState := ⟨buffer.bytes, 1, none⟩

def skipWhitespace (state : JsonLexerState) : JsonLexerState :=
  { state with
    cursor := state.cursor.dropWhile isSpace
    lineNumber := state.lineNumber + (state.cursor.takeWhile isSpace).count (ascii '\n') }

variable (strtod : List UInt8 → Rat × Nat)

/-- `JsonLexerFetchNext`. -/
def fetchNext (state : JsonLexerState) : JsonLexeme × JsonLexerState :=
  let state := state.skipWhitespace
  let (lexeme, cursor) := getLexeme strtod state.cursor
  (lexeme, { state with cursor := cursor })

/-- `JsonLexerPeek`. -/
def peek (state : JsonLexerState) : JsonLexeme × JsonLexerState :=
  match state.lexeme with
  | some lexeme => (lexeme, state)
  | none =>
      let (lexeme, state) := state.fetchNext strtod
      (lexeme, { state with lexeme := some lexeme })

/-- `JsonLexerNext`. -/
def next (state : JsonLexerState) : JsonLexeme × JsonLexerState :=
  match state.lexeme with
  | some lexeme => (lexeme, { state with lexeme := none })
  | none => state.fetchNext strtod

/-- `JsonLexerSkip`. -/
def skip (state : JsonLexerState) : JsonLexerState :=
  match state.lexeme with
  | some _ => { state with lexeme := none }
  | none => (state.next strtod).2

end JsonLexerState

/-! ### The lexemes of a text -/

section Lexemes

variable {strtod : List UInt8 → Rat × Nat} {cursor cursor' : List UInt8} {l : JsonLexeme} {ls : List JsonLexeme}

/-- The end of the text and an error: there is no lexeme behind them. -/
def JsonLexeme.Final (l : JsonLexeme) : Prop := l = .eof ∨ l = .error

instance (l : JsonLexeme) : Decidable l.Final := inferInstanceAs (Decidable (_ ∨ _))

@[simp] theorem JsonLexeme.final_iff : l.Final ↔ l = .eof ∨ l = .error := Iff.rfl

theorem length_stringLoop (text : List UInt8) :
    ∀ {written written' text' : List UInt8}, stringLoop text written = some (written', text') →
    text'.length < text.length := by
  intro written
  fun_induction stringLoop text written with
  | case2 written text =>
      intro written' text' h
      cases h
      exact Nat.lt_succ_self _
  | case3 written next text c hc hne ih =>
      intro written' text' h
      have hlt := ih h
      simp only [List.length_cons]
      omega
  | case5 written c0 c1 c2 c3 text code hcode hsmall hne hnone ih =>
      intro written' text' h
      have hlt := ih h
      simp only [List.length_cons]
      omega
  | case10 ch text written hquote hbackslash ih =>
      intro written' text' h
      exact (ih h).trans (Nat.lt_succ_self _)
  | _ => simp

theorem length_getStringLexeme (h : getStringLexeme cursor = (l, cursor')) (hl : ¬l.Final) :
    cursor'.length < cursor.length := by
  unfold getStringLexeme at h
  split at h
  · next written text hloop =>
    cases h
    have hlt := length_stringLoop _ hloop
    rw [List.length_tail] at hlt
    omega
  · cases h
    exact absurd (.inr rfl) hl

theorem length_getNumberLexeme (hne : cursor ≠ []) (h : getNumberLexeme strtod cursor = (l, cursor')) (hl : ¬l.Final) :
    cursor'.length < cursor.length := by
  simp only [getNumberLexeme] at h
  have hpos := List.length_pos_iff.mpr hne
  split_ifs at h with hlength
  · cases h
    rw [List.length_drop]
    omega
  · cases h
    exact absurd (.inr rfl) hl

theorem length_getLiteralLexeme (hne : cursor ≠ []) (h : getLiteralLexeme cursor = (l, cursor')) (hl : ¬l.Final) :
    cursor'.length < cursor.length := by
  simp only [getLiteralLexeme] at h
  have hpos := List.length_pos_iff.mpr hne
  split_ifs at h <;> cases h
  · rw [List.length_drop]
    omega
  · rw [List.length_drop]
    omega
  · rw [List.length_drop]
    omega
  · exact absurd (.inr rfl) hl

theorem length_getLexeme (h : getLexeme strtod cursor = (l, cursor')) (hl : ¬l.Final) :
    cursor'.length < cursor.length := by
  unfold getLexeme at h
  split at h
  · cases h
    exact absurd (.inl rfl) hl
  · next ch text =>
    split_ifs at h
    · exact length_getNumberLexeme (List.cons_ne_nil _ _) h hl
    · exact length_getStringLexeme h hl
    · cases h
      exact Nat.lt_succ_self _
    · cases h
      exact Nat.lt_succ_self _
    · cases h
      exact Nat.lt_succ_self _
    · cases h
      exact Nat.lt_succ_self _
    · cases h
      exact Nat.lt_succ_self _
    · cases h
      exact Nat.lt_succ_self _
    · exact length_getLiteralLexeme (List.cons_ne_nil _ _) h hl

theorem length_getLexeme_space (hl : ¬(getLexeme strtod (cursor.dropWhile isSpace)).1.Final) :
    (getLexeme strtod (cursor.dropWhile isSpace)).2.length < cursor.length := by
  have hshort : (getLexeme strtod (cursor.dropWhile isSpace)).2.length < (cursor.dropWhile isSpace).length :=
    length_getLexeme Prod.mk.eta.symm hl
  have hspace := (List.dropWhile_suffix (l := cursor) isSpace).length_le
  omega

variable (strtod)

/-- What `JsonLexerFetchNext` gives again and again, up to the first lexeme with nothing behind it; this many at
most. -/
def lexemesUpTo : Nat → List UInt8 → List JsonLexeme
  | 0, _ => [.error]
  | n + 1, cursor =>
      let (l, cursor) := getLexeme strtod (cursor.dropWhile isSpace)
      if l.Final then [l] else l :: lexemesUpTo n cursor

def lexemes (cursor : List UInt8) : List JsonLexeme := lexemesUpTo strtod (cursor.length + 1) cursor

variable {strtod}

theorem lexemesUpTo_eq {n m : Nat} (hn : cursor.length < n) (hm : cursor.length < m) :
    lexemesUpTo strtod n cursor = lexemesUpTo strtod m cursor := by
  induction n generalizing m cursor with
  | zero => exact absurd hn (Nat.not_lt_zero _)
  | succ n ih =>
      obtain ⟨m, rfl⟩ : ∃ k, m = k + 1 := ⟨m - 1, by omega⟩
      simp only [lexemesUpTo]
      split_ifs with hfinal
      · rfl
      · have hshort := length_getLexeme_space hfinal
        rw [ih (m := m) (by omega) (by omega)]

theorem lexemes_eq (h : getLexeme strtod (cursor.dropWhile isSpace) = (l, cursor')) :
    lexemes strtod cursor = if l.Final then [l] else l :: lexemes strtod cursor' := by
  have hspace := @length_getLexeme_space strtod cursor
  rw [h] at hspace
  rw [lexemes, lexemesUpTo, h]
  dsimp only
  split_ifs with hfinal
  · rfl
  · have hshort := hspace hfinal
    rw [lexemes, lexemesUpTo_eq (m := cursor'.length + 1) (by omega) (by omega)]

theorem length_lexemes (cursor : List UInt8) : (lexemes strtod cursor).length ≤ cursor.length + 1 := by
  have hupTo : ∀ n cursor, cursor.length < n → (lexemesUpTo strtod n cursor).length ≤ cursor.length + 1 := by
    intro n
    induction n with
    | zero => exact fun cursor hn => absurd hn (Nat.not_lt_zero _)
    | succ n ih =>
        intro cursor hn
        simp only [lexemesUpTo]
        split_ifs with hfinal
        · simp
        · have hshort := length_getLexeme_space hfinal
          have hrest := ih (getLexeme strtod (cursor.dropWhile isSpace)).2 (by omega)
          rw [List.length_cons]
          omega
  exact hupTo _ cursor (Nat.lt_succ_self _)

namespace JsonLexerState

variable {state : JsonLexerState}

/-- The lexemes that `JsonLexerNext` will give. -/
def pending (strtod : List UInt8 → Rat × Nat) (state : JsonLexerState) : List JsonLexeme :=
  match state.lexeme with
  | some l => if l.Final then [l] else l :: lexemes strtod state.cursor
  | none => lexemes strtod state.cursor

theorem pending_init (buffer : CString) : (init buffer).pending strtod = lexemes strtod buffer.bytes := rfl

theorem pending_fetchNext (hlexeme : state.lexeme = none) :
    state.pending strtod = if (state.fetchNext strtod).1.Final then [(state.fetchNext strtod).1]
    else (state.fetchNext strtod).1 :: (state.fetchNext strtod).2.pending strtod := by
  have hnone : (state.fetchNext strtod).2.lexeme = none := hlexeme
  rw [pending, hlexeme, pending, hnone]
  exact lexemes_eq Prod.mk.eta.symm

/-- `JsonLexerNext` gives the first of the lexemes and leaves the others. -/
theorem next_of_pending (h : state.pending strtod = l :: ls) :
    (state.next strtod).1 = l ∧ (¬l.Final → (state.next strtod).2.pending strtod = ls) := by
  cases hlexeme : state.lexeme with
  | some peeked =>
      simp only [next, hlexeme]
      simp only [pending, hlexeme] at h
      split_ifs at h with hfinal
      · simp only [List.cons.injEq] at h
        obtain ⟨rfl, rfl⟩ := h
        exact ⟨rfl, fun hl => absurd hfinal hl⟩
      · simp only [List.cons.injEq] at h
        obtain ⟨rfl, rfl⟩ := h
        exact ⟨rfl, fun _ => rfl⟩
  | none =>
      rw [pending_fetchNext hlexeme] at h
      simp only [next, hlexeme]
      split_ifs at h with hfinal
      · simp only [List.cons.injEq] at h
        obtain ⟨rfl, rfl⟩ := h
        exact ⟨rfl, fun hl => absurd hfinal hl⟩
      · simp only [List.cons.injEq] at h
        obtain ⟨rfl, rfl⟩ := h
        exact ⟨rfl, fun _ => rfl⟩

/-- `JsonLexerPeek` gives the first of the lexemes and leaves all of them. `JsonLexerSkip` takes it away then. -/
theorem peek_of_pending (h : state.pending strtod = l :: ls) :
    (state.peek strtod).1 = l ∧ (state.peek strtod).2.pending strtod = l :: ls ∧
    (¬l.Final → ((state.peek strtod).2.skip strtod).pending strtod = ls) := by
  cases hlexeme : state.lexeme with
  | some peeked =>
      have hnext := next_of_pending h
      simp only [next, hlexeme] at hnext
      simp only [peek, hlexeme, skip]
      exact ⟨hnext.1, h, hnext.2⟩
  | none =>
      have hnext := next_of_pending h
      simp only [next, hlexeme] at hnext
      have hnone : (state.fetchNext strtod).2.lexeme = none := hlexeme
      rw [pending_fetchNext hlexeme] at h
      simp only [peek, hlexeme, skip]
      refine ⟨hnext.1, ?_, fun hl => ?_⟩
      · rw [pending] at h
        simpa [pending, hnone] using h
      · rw [← hnext.2 hl]
        simp only [pending, hnone]

end JsonLexerState

end Lexemes

end Tundra
