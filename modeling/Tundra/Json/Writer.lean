import Tundra.Json.Lexer

/-!
# Writing JSON

`LuaJsonWriter.cpp`, with which the front end writes the DAG. The commas of a document are driven by one flag,
whatever the depth.

A string is written with a table of the characters that need a backslash. Where `char` is signed the bytes from
`0x80` on lie outside of this table, and the vertical tab is escaped in a way that `GetStringLexeme` does not
know; all other strings are read as they were written.
-/

namespace Tundra

/-- `s_EscapeTable`, as `LuaJsonNativeOpen` fills it. -/
def escapeTable : List UInt8 :=
  (((((((List.replicate 256 0).set (ascii '\n').toNat (ascii 'n')).set (ascii '\r').toNat (ascii 'r')).set
    (ascii '\t').toNat (ascii 't')).set 11 (ascii 'v')).set 12 (ascii 'f')).set (ascii '\\').toNat (ascii '\\')).set
    (ascii '"').toNat (ascii '"')

/-- The conversion of a `char` to `uint32_t`. -/
def charToUint32 (charSigned : Bool) (ch : UInt8) :
    UInt32 := if charSigned then ch.toInt8.toInt32.toUInt32 else ch.toUInt32

/-- One turn of the loop of `WriteEscapedString`. A read outside of the table has no result. -/
def writeEscapedChar (charSigned : Bool) (ch : UInt8) : Option (List UInt8) :=
  escapeTable[(charToUint32 charSigned ch).toNat]?.map fun escapeCode => if escapeCode ≠ 0 then
    [ascii '\\', escapeCode] else [ch]

def writeEscapedString (charSigned : Bool) (str : List UInt8) : Option (List UInt8) :=
  (str.mapM (writeEscapedChar charSigned)).map fun chars => ascii '"' :: chars.flatten ++ [ascii '"']

/-- What is written for a byte inside the table. -/
def escaped (ch : UInt8) : List UInt8 :=
  if ch = ascii '\n' then [ascii '\\', ascii 'n']
  else if ch = ascii '\r' then [ascii '\\', ascii 'r']
  else if ch = ascii '\t' then [ascii '\\', ascii 't']
  else if ch = 11 then [ascii '\\', ascii 'v']
  else if ch = 12 then [ascii '\\', ascii 'f']
  else if ch = ascii '\\' then [ascii '\\', ascii '\\']
  else if ch = ascii '"' then [ascii '\\', ascii '"']
  else [ch]

theorem forall_uint8 {P : UInt8 → Prop} (h : ∀ n : Fin 256, P (.ofNat n)) (ch : UInt8) : P ch := by
  have hch := h ⟨ch.toNat, ch.toNat_lt⟩
  rwa [UInt8.ofNat_toNat] at hch

/-- The entry of a byte, 0 where the byte stands for itself. -/
def escapeCode (n : Nat) : UInt8 :=
  if n = 34 then ascii '"' else if n = 92 then ascii '\\' else if n = 12 then ascii 'f' else if n = 11 then ascii 'v'
  else if n = 9 then ascii 't' else if n = 13 then ascii 'r' else if n = 10 then ascii 'n' else 0

theorem getElem?_escapeTable (n : Nat) : escapeTable[n]? = if n < 256 then some (escapeCode n) else none := by
  have htable : escapeTable = (List.range 256).map escapeCode := by decide +kernel
  rw [htable, List.getElem?_map]
  split_ifs with hn
  · rw [List.getElem?_range hn, Option.map_some]
  · rw [List.getElem?_eq_none (by simpa using hn), Option.map_none]

theorem charToUint32_toNat (charSigned : Bool) (ch : UInt8) :
    (charToUint32 charSigned ch).toNat = if charSigned = true ∧ 128 ≤ ch then 2 ^ 32 - 256 + ch.toNat
    else ch.toNat := by
  have hall : ∀ signed : Bool, ∀ n : Fin 256, (charToUint32 signed (.ofNat n)).toNat =
      if signed = true ∧ 128 ≤ UInt8.ofNat n then 2 ^ 32 - 256 + (UInt8.ofNat n).toNat else (UInt8.ofNat n).toNat := by
    decide +kernel
  exact forall_uint8 (P := fun ch => (charToUint32 charSigned ch).toNat =
    if charSigned = true ∧ 128 ≤ ch then 2 ^ 32 - 256 + ch.toNat else ch.toNat) (hall charSigned) ch

theorem escaped_eq (ch : UInt8) :
    escaped ch = if escapeCode ch.toNat ≠ 0 then [ascii '\\', escapeCode ch.toNat] else [ch] :=
  forall_uint8 (P := fun ch => escaped ch = if escapeCode ch.toNat ≠ 0 then [ascii '\\', escapeCode ch.toNat] else [ch])
    (by decide +kernel) ch

theorem writeEscapedChar_eq (charSigned : Bool) (ch : UInt8) :
    writeEscapedChar charSigned ch = if charSigned = true ∧ 128 ≤ ch then none else some (escaped ch) := by
  have hlt := ch.toNat_lt
  rw [writeEscapedChar, charToUint32_toNat, getElem?_escapeTable]
  by_cases houtside : charSigned = true ∧ 128 ≤ ch
  · rw [if_pos houtside, if_neg (by omega), if_pos houtside]
    rfl
  · rw [if_neg houtside, if_pos hlt, if_neg houtside, Option.map_some, escaped_eq]

/-- A string is written unless it has bytes outside of the table. -/
theorem writeEscapedString_eq (charSigned : Bool) (str : List UInt8) :
    writeEscapedString charSigned str =
      if charSigned = true ∧ ∃ ch ∈ str, 128 ≤ ch then none else some
      (ascii '"' :: str.flatMap escaped ++ [ascii '"']) := by
  have hchars : str.mapM (writeEscapedChar charSigned) =
      if charSigned = true ∧ ∃ ch ∈ str, 128 ≤ ch then none else some (str.map escaped) := by
    induction str with
    | nil => simp
    | cons ch str ih =>
        rw [List.mapM_cons, ih, writeEscapedChar_eq]
        by_cases hsigned : charSigned = true
        · by_cases hch : 128 ≤ ch
          · simp [hsigned, hch]
          · by_cases hstr : ∃ ch ∈ str, 128 ≤ ch
            · simp [hsigned, hch, hstr]
            · simp [hsigned, hch, hstr]
        · simp [hsigned]
  rw [writeEscapedString, hchars]
  split_ifs
  · rfl
  · rw [Option.map_some, List.flatMap_def]

theorem backslash_ne_quote : ascii '\\' ≠ ascii '"' := by decide

theorem stringLoop_plain {ch : UInt8} (hquote : ch ≠ ascii '"') (hbackslash : ch ≠ ascii '\\')
    (text written : List UInt8) :
    stringLoop (ch :: text) written = stringLoop text (written ++ [ch]) := by
  rw [stringLoop.eq_def]
  simp only [if_neg hquote, if_neg hbackslash]

theorem stringLoop_backslash {next c : UInt8} (h : escapedChar next = some c) (text written : List UInt8) :
    stringLoop (ascii '\\' :: next :: text) written = stringLoop text (written ++ [c]) := by
  rw [stringLoop.eq_def]
  simp only [if_neg backslash_ne_quote, if_pos, h]

theorem stringLoop_verticalTab (text written : List UInt8) :
    stringLoop (ascii '\\' :: ascii 'v' :: text) written = none := by
  have hnone : escapedChar (ascii 'v') = none := by decide
  have hu : ascii 'v' ≠ ascii 'u' := by decide
  rw [stringLoop.eq_def]
  simp only [if_neg backslash_ne_quote, if_pos, hnone, if_neg hu]

/-- A byte stands for itself, or the decoder knows its escape, or it is the vertical tab. -/
theorem escaped_cases (ch : UInt8) : escaped ch = [ch] ∧ ch ≠ ascii '"' ∧ ch ≠ ascii '\\' ∧ ch ≠ 11 ∨
    (∃ code ∈ escapeTable, escaped ch = [ascii '\\', code] ∧ escapedChar code = some ch ∧ ch ≠ 11) ∨
    ch = 11 ∧ escaped ch = [ascii '\\', ascii 'v'] :=
  forall_uint8 (P := fun ch => escaped ch = [ch] ∧ ch ≠ ascii '"' ∧ ch ≠ ascii '\\' ∧ ch ≠ 11 ∨
    (∃ code ∈ escapeTable, escaped ch = [ascii '\\', code] ∧ escapedChar code = some ch ∧ ch ≠ 11) ∨
    ch = 11 ∧ escaped ch = [ascii '\\', ascii 'v']) (by decide +kernel) ch

/-- What is written for a byte is read as the byte, but for the vertical tab. -/
theorem stringLoop_escaped (ch : UInt8) (text written : List UInt8) :
    stringLoop (escaped ch ++ text) written = if ch = 11 then none else stringLoop text (written ++ [ch]) := by
  rcases escaped_cases ch with ⟨hself, hquote, hbackslash, hv⟩ | ⟨code, -, hcode, hknown, hv⟩ | ⟨hv, hcode⟩
  · rw [hself, if_neg hv]
    exact stringLoop_plain hquote hbackslash text written
  · rw [hcode, if_neg hv]
    exact stringLoop_backslash hknown text written
  · rw [hcode, if_pos hv]
    exact stringLoop_verticalTab text written

/-- The whole text of a string is read as the string, but for the vertical tab. -/
theorem stringLoop_flatMap (str text : List UInt8) : ∀ written : List UInt8,
    stringLoop (str.flatMap escaped ++ ascii '"' :: text) written = if 11 ∈ str then none else some
    (written ++ str, text) := by
  induction str with
  | nil =>
      intro written
      rw [List.flatMap_nil, List.nil_append, stringLoop.eq_def]
      simp
  | cons ch str ih =>
      intro written
      rw [List.flatMap_cons, List.append_assoc, stringLoop_escaped, ih]
      by_cases hch : ch = 11
      · simp [hch]
      · simp [hch, Ne.symm hch, List.append_assoc]

theorem ofBytes_bytes (str : CString) : CString.ofBytes str.bytes = str := by
  have hall : str.bytes.takeWhile (· ≠ 0) = str.bytes := by
    rw [List.takeWhile_eq_self_iff]
    intro ch hch
    exact decide_eq_true fun hzero => str.noNul (hzero ▸ hch)
  cases str
  exact CString.mk.injEq .. ▸ hall

/-- A string that is written is read as it is, with the cursor left behind the closing quote. -/
theorem getStringLexeme_written {str : CString} (hv : 11 ∉ str.bytes) (text : List UInt8) :
    getStringLexeme (ascii '"' :: str.bytes.flatMap escaped ++ ascii '"' :: text) = (.string str, text) := by
  rw [getStringLexeme, List.cons_append, List.tail_cons, stringLoop_flatMap, if_neg hv, List.nil_append]
  simp only [ofBytes_bytes]

/-- The text that is written for a string is one lexeme, whatever follows it. -/
def ReadsBack (charSigned : Bool) (str : CString) : Prop :=
  ∃ written, writeEscapedString charSigned str.bytes = some written ∧
    ∀ text, getStringLexeme (written ++ text) = (.string str, text)

/-- The strings that are read as they were written. -/
theorem readsBack_iff (charSigned : Bool) (str : CString) :
    ReadsBack charSigned str ↔ 11 ∉ str.bytes ∧ (charSigned = true → ∀ ch ∈ str.bytes, ch < 128) := by
  rw [ReadsBack, writeEscapedString_eq]
  constructor
  · rintro ⟨written, hwritten, hread⟩
    rw [Option.ite_none_left_eq_some, Option.some.injEq] at hwritten
    obtain ⟨hinside, rfl⟩ := hwritten
    constructor
    · intro hv
      have hnone := hread []
      rw [List.append_assoc, getStringLexeme, List.cons_append, List.tail_cons, List.singleton_append,
        stringLoop_flatMap, if_pos hv] at hnone
      cases hnone
    · intro hsigned ch hch
      exact UInt8.not_le.mp fun hle => hinside ⟨hsigned, ch, hch, hle⟩
  · rintro ⟨hv, hinside⟩
    refine ⟨_, if_neg ?_, fun text => ?_⟩
    · rintro ⟨hsigned, ch, hch, hle⟩
      exact UInt8.not_lt.mpr hle (hinside hsigned ch hch)
    · rw [List.append_assoc]
      exact getStringLexeme_written hv text

/-- The vertical tab is not read back. -/
theorem verticalTab_lost : ¬ReadsBack false ⟨[11], by decide⟩ := by
  rintro ⟨written, hwritten, hread⟩
  have htext : writeEscapedString false [11] = some [34, 92, 118, 34] := by decide +kernel
  rw [htext, Option.some.injEq] at hwritten
  subst hwritten
  exact absurd (hread []) (by decide +kernel)

/-! ### The writer -/

/-- `BufferedWriter`, with what has been written to the file. -/
structure BufferedWriter where
  file : List UInt8
  buffer : List UInt8
  used_le : buffer.length ≤ 8192

namespace BufferedWriter

variable (w : BufferedWriter)

/-- `BufferedWriterInit`, for a new file. -/
def init : BufferedWriter := ⟨[], [], Nat.zero_le _⟩

/-- `BufferedWriterFlush`. -/
def flush : BufferedWriter := ⟨w.file ++ w.buffer, [], Nat.zero_le _⟩

theorem append_used_le {w : BufferedWriter} (h : w.buffer.length ≠ 8192) (ch : UInt8) :
    (w.buffer ++ [ch]).length ≤ 8192 := by
  have hle := w.used_le
  rw [List.length_append, List.length_singleton]
  omega

/-- `BufferedWriterAppend`. -/
def append (ch : UInt8) : BufferedWriter :=
  if h : w.buffer.length = 8192 then ⟨w.flush.file, [ch], Nat.le_add_left 1 8191⟩
    else ⟨w.file, w.buffer ++ [ch], append_used_le h ch⟩

/-- `BufferedWriterAppendString`. -/
def appendString (str : List UInt8) : BufferedWriter := str.foldl append w

/-- What the file will hold. -/
def text : List UInt8 := w.file ++ w.buffer

theorem text_append (ch : UInt8) : (w.append ch).text = w.text ++ [ch] := by
  rw [append]
  split_ifs with h
  · rfl
  · exact (List.append_assoc _ _ _).symm

theorem text_appendString (str : List UInt8) : (w.appendString str).text = w.text ++ str := by
  induction str generalizing w with
  | nil => exact (List.append_nil _).symm
  | cons ch str ih =>
      rw [appendString, List.foldl_cons]
      refine (ih (w.append ch)).trans ?_
      rw [text_append, List.append_assoc, List.singleton_append]

end BufferedWriter

/-- `lua_number2str`: a `lua_Number` is a `long long` here. -/
def number2str (num : Int64) : List UInt8 :=
  (if num < 0 then [ascii '-'] else []) ++ (Nat.toDigits 10 num.toInt.natAbs).map ascii

/-- The methods of the writer, with the arguments they are called with. -/
inductive JsonCall where
  | writeNumber (num : Int64) (name : Option (List UInt8))
  | writeBool (value : Bool) (name : Option (List UInt8))
  | writeString (value : List UInt8) (name : Option (List UInt8))
  | beginObject (name : Option (List UInt8))
  | endObject
  | beginArray (name : Option (List UInt8))
  | endArray

structure LuaJsonWriter where
  firstElem : Bool
  writer : BufferedWriter

namespace LuaJsonWriter

variable (charSigned : Bool) (self : LuaJsonWriter)

/-- `LuaJsonWriterNew`. -/
def new : LuaJsonWriter := ⟨true, .init⟩

/-- `LuaJsonGc`: the file when the writer is closed. -/
def close : List UInt8 := self.writer.flush.file

def append (str : List UInt8) : LuaJsonWriter := { self with writer := self.writer.appendString str }

def writeComma : LuaJsonWriter := if self.firstElem then { self with firstElem := false } else self.append [ascii ',']

def writeCommon (name : Option (List UInt8)) : Option LuaJsonWriter :=
  match name with
  | some str =>
      (writeEscapedString charSigned str).map fun written => (self.writeComma.append written).append [ascii ':']
  | none => some self.writeComma

/-- One call: `LuaJsonWriteNumber` and the others. -/
def call : JsonCall → Option LuaJsonWriter
  | .writeNumber num name => (self.writeCommon charSigned name).map fun self => self.append (number2str num)
  | .writeBool value name =>
      (self.writeCommon charSigned name).map
        fun self => self.append ((if value then "true" else "false").toList.map ascii)
  | .writeString value name => do
      let self ← self.writeCommon charSigned name
      let written ← writeEscapedString charSigned value
      return self.append written
  | .beginObject name =>
      (self.writeCommon charSigned name).map fun self => { self.append [ascii '\x7b'] with firstElem := true }
  | .endObject => some { self.append [ascii '\x7d'] with firstElem := false }
  | .beginArray name =>
      (self.writeCommon charSigned name).map fun self => { self.append [ascii '['] with firstElem := true }
  | .endArray => some { self.append [ascii ']'] with firstElem := false }

def calls (cs : List JsonCall) : Option LuaJsonWriter := cs.foldlM (call charSigned) self

end LuaJsonWriter

end Tundra
