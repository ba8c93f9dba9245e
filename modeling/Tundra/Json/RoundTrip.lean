import Tundra.Json.Grammar
import Tundra.Json.Writer
import Mathlib.Algebra.Order.Group.Unbundled.Int

/-!
# Documents are read as they were written

A tree that is given to the writer call by call is read by `JsonParse` as the same tree. The writer knows one
flag only. Inside of a container it says whether there is an element already, and when a container is closed it
is false: the container is itself an element of what is around it. So a value leaves the flag false whatever the
depth (`chunk_value`), and this is all that the elements behind it have to know.
-/

namespace Tundra

/-- Strings that are written and read the same everywhere. -/
def Plain (str : CString) : Prop := ∀ ch ∈ str.bytes, ch < 128 ∧ ch ≠ 11

instance (str : CString) : Decidable (Plain str) := List.decidableBAll (fun ch => ch < 128 ∧ ch ≠ 11) str.bytes

/-- The trees there are calls for, with numbers that a double holds exactly. -/
inductive Writable : JsonValue → Prop
  | string {s : CString} (h : Plain s) : Writable (.string s)
  | boolean (b : Bool) : Writable (.boolean b)
  | number {n : Int} (h : |n| < 10 ^ 14) : Writable (.number n)
  | object {members : JsonObject} (hnames : ∀ member ∈ members, Plain member.1)
      (hvalues : ∀ member ∈ members, Writable member.2) :
      Writable (.object members)
  | array {values : List JsonValue} (hvalues : ∀ v ∈ values, Writable v) : Writable (.array values)

mutual

/-- The calls for a tree, in document order. There is none for null. -/
def documentCalls (name : Option CString) : JsonValue → List JsonCall
  | .null => []
  | .boolean b => [.writeBool b (name.map CString.bytes)]
  | .object members => .beginObject (name.map CString.bytes) :: (memberCalls members ++ [.endObject])
  | .array values => .beginArray (name.map CString.bytes) :: (elementCalls values ++ [.endArray])
  | .string s => [.writeString s.bytes (name.map CString.bytes)]
  | .number n => [.writeNumber (.ofInt n.num) (name.map CString.bytes)]

def memberCalls : List (CString × JsonValue) → List JsonCall
  | [] => []
  | (key, v) :: members => documentCalls (some key) v ++ memberCalls members

def elementCalls : List JsonValue → List JsonCall
  | [] => []
  | v :: values => documentCalls none v ++ elementCalls values

end

/-- What stands behind a value in a document. -/
def Delimited (rest : List UInt8) : Prop := ∀ ch ∈ rest.head?, ch = ascii ',' ∨ ch = ascii ']' ∨ ch = ascii '\x7d'

/-- `strtod` gives the integers that `lua_number2str` has written, of an absolute value below `10 ^ 14`. -/
def ReadsIntegers (strtod : List UInt8 → Rat × Nat) : Prop :=
  ∀ n : Int, |n| < 10 ^ 14 → ∀ rest, Delimited rest →
    strtod (number2str (.ofInt n) ++ rest) = ((n : Rat), (number2str (.ofInt n)).length)

/-! ### What the calls append -/

section Appends

variable {charSigned : Bool} {self : LuaJsonWriter} {cs cs' : List JsonCall} {first mid last : Bool}
  {text text' : List UInt8} {name : Option CString}
  {str : CString}

/-- The text of a string. -/
def quoted (str : CString) : List UInt8 := ascii '"' :: str.bytes.flatMap escaped ++ [ascii '"']

def commaText (first : Bool) : List UInt8 := if first then [] else [ascii ',']

def nameText : Option CString → List UInt8
  | some key => quoted key ++ [ascii ':']
  | none => []

theorem writeEscapedString_plain (h : Plain str) : writeEscapedString charSigned str.bytes = some (quoted str) := by
  rw [writeEscapedString_eq, if_neg, quoted]
  rintro ⟨-, ch, hch, hle⟩
  exact UInt8.not_lt.mpr hle (h ch hch).1

namespace LuaJsonWriter

@[simp] theorem text_append (str : List UInt8) :
    (self.append str).writer.text = self.writer.text ++ str := self.writer.text_appendString str

@[simp] theorem firstElem_append (str : List UInt8) : (self.append str).firstElem = self.firstElem := rfl

theorem text_writeComma : self.writeComma.writer.text = self.writer.text ++ commaText self.firstElem := by
  rw [writeComma, commaText]
  split_ifs
  · exact (List.append_nil _).symm
  · exact text_append _

theorem firstElem_writeComma : self.writeComma.firstElem = false := by
  rw [writeComma]
  split_ifs with hfirst
  · rfl
  · simpa using hfirst

theorem writeCommon_plain (hname : ∀ key ∈ name, Plain key) :
    ∃ self', self.writeCommon charSigned (name.map CString.bytes) = some self' ∧
    self'.writer.text = self.writer.text ++ (commaText self.firstElem ++ nameText name) ∧ self'.firstElem = false := by
  cases name with
  | none => exact ⟨_, rfl, by rw [text_writeComma, nameText, List.append_nil], firstElem_writeComma⟩
  | some key =>
      refine ⟨(self.writeComma.append (quoted key)).append [ascii ':'], ?_, ?_, firstElem_writeComma⟩
      · rw [Option.map_some, writeCommon, writeEscapedString_plain (hname key rfl), Option.map_some]
      · simp [text_writeComma, nameText]

end LuaJsonWriter

/-- The calls append this text and take the flag from one value to the other. -/
def Appends (charSigned : Bool) (cs : List JsonCall) (first : Bool) (text : List UInt8) (last : Bool) : Prop :=
  ∀ self : LuaJsonWriter, self.firstElem = first →
    ∃ self', self.calls charSigned cs = some self' ∧ self'.writer.text = self.writer.text ++ text ∧
      self'.firstElem = last

theorem Appends.nil :
    Appends charSigned [] first [] first := fun self hself => ⟨self, rfl, (List.append_nil _).symm, hself⟩

theorem Appends.append (h : Appends charSigned cs first text mid) (h' : Appends charSigned cs' mid text' last) :
    Appends charSigned (cs ++ cs') first (text ++ text') last := by
  intro self hself
  obtain ⟨self', hcalls, htext, hmid⟩ := h self hself
  obtain ⟨self'', hcalls', htext', hlast⟩ := h' self' hmid
  refine ⟨self'', ?_, by rw [htext', htext, List.append_assoc], hlast⟩
  rw [LuaJsonWriter.calls, List.foldlM_append]
  exact (congrArg (· >>= _) hcalls).trans hcalls'

theorem appends_common {c : JsonCall} {finish : LuaJsonWriter → LuaJsonWriter} (hname : ∀ key ∈ name, Plain key)
    (hcall : ∀ self : LuaJsonWriter, self.call charSigned c =
    (self.writeCommon charSigned (name.map CString.bytes)).map finish)
    (htext : ∀ self, (finish self).writer.text = self.writer.text ++ text)
    (hlast : ∀ self, self.firstElem = false → (finish self).firstElem = last) :
    Appends charSigned [c] first (commaText first ++ (nameText name ++ text)) last := by
  intro self hself
  obtain ⟨self', hcommon, htext', hfalse⟩ := @LuaJsonWriter.writeCommon_plain charSigned self name hname
  refine ⟨finish self', ?_, ?_, hlast self' hfalse⟩
  · rw [LuaJsonWriter.calls, List.foldlM_cons, hcall, hcommon]
    rfl
  · rw [htext, htext', hself]
    simp only [List.append_assoc]

theorem appends_endObject :
    Appends charSigned [.endObject] first [ascii '\x7d'] false := fun self _ => ⟨_, rfl, self.text_append _, rfl⟩

theorem appends_endArray :
    Appends charSigned [.endArray] first [ascii ']'] false := fun self _ => ⟨_, rfl, self.text_append _, rfl⟩

end Appends

/-! ### The lexemes of what is written -/

section Lexes

variable {strtod : List UInt8 → Rat × Nat} {ch : UInt8} {rest : List UInt8} {l : JsonLexeme}

theorem lexemes_cons {text : List UInt8} (hspace : isSpace ch = false)
    (h : getLexeme strtod (ch :: text) = (l, rest)) (hl : ¬l.Final) :
    lexemes strtod (ch :: text) = l :: lexemes strtod rest := by
  have hdrop : (ch :: text).dropWhile isSpace = ch :: text := by rw [List.dropWhile_cons_of_neg (by simp [hspace])]
  rw [lexemes_eq (hdrop ▸ h), if_neg hl]

theorem lexemes_nil : lexemes strtod [] = [.eof] := rfl

theorem lexemes_beginObject :
    lexemes strtod (ascii '\x7b' :: rest) = .beginObject :: lexemes strtod rest := lexemes_cons (by decide) rfl
    (by simp)

theorem lexemes_endObject :
    lexemes strtod (ascii '\x7d' :: rest) = .endObject :: lexemes strtod rest := lexemes_cons (by decide) rfl (by simp)

theorem lexemes_beginArray :
    lexemes strtod (ascii '[' :: rest) = .beginArray :: lexemes strtod rest := lexemes_cons (by decide) rfl (by simp)

theorem lexemes_endArray :
    lexemes strtod (ascii ']' :: rest) = .endArray :: lexemes strtod rest := lexemes_cons (by decide) rfl (by simp)

theorem lexemes_comma :
    lexemes strtod (ascii ',' :: rest) = .valueSeparator :: lexemes strtod rest := lexemes_cons (by decide) rfl
    (by simp)

theorem lexemes_colon :
    lexemes strtod (ascii ':' :: rest) = .nameSeparator :: lexemes strtod rest := lexemes_cons (by decide) rfl (by simp)

theorem lexemes_quoted {str : CString} (h : Plain str) :
    lexemes strtod (quoted str ++ rest) = .string str :: lexemes strtod rest := by
  have hv : 11 ∉ str.bytes := fun hmem => (h 11 hmem).2 rfl
  have hlexeme := getStringLexeme_written hv rest
  rw [quoted, List.append_assoc, List.cons_append, List.singleton_append]
  exact lexemes_cons (by decide) hlexeme (by simp)

theorem takeWhile_delimited {word : List UInt8} (hword : ∀ ch ∈ word, isAlnum ch = true) (h : Delimited rest) :
    (word ++ rest).takeWhile isAlnum = word := by
  rw [List.takeWhile_append_of_pos hword]
  cases rest with
  | nil => simp
  | cons ch rest =>
      have hch : isAlnum ch = false := by
        rcases h ch rfl with rfl | rfl | rfl <;> decide
      rw [List.takeWhile_cons_of_neg (by simp [hch]), List.append_nil]

theorem getLiteralLexeme_boolean (b : Bool) (h : Delimited rest) :
    getLiteralLexeme ((if b then "true" else "false").toList.map ascii ++ rest) = (.boolean b, rest) := by
  have hword : ((if b then "true" else "false").toList.map ascii).all isAlnum = true := by decide +revert
  rw [getLiteralLexeme, takeWhile_delimited (List.all_eq_true.mp hword) h]
  cases b with
  | true => rfl
  | false => rfl

theorem lexemes_boolean (b : Bool) (h : Delimited rest) :
    lexemes strtod ((if b then "true" else "false").toList.map ascii ++ rest) = .boolean b :: lexemes strtod rest := by
  have hlexeme := getLiteralLexeme_boolean b h
  cases b with
  | true => exact lexemes_cons (by decide) hlexeme (by simp)
  | false => exact lexemes_cons (by decide) hlexeme (by simp)

theorem toNat_ascii_digit {c : Char} (h : c.isDigit = true) :
    48 ≤ c.toNat ∧ c.toNat ≤ 57 ∧ (ascii c).toNat = c.toNat := by
  rw [Char.isDigit, Bool.and_eq_true, decide_eq_true_iff, decide_eq_true_iff] at h
  obtain ⟨hlow, hhigh⟩ : 48 ≤ c.toNat ∧ c.toNat ≤ 57 := h
  refine ⟨hlow, hhigh, ?_⟩
  rw [ascii, UInt8.toNat_ofNat']
  omega

theorem ascii_digit {c : Char} (h : c.isDigit = true) : ascii '0' ≤ ascii c ∧ ascii c ≤ ascii '9' := by
  obtain ⟨hlow, hhigh, htoNat⟩ := toNat_ascii_digit h
  constructor
  · rw [UInt8.le_iff_toNat_le, htoNat]
    exact hlow
  · rw [UInt8.le_iff_toNat_le, htoNat]
    exact hhigh

theorem mem_number2str {num : Int64} (h : ch ∈ number2str num) : ch = ascii '-' ∨ ascii '0' ≤ ch ∧ ch ≤ ascii '9' := by
  rw [number2str, List.mem_append] at h
  rcases h with hsign | hdigit
  · split_ifs at hsign
    · exact .inl (List.mem_singleton.mp hsign)
    · cases hsign
  · obtain ⟨c, hc, rfl⟩ := List.mem_map.mp hdigit
    exact .inr (ascii_digit (Nat.isDigit_of_mem_toDigits (by decide) (by decide) hc))

theorem number2str_ne_nil (num : Int64) : number2str num ≠ [] := by
  rw [number2str]
  exact List.append_ne_nil_of_right_ne_nil _ (by simp)

theorem digit_not_space (h : ch = ascii '-' ∨ ascii '0' ≤ ch ∧ ch ≤ ascii '9') : isSpace ch = false := by
  have hall : ∀ n : Fin 256, UInt8.ofNat n = ascii '-' ∨ ascii '0' ≤ UInt8.ofNat n ∧ UInt8.ofNat n ≤ ascii '9' →
    isSpace (UInt8.ofNat n) = false := by
    decide +kernel
  exact forall_uint8 (P := fun ch => ch = ascii '-' ∨ ascii '0' ≤ ch ∧ ch ≤ ascii '9' → isSpace ch = false) hall ch h

theorem getNumberLexeme_eq {n : Rat} {length : Nat} {text : List UInt8} (h : strtod text = (n, length))
    (hlength : length ≠ 0) :
    getNumberLexeme strtod text = (.number n, text.drop length) := by
  rw [getNumberLexeme, h]
  exact if_pos hlength

theorem lexemes_number {n : Int} (hstrtod : ReadsIntegers strtod) (hn : |n| < 10 ^ 14) (h : Delimited rest) :
    lexemes strtod (number2str (.ofInt n) ++ rest) = .number n :: lexemes strtod rest := by
  have hread := hstrtod n hn rest h
  obtain ⟨ch, text, htext⟩ := List.exists_cons_of_ne_nil (number2str_ne_nil (.ofInt n))
  have hch := mem_number2str (htext ▸ List.mem_cons_self : ch ∈ number2str (.ofInt n))
  have hlexeme := getNumberLexeme_eq hread (by simp [htext])
  rw [List.drop_left] at hlexeme
  rw [htext] at hlexeme ⊢
  exact lexemes_cons (digit_not_space hch) ((if_pos hch).trans hlexeme) (by simp)

end Lexes

/-! ### Values and what is in containers -/

section Chunks

variable {charSigned : Bool} {strtod : List UInt8 → Rat × Nat} {cs cs' : List JsonCall} {text text' : List UInt8}
  {ls ls' : List JsonLexeme}
  {name : Option CString} {v : JsonValue}

/-- Calls that write one or more elements of a container: they begin with a comma unless they are the first
ones, and the flag is false then. -/
structure Chunk (charSigned : Bool) (strtod : List UInt8 → Rat × Nat) (cs : List JsonCall) (text : List UInt8)
    (ls : List JsonLexeme) : Prop where
  noNul : 0 ∉ text
  lexes : ∀ rest, Delimited rest → lexemes strtod (text ++ rest) = ls ++ lexemes strtod rest
  appends : ∀ first, Appends charSigned cs first (commaText first ++ text) false

theorem delimited_comma (rest : List UInt8) : Delimited (ascii ',' :: rest) := by
  intro ch hch
  exact .inl (Option.some.inj hch).symm

theorem Chunk.comma (h : Chunk charSigned strtod cs text ls) (h' : Chunk charSigned strtod cs' text' ls') :
    Chunk charSigned strtod (cs ++ cs') (text ++ ascii ',' :: text') (ls ++ .valueSeparator :: ls') where
  noNul := by
    rw [List.mem_append, List.mem_cons]
    rintro (hmem | hzero | hmem)
    · exact h.noNul hmem
    · exact absurd hzero (by decide)
    · exact h'.noNul hmem
  lexes rest hrest := by
    rw [List.append_assoc, List.cons_append, h.lexes _ (delimited_comma _), lexemes_comma, h'.lexes rest hrest,
      List.append_assoc, List.cons_append]
  appends first := by
    have happend := (h.appends first).append (h'.appends false)
    simpa [commaText] using happend

def nameLexemes : Option CString → List JsonLexeme
  | some key => [.string key, .nameSeparator]
  | none => []

theorem escaped_ne_zero {ch : UInt8} (h : ch ≠ 0) : 0 ∉ escaped ch := by
  have hall : ∀ n : Fin 256, UInt8.ofNat n ≠ 0 → 0 ∉ escaped (UInt8.ofNat n) := by decide +kernel
  exact forall_uint8 (P := fun ch => ch ≠ 0 → 0 ∉ escaped ch) hall ch h

theorem noNul_quoted (str : CString) : 0 ∉ quoted str := by
  rw [quoted]
  simp only [List.mem_append, List.mem_cons, List.mem_flatMap, List.not_mem_nil, or_false, not_or, not_exists, not_and]
  refine ⟨⟨by decide, fun ch hch => escaped_ne_zero ?_⟩, by decide⟩
  rintro rfl
  exact str.noNul hch

theorem noNul_nameText (name : Option CString) : 0 ∉ nameText name := by
  cases name with
  | none => exact List.not_mem_nil
  | some key =>
      rw [nameText, List.mem_append, List.mem_singleton]
      rintro (hmem | hzero)
      · exact noNul_quoted key hmem
      · exact absurd hzero (by decide)

theorem lexemes_name (hname : ∀ key ∈ name, Plain key) (rest : List UInt8) :
    lexemes strtod (nameText name ++ rest) = nameLexemes name ++ lexemes strtod rest := by
  cases name with
  | none => rfl
  | some key =>
      rw [nameText, List.append_assoc, lexemes_quoted (hname key rfl), List.singleton_append, lexemes_colon]
      rfl

theorem chunk_name (hname : ∀ key ∈ name, Plain key) (hnoNul : 0 ∉ text)
    (hlexes : ∀ rest, Delimited rest → lexemes strtod (text ++ rest) = ls ++ lexemes strtod rest)
    (happends : ∀ first, Appends charSigned cs first (commaText first ++ (nameText name ++ text)) false) :
    Chunk charSigned strtod cs (nameText name ++ text) (nameLexemes name ++ ls) where
  noNul := by
    rw [List.mem_append]
    rintro (hmem | hmem)
    · exact noNul_nameText name hmem
    · exact hnoNul hmem
  lexes rest hrest := by rw [List.append_assoc, lexemes_name hname, hlexes rest hrest, List.append_assoc]
  appends := happends

/-- What is between the brackets of a container. -/
structure Inside (charSigned : Bool) (strtod : List UInt8 → Rat × Nat) (cs : List JsonCall) (text : List UInt8)
    (ls : List JsonLexeme) : Prop where
  noNul : 0 ∉ text
  lexes : ∀ rest, Delimited rest → lexemes strtod (text ++ rest) = ls ++ lexemes strtod rest
  appends : ∃ last, Appends charSigned cs true text last

theorem Inside.nil : Inside charSigned strtod [] [] [] := ⟨List.not_mem_nil, fun _ _ => rfl, true, .nil⟩

theorem Chunk.inside (h : Chunk charSigned strtod cs text ls) :
    Inside charSigned strtod cs text ls := ⟨h.noNul, h.lexes, false, h.appends true⟩

theorem chunk_object (hname : ∀ key ∈ name, Plain key) (h : Inside charSigned strtod cs text ls) :
    Chunk charSigned strtod (.beginObject (name.map CString.bytes) :: (cs ++ [.endObject]))
      (nameText name ++ (ascii '\x7b' :: (text ++ [ascii '\x7d'])))
      (nameLexemes name ++ (.beginObject :: (ls ++ [.endObject]))) := by
  refine chunk_name hname ?_ (fun rest hrest => ?_) fun first => ?_
  · simp only [List.mem_cons, List.mem_append, List.not_mem_nil, or_false, not_or]
    exact ⟨by decide, h.noNul, by decide⟩
  · have hdelimited : Delimited (ascii '\x7d' :: rest) := fun ch hch => .inr (.inr (Option.some.inj hch).symm)
    rw [List.cons_append, List.append_assoc, List.singleton_append, lexemes_beginObject, h.lexes _ hdelimited,
      lexemes_endObject]
    simp
  · have hbegin : Appends charSigned [.beginObject (name.map CString.bytes)] first
      (commaText first ++ (nameText name ++ [ascii '\x7b'])) true :=
      appends_common hname (fun _ => rfl) (fun self => self.text_append _) fun _ _ => rfl
    obtain ⟨last, hinside⟩ := h.appends
    simpa using (hbegin.append hinside).append appends_endObject

theorem chunk_array (hname : ∀ key ∈ name, Plain key) (h : Inside charSigned strtod cs text ls) :
    Chunk charSigned strtod (.beginArray (name.map CString.bytes) :: (cs ++ [.endArray]))
      (nameText name ++ (ascii '[' :: (text ++ [ascii ']'])))
      (nameLexemes name ++ (.beginArray :: (ls ++ [.endArray]))) := by
  refine chunk_name hname ?_ (fun rest hrest => ?_) fun first => ?_
  · simp only [List.mem_cons, List.mem_append, List.not_mem_nil, or_false, not_or]
    exact ⟨by decide, h.noNul, by decide⟩
  · have hdelimited : Delimited (ascii ']' :: rest) := fun ch hch => .inr (.inl (Option.some.inj hch).symm)
    rw [List.cons_append, List.append_assoc, List.singleton_append, lexemes_beginArray, h.lexes _ hdelimited,
      lexemes_endArray]
    simp
  · have hbegin : Appends charSigned [.beginArray (name.map CString.bytes)] first
      (commaText first ++ (nameText name ++ [ascii '['])) true :=
      appends_common hname (fun _ => rfl) (fun self => self.text_append _) fun _ _ => rfl
    obtain ⟨last, hinside⟩ := h.appends
    simpa using (hbegin.append hinside).append appends_endArray

def ValueWritten (charSigned : Bool) (strtod : List UInt8 → Rat × Nat) (v : JsonValue) : Prop :=
  ∃ text ls, Derives false (.value v) ls ∧ ∀ name : Option CString, (∀ key ∈ name, Plain key) →
    Chunk charSigned strtod (documentCalls name v) (nameText name ++ text) (nameLexemes name ++ ls)

theorem chunk_members {members : JsonObject} (hne : members ≠ []) (hnames : ∀ member ∈ members, Plain member.1)
    (hvalues : ∀ member ∈ members, ValueWritten charSigned strtod member.2) :
    ∃ text ls, Derives false (.members members) ls ∧ Chunk charSigned strtod (memberCalls members) text ls := by
  induction members with
  | nil => exact absurd rfl hne
  | cons member members ih =>
      obtain ⟨key, v⟩ := member
      obtain ⟨text, ls, hls, hchunk⟩ := hvalues _ List.mem_cons_self
      have hmember := hchunk (some key) (by simpa using hnames _ List.mem_cons_self)
      by_cases hmembers : members = []
      · subst hmembers
        refine ⟨nameText (some key) ++ text, _, .member key hls, ?_⟩
        rw [memberCalls, memberCalls, List.append_nil]
        exact hmember
      · obtain ⟨text', ls', hls', hchunk'⟩ := ih hmembers (fun m hm => hnames m (List.mem_cons_of_mem _ hm)) fun m hm =>
          hvalues m (List.mem_cons_of_mem _ hm)
        exact ⟨_, _, .memberCons key hls hls', hmember.comma hchunk'⟩

theorem chunk_elements {values : List JsonValue} (hne : values ≠ [])
    (hvalues : ∀ v ∈ values, ValueWritten charSigned strtod v) :
    ∃ text ls, Derives false (.elements values) ls ∧ Chunk charSigned strtod (elementCalls values) text ls := by
  induction values with
  | nil => exact absurd rfl hne
  | cons v values ih =>
      obtain ⟨text, ls, hls, hchunk⟩ := hvalues v List.mem_cons_self
      have helement := hchunk none (by simp)
      by_cases hmore : values = []
      · subst hmore
        refine ⟨text, _, .element hls, ?_⟩
        rw [elementCalls, elementCalls, List.append_nil]
        exact helement
      · obtain ⟨text', ls', hls', hchunk'⟩ := ih hmore fun w hw => hvalues w (List.mem_cons_of_mem _ hw)
        exact ⟨_, _, .elementCons hls hls', helement.comma hchunk'⟩

/-- Every value is written with a comma in front of it if it is not the first one, is read as itself, and leaves
the flag false. -/
theorem chunk_value (hstrtod : ReadsIntegers strtod) (hv : Writable v) : ValueWritten charSigned strtod v := by
  induction hv with
  | @string s h =>
      refine ⟨quoted s, [.string s], .string s, fun name hname => ?_⟩
      refine chunk_name hname (noNul_quoted s) (fun rest _ => lexemes_quoted h) fun first => ?_
      have hcall : ∀ self : LuaJsonWriter, self.call charSigned (.writeString s.bytes (name.map CString.bytes)) =
          (self.writeCommon charSigned (name.map CString.bytes)).map fun self => self.append (quoted s) := by
        intro self
        rw [LuaJsonWriter.call, writeEscapedString_plain h]
        cases self.writeCommon charSigned (name.map CString.bytes) with
        | none => rfl
        | some self => rfl
      exact appends_common hname hcall (fun self => self.text_append _) fun _ hfalse => hfalse
  | boolean b =>
      refine ⟨(if b then "true" else "false").toList.map ascii, [.boolean b], .boolean b, fun name hname => ?_⟩
      refine chunk_name hname (by decide +revert) (fun rest hrest => lexemes_boolean b hrest) fun first => ?_
      exact appends_common hname (fun _ => rfl) (fun self => self.text_append _) fun _ hfalse => hfalse
  | @number n h =>
      refine ⟨number2str (.ofInt n), [.number n], .number n, fun name hname => ?_⟩
      refine chunk_name hname ?_ (fun rest hrest => lexemes_number hstrtod h hrest) fun first => ?_
      · intro hzero
        exact absurd (mem_number2str hzero) (by decide)
      · exact appends_common hname (fun _ => rfl) (fun self => self.text_append _) fun _ hfalse => hfalse
  | @object members hnames hvalues ih =>
      by_cases hmembers : members = []
      · subst hmembers
        exact ⟨_, _, .emptyObject, fun name hname => chunk_object hname .nil⟩
      · obtain ⟨text, ls, hls, hchunk⟩ := chunk_members hmembers hnames ih
        exact ⟨_, _, .object hls, fun name hname => chunk_object hname hchunk.inside⟩
  | @array values hvalues ih =>
      by_cases hmore : values = []
      · subst hmore
        exact ⟨_, _, .emptyArray, fun name hname => chunk_array hname .nil⟩
      · obtain ⟨text, ls, hls, hchunk⟩ := chunk_elements hmore ih
        exact ⟨_, _, .array hls, fun name hname => chunk_array hname hchunk.inside⟩

end Chunks

theorem bytes_ofBytes {text : List UInt8} (h : 0 ∉ text) : (CString.ofBytes text).bytes = text := by
  rw [CString.ofBytes, List.takeWhile_eq_self_iff]
  intro ch hch
  exact decide_eq_true fun hzero => h (hzero ▸ hch)

/-- A tree that is written by the calls for it, and closed, is what `JsonParse` makes of the file. -/
theorem document_roundTrip (charSigned : Bool) {strtod : List UInt8 → Rat × Nat} (hstrtod : ReadsIntegers strtod)
    {v : JsonValue} (hv : Writable v) :
    ∃ self lexer, LuaJsonWriter.new.calls charSigned (documentCalls none v) = some self ∧
      jsonParse strtod (.ofBytes self.close) = .ok v lexer := by
  obtain ⟨text, ls, hls, hchunk⟩ := @chunk_value charSigned strtod v hstrtod hv
  have hvalue := hchunk none (by simp)
  obtain ⟨self, hcalls, htext, -⟩ := hvalue.appends true .new rfl
  have hclose : self.close = text := htext
  have hnoNul : 0 ∉ text := hvalue.noNul
  have hlexemes : lexemes strtod text = ls ++ [.eof] := by
    have hlexes := hvalue.lexes [] (by simp [Delimited])
    rwa [List.append_nil, lexemes_nil] at hlexes
  obtain ⟨lexer, hparse⟩ := (jsonParse_eq_ok_iff strtod (.ofBytes text) v).mpr
    ⟨ls, by rwa [bytes_ofBytes hnoNul], hls.lenient⟩
  exact ⟨self, lexer, hcalls, by rw [hclose, hparse]⟩

/-- `strtod` on texts that begin with an integer. -/
def strtodInteger (text : List UInt8) : Rat × Nat :=
  let sign := text.head? = some (ascii '-')
  let digits := (if sign then text.tail else text).takeWhile fun ch => ascii '0' ≤ ch ∧ ch ≤ ascii '9'
  let number := Nat.ofDigitChars 10 (digits.map fun ch => Char.ofNat ch.toNat) 0
  if digits = [] then (0, 0) else if sign then (-number, digits.length + 1) else (number, digits.length)

theorem toInt_ofInt_small {n : Int} (hn : |n| < 10 ^ 14) : (Int64.ofInt n).toInt = n := by
  have hbounds := abs_lt.mp hn
  exact Int64.toInt_ofInt_of_le (by omega) (by omega)

theorem takeWhile_digits (n : Nat) {rest : List UInt8} (h : Delimited rest) :
    ((Nat.toDigits 10 n).map ascii ++ rest).takeWhile
    (fun ch => ascii '0' ≤ ch ∧ ch ≤ ascii '9') = (Nat.toDigits 10 n).map ascii := by
  rw [List.takeWhile_append_of_pos]
  · cases rest with
    | nil => simp
    | cons ch rest =>
        rw [List.takeWhile_cons_of_neg, List.append_nil]
        rcases h ch rfl with rfl | rfl | rfl <;> decide
  · intro ch hch
    obtain ⟨c, hc, rfl⟩ := List.mem_map.mp hch
    exact decide_eq_true (ascii_digit (Nat.isDigit_of_mem_toDigits (by decide) (by decide) hc))

theorem map_ofNat_toDigits (n : Nat) :
    ((Nat.toDigits 10 n).map ascii).map (fun ch => Char.ofNat ch.toNat) = Nat.toDigits 10 n := by
  rw [List.map_map]
  refine (List.map_congr_left fun c hc => ?_).trans (List.map_id _)
  have hdigit := toNat_ascii_digit (Nat.isDigit_of_mem_toDigits (by decide) (by decide) hc)
  rw [Function.comp_apply, hdigit.2.2, Char.ofNat_toNat, id]

theorem head?_digits (n : Nat) (rest : List UInt8) :
    ((Nat.toDigits 10 n).map ascii ++ rest).head? ≠ some (ascii '-') := by
  obtain ⟨c, digits, hdigits⟩ := List.exists_cons_of_ne_nil (@Nat.toDigits_ne_nil n 10)
  have hdigit := ascii_digit
    (Nat.isDigit_of_mem_toDigits (by decide) (by decide) (hdigits ▸ List.mem_cons_self : c ∈ Nat.toDigits 10 n))
  rw [hdigits]
  intro hminus
  rw [Option.some.inj hminus] at hdigit
  exact absurd hdigit (by decide)

theorem strtodInteger_digits (n : Nat) {rest : List UInt8} (h : Delimited rest) :
    strtodInteger ((Nat.toDigits 10 n).map ascii ++ rest) = ((n : Rat), ((Nat.toDigits 10 n).map ascii).length) ∧
      strtodInteger (ascii '-' :: ((Nat.toDigits 10 n).map ascii ++ rest)) =
      (-(n : Rat), ((Nat.toDigits 10 n).map ascii).length + 1) := by
  have hne : (Nat.toDigits 10 n).map ascii ≠ [] := by simp
  have hdigits := takeWhile_digits n h
  have hvalue : Nat.ofDigitChars 10 (((Nat.toDigits 10 n).map ascii).map fun ch => Char.ofNat ch.toNat) 0 = n := by
    rw [map_ofNat_toDigits, Nat.ofDigitChars_ten_toDigits]
  constructor
  · simp only [strtodInteger, if_neg (head?_digits n rest), hdigits, hvalue, if_neg hne]
  · simp only [strtodInteger, List.head?_cons, List.tail_cons, if_true, hdigits, hvalue, if_neg hne]

theorem readsIntegers_strtodInteger : ReadsIntegers strtodInteger := by
  intro n hn rest hrest
  obtain ⟨hpos, hneg⟩ := strtodInteger_digits n.natAbs hrest
  have hlt : Int64.ofInt n < 0 ↔ n < 0 := by
    rw [Int64.lt_iff_toInt_lt, toInt_ofInt_small hn]
    rfl
  rw [number2str, toInt_ofInt_small hn]
  by_cases hsign : n < 0
  · have habs : -(n.natAbs : Rat) = n := by
      rw [← Int.cast_natCast, Int.ofNat_natAbs_of_nonpos hsign.le, Int.cast_neg, neg_neg]
    rw [if_pos (hlt.mpr hsign), List.singleton_append, List.cons_append, hneg, List.length_cons, habs]
  · have habs : (n.natAbs : Rat) = n := by
      rw [← Int.cast_natCast, Int.natAbs_of_nonneg (not_lt.mp hsign)]
    rw [if_neg (mt hlt.mp hsign), List.nil_append, hpos, habs]

/-- An object with an empty array and a number under one name, and a string that has to be escaped. -/
theorem document_roundTrip_repeated : ∃ self lexer, LuaJsonWriter.new.calls true
    (documentCalls none (.object [(.lit "a", .array []),
    (.lit "a", .number (-7 : Int)), (.lit "b", .array [.string (.lit "\t"), .object [], .boolean true])])) = some self ∧
      jsonParse strtodInteger (.ofBytes self.close) = .ok (.object [(.lit "a", .array []),
        (.lit "a", .number (-7 : Int)), (.lit "b", .array [.string (.lit "\t"), .object [], .boolean true])]) lexer := by
  refine document_roundTrip true readsIntegers_strtodInteger (.object (by simp; decide) ?_)
  simp only [List.forall_mem_cons, List.not_mem_nil, IsEmpty.forall_iff, implies_true, and_true]
  refine ⟨.array (by simp), .number (by decide), .array ?_⟩
  simp only [List.forall_mem_cons, List.not_mem_nil, IsEmpty.forall_iff, implies_true, and_true]
  exact ⟨.string (by decide), .object (by simp) (by simp), .boolean true⟩

end Tundra
