import Tundra.Dag

/-!
# Include scanning

`IncludeScanner.cpp`: the include directives of a text, line by line. A line is what stands before the next
newline; it ends like a string, so that the scanners of a line see a zero byte behind it.
-/

namespace Tundra

structure IncludeData where
  string : CString
  isSystemInclude : Bool
  shouldFollow : Bool
deriving DecidableEq

/-- The bytes up to a closing separator, if there is one. -/
def upTo (closing : UInt8) (s : CString) : Option CString :=
  if closing ∈ s.bytes then some ⟨s.bytes.takeWhile (· ≠ closing), fun h => s.noNul (List.takeWhile_subset _ h)⟩
    else none

namespace CString

/-- The string without its leading white space. -/
def skipSpace (s : CString) : CString := ⟨s.bytes.dropWhile isSpace, fun h => s.noNul (List.dropWhile_subset _ h)⟩

/-- The string without its first bytes. -/
def advance (s : CString) (n : Nat) : CString := ⟨s.bytes.drop n, fun h => s.noNul (List.mem_of_mem_drop h)⟩

/-- The first byte, or the zero byte that ends the string. -/
def first (s : CString) : UInt8 := s.bytes.headD 0

end CString

def scanCppLine (line : CString) : Option IncludeData :=
  let start := line.skipSpace
  if start.first ≠ 35 then none else
  let start := (start.advance 1).skipSpace
  if (start.bytes.take 7) ≠ (CString.lit "include").bytes then none else
  let start := start.advance 7
  if ¬ isSpace start.first then none else
  let start := (start.advance 1).skipSpace
  let closing := if start.first = 60 then some 62 else if start.first = 34 then some 34 else none
  closing.bind fun closing => (upTo closing (start.advance 1)).map fun string => ⟨string, closing = 62, true⟩

/-- The lines `GetNextLine` cuts a text into. -/
def lines (text : CString) : List CString := (text.bytes.splitOn 10).map .ofBytes

def scanIncludesCpp (text : CString) : List IncludeData := (lines text).filterMap scanCppLine

/-- Whether `strncmp` finds a keyword at the start of a string. A negative length is a `size_t` beyond the end
of either string. -/
def KeywordData.begins (kw : KeywordData) (start : CString) : Bool :=
  if 0 ≤ kw.stringLength then
    start.bytes.take kw.stringLength.toInt.toNat = kw.string.bytes.take kw.stringLength.toInt.toNat
  else start = kw.string

/-- Lines with the bytes in front of each of them in the buffer, where every newline is a zero byte by then. -/
def placeLines (before : List UInt8) : List CString → List (List UInt8 × CString)
  | [] => []
  | line :: rest => (before, line) :: placeLines (before ++ line.bytes ++ [0]) rest

section Generic

variable (outside : Nat → CString) (requireWhitespace useSeparators bareMeansSystem : Bool)
  (keywords : List KeywordData)

/-- The string at the start of a line, its white space skipped, plus the length of a keyword. With a negative
length it begins in front of that start: in the same line, in an earlier one, or in front of the buffer, where
`outside` says what string is so many bytes away. -/
def keywordEnd (before : List UInt8) (line : CString) (stringLength : Int16) : CString :=
  if 0 ≤ stringLength then line.skipSpace.advance stringLength.toInt.toNat
  else
    let place : Int := before.length + (line.bytes.length - line.skipSpace.bytes.length) + stringLength.toInt
    if place < 0 then outside (-place).toNat else .ofBytes ((before ++ line.bytes).drop place.toNat)

/-- The string behind a keyword and whether it is a system include. -/
def genericString (start : CString) : Option (CString × Bool) :=
  if useSeparators then
    let closing := if start.first = 60 then some 62 else if start.first = 62 then some 60
      else if start.first = 34 then some 34 else none
    closing.bind fun closing => (upTo closing (start.advance 1)).map fun string => (string, closing = 62)
  else
    let token := start.bytes.takeWhile fun c => !isSpace c
    if token = [] then none else some (.ofBytes token, bareMeansSystem)

/-- `ScanLineGeneric`, with what stands in front of the line. The length of the string is cut to 16 bits. -/
def scanLineGeneric (before : List UInt8) (line : CString) : Option IncludeData :=
  let start := line.skipSpace
  if requireWhitespace && start = line then none else
  (keywords.find? fun kw => kw.begins start).bind fun keyword =>
    let start := keywordEnd outside before line keyword.stringLength
    if ¬ isSpace start.first then none else
    (genericString useSeparators bareMeansSystem (start.advance 1).skipSpace).map fun (string, isSystem) =>
      ⟨string.slice 0 (string.bytes.length % 2 ^ 16), isSystem, keyword.shouldFollow⟩

def scanIncludesGeneric (text : CString) : List IncludeData :=
  (placeLines [] (lines text)).filterMap fun (before, line) =>
    scanLineGeneric outside requireWhitespace useSeparators bareMeansSystem keywords before line

end Generic

/-- One directive of each form: a quoted one, a system one and a comment. -/
example : (scanIncludesCpp (.lit "#include \"a.h\"\n # include <b>\n// #include <c>\n")).map
    (fun d => (d.string, d.isSystemInclude)) =
    [(.lit "a.h", false), (.lit "b", true)] := by
  decide +kernel

end Tundra
