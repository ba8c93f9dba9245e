import Tundra.Hash
import Mathlib.Data.List.Forall2

/-!
# The cache of generic scanners

`make_generic_scanner` of `scanner.lua` returns the first table that was passed with the same key. The key is a
digest of the elements of all three lists, one after the other, and of the flags: which list an element was in
does not show in it.
-/

namespace Tundra

/-! ### Digests as text -/

/-- A character of `hex` in `DigestToString`. -/
def hexCharacter (digit : UInt8) : UInt8 := if digit < 10 then 48 + digit else 87 + digit

def digestToString (digest : HashDigest) : List UInt8 :=
  (bigEndian digest.word0 ++ bigEndian digest.word1).flatMap
    fun byte : UInt8 => [hexCharacter (byte >>> 4), hexCharacter (byte &&& 0xf)]

def digestGuid (data : List UInt8) : List UInt8 := digestToString (hashDigest data)

/-! ### `scanner.lua` -/

/-- A flag of a scanner, as it is in the table. -/
inductive FlagValue where
  | nil
  | boolean (value : Bool)
  | number (value : Int)
  | string (value : List UInt8)
deriving DecidableEq

/-- Whether a value counts as true, as all numbers do. -/
def FlagValue.truth : FlagValue → Bool
  | nil => false
  | boolean value => value
  | number _ => true
  | string _ => true

/-- A table that is passed to `make_generic_scanner`. A list that is not there is `none`. -/
structure ScannerTable where
  kind : Option (List UInt8)
  paths : Option (List (List UInt8))
  keywords : Option (List (List UInt8))
  keywordsNoFollow : Option (List (List UInt8))
  requireWhitespace : FlagValue
  useSeparators : FlagValue
  bareMeansSystem : FlagValue
deriving DecidableEq

/-- The elements `util.nil_ipairs` goes through. -/
def nilIpairs (l : Option (List (List UInt8))) : List (List UInt8) := l.getD []

/-- How a flag is written into the key. -/
def flagText (flag : FlagValue) : List UInt8 := if flag.truth then [121] else [110]

def mashup (data : ScannerTable) : List (List UInt8) :=
  nilIpairs data.paths ++ nilIpairs data.keywords ++ nilIpairs data.keywordsNoFollow ++
    [(CString.lit "!!").bytes, flagText data.requireWhitespace, flagText data.useSeparators,
      flagText data.bareMeansSystem]

def keyString (data : ScannerTable) : List UInt8 := [1].intercalate (mashup data)

abbrev GenericScannerCache := List (List UInt8 × ScannerTable)

/-- `data.Kind = 'generic'`. -/
def ScannerTable.setKind (data : ScannerTable) : ScannerTable :=
    { data with kind := some (CString.lit "generic").bytes }

def makeGenericScanner (cache : GenericScannerCache) (data : ScannerTable) : ScannerTable × GenericScannerCache :=
  let data := data.setKind
  let key := digestGuid (keyString data)
  match cache.lookup key with
  | some value => (value, cache)
  | none => (data, (key, data) :: cache)

/-- What a sequence of calls returns. -/
def makeGenericScanners (cache : GenericScannerCache) : List ScannerTable → List ScannerTable
  | [] => []
  | data :: requests =>
      (makeGenericScanner cache data).1 :: makeGenericScanners (makeGenericScanner cache data).2 requests

/-! ### What is in a key -/

namespace ScannerTable

def lists (data : ScannerTable) : List (List UInt8) × List (List UInt8) × List (List UInt8) :=
  (nilIpairs data.paths, nilIpairs data.keywords, nilIpairs data.keywordsNoFollow)

/-- The flags, as far as they are in the key. -/
def truths (data : ScannerTable) :
    Bool × Bool × Bool := (data.requireWhitespace.truth, data.useSeparators.truth, data.bareMeansSystem.truth)

/-- The elements of all lists, where one with the separator in it counts as several. -/
def pieces (data : ScannerTable) : List (List UInt8) :=
  (nilIpairs data.paths ++ nilIpairs data.keywords ++ nilIpairs data.keywordsNoFollow).flatMap (List.splitOn 1)

end ScannerTable

theorem splitOn_intercalate_pieces {α : Type} [BEq α] [LawfulBEq α] (sep : α) {ls : List (List α)} (h : ls ≠ []) :
    ([sep].intercalate ls).splitOn sep = ls.flatMap (List.splitOn sep) := by
  induction ls with
  | nil => exact absurd rfl h
  | cons l ls ih =>
      cases ls with
      | nil => rw [List.intercalate_singleton, List.flatMap_cons, List.flatMap_nil, List.append_nil]
      | cons l' ls =>
          rw [List.intercalate_cons_cons, List.flatMap_cons, ← ih (List.cons_ne_nil l' ls), List.append_assoc,
            List.singleton_append,
            List.splitOn_append_cons_self]

theorem flagText_inj {a b : FlagValue} : flagText a = flagText b ↔ a.truth = b.truth := by
  rw [flagText, flagText]
  cases a.truth <;> cases b.truth <;> decide

theorem splitOn_flagText (flag : FlagValue) : (flagText flag).splitOn 1 = [flagText flag] := by
  rw [flagText]
  cases flag.truth <;> rfl

theorem splitOn_keyString (data : ScannerTable) : (keyString data).splitOn 1 =
    data.pieces ++ [(CString.lit "!!").bytes, flagText data.requireWhitespace, flagText data.useSeparators,
    flagText data.bareMeansSystem] := by
  have hne : mashup data ≠ [] := List.append_ne_nil_of_right_ne_nil _ (List.cons_ne_nil _ _)
  rw [keyString, splitOn_intercalate_pieces 1 hne, mashup, List.flatMap_append]
  simp only [List.flatMap_cons, List.flatMap_nil, splitOn_flagText]
  rfl

/-- The key says the pieces and the flags, and nothing else. -/
theorem keyString_eq_iff (a b : ScannerTable) :
    keyString a = keyString b ↔ a.truths = b.truths ∧ a.pieces = b.pieces := by
  have hsplit : keyString a = keyString b ↔ (keyString a).splitOn 1 = (keyString b).splitOn 1 := by
    constructor
    · intro heq
      rw [heq]
    · intro heq
      rw [← @List.intercalate_splitOn _ (keyString a) _ _ 1, heq, List.intercalate_splitOn]
  rw [hsplit, splitOn_keyString, splitOn_keyString]
  constructor
  · intro heq
    obtain ⟨hpieces, hflags⟩ := List.append_inj' heq rfl
    simp only [List.cons.injEq, flagText_inj, and_true, true_and] at hflags
    exact ⟨Prod.ext hflags.1 (Prod.ext hflags.2.1 hflags.2.2), hpieces⟩
  · rintro ⟨htruths, hpieces⟩
    have hfirst := flagText_inj.mpr (congrArg Prod.fst htruths)
    have hsecond := flagText_inj.mpr (congrArg (fun t => t.2.1) htruths)
    have hthird := flagText_inj.mpr (congrArg (fun t => t.2.2) htruths)
    rw [hpieces, hfirst, hsecond, hthird]

/-! ### Digests without collisions -/

theorem hexCharacter_inj :
    ∀ a b : Fin 16, hexCharacter (.ofNat a.val) = hexCharacter (.ofNat b.val) → a = b := by decide

theorem byte_of_hex {a b : UInt8} (hhigh : hexCharacter (a >>> 4) = hexCharacter (b >>> 4))
    (hlow : hexCharacter (a &&& 0xf) = hexCharacter (b &&& 0xf)) :
    a = b := by
  have hdigit : ∀ x y : UInt8, x.toNat < 16 → y.toNat < 16 → hexCharacter x = hexCharacter y → x.toNat = y.toNat := by
    intro x y hx hy hxy
    have heq := hexCharacter_inj ⟨x.toNat, hx⟩ ⟨y.toNat, hy⟩ (by simpa only [UInt8.ofNat_toNat] using hxy)
    exact Fin.mk.inj heq
  have hupper : ∀ x : UInt8, (x >>> 4).toNat = x.toNat / 16 := by
    intro x
    rw [UInt8.toNat_shiftRight, Nat.shiftRight_eq_div_pow]
    rfl
  have hlower : ∀ x : UInt8, (x &&& 0xf).toNat = x.toNat % 16 := by
    intro x
    rw [UInt8.toNat_and]
    exact Nat.and_two_pow_sub_one_eq_mod x.toNat 4
  have ha := a.toNat_lt
  have hb := b.toNat_lt
  have hdiv := hdigit _ _ (by rw [hupper]; omega) (by rw [hupper]; omega) hhigh
  have hmod := hdigit _ _ (by rw [hlower]; omega) (by rw [hlower]; omega) hlow
  rw [hupper, hupper] at hdiv
  rw [hlower, hlower] at hmod
  apply UInt8.toNat.inj
  omega

theorem hexText_inj {bs cs : List UInt8}
    (h : bs.flatMap (fun byte : UInt8 => [hexCharacter (byte >>> 4), hexCharacter (byte &&& 0xf)]) =
    cs.flatMap (fun byte : UInt8 => [hexCharacter (byte >>> 4), hexCharacter (byte &&& 0xf)])) :
    bs = cs := by
  induction bs generalizing cs with
  | nil =>
      cases cs with
      | nil => rfl
      | cons c cs => cases h
  | cons b bs ih =>
      cases cs with
      | nil => cases h
      | cons c cs =>
          rw [List.flatMap_cons, List.flatMap_cons] at h
          obtain ⟨hbyte, hrest⟩ := List.append_inj h rfl
          simp only [List.cons.injEq, and_true] at hbyte
          rw [byte_of_hex hbyte.1 hbyte.2, ih hrest]

theorem bigEndian_inj {a b : UInt64} (h : bigEndian a = bigEndian b) : a = b := by
  have hbytes := List.reverse_injective h
  apply UInt64.toNat.inj
  rw [← Bytes.ofLE_toLE_of_lt (k := 8) a.toNat_lt, ← Bytes.ofLE_toLE_of_lt (k := 8) b.toNat_lt, hbytes]

theorem digestToString_inj {a b : HashDigest} (h : digestToString a = digestToString b) : a = b := by
  have hlength : (bigEndian a.word0).length = (bigEndian b.word0).length := by simp [bigEndian]
  obtain ⟨hfirst, hsecond⟩ := List.append_inj (hexText_inj h) hlength
  obtain ⟨a0, a1⟩ := a
  obtain ⟨b0, b1⟩ := b
  obtain rfl : a0 = b0 := bigEndian_inj hfirst
  obtain rfl : a1 = b1 := bigEndian_inj hsecond
  rfl

/-- No two of the keys of these tables have the same digest. -/
def NoCollision (requests : List ScannerTable) : Prop :=
  ∀ a ∈ requests, ∀ b ∈ requests, hashDigest (keyString a) = hashDigest (keyString b) → keyString a = keyString b

/-! ### A sequence of calls -/

def scannerKey (data : ScannerTable) : List UInt8 := digestGuid (keyString data)

/-- The table that is returned for a key: the one in the cache, or else the first one that is passed with this key. -/
def scannerFor (cache : GenericScannerCache) (requests : List ScannerTable) (key : List UInt8) : Option ScannerTable :=
  (cache.lookup key).or ((requests.find? fun data => scannerKey data = key).map ScannerTable.setKind)

theorem makeGenericScanner_hit {cache : GenericScannerCache} {data value : ScannerTable}
    (h : cache.lookup (scannerKey data) = some value) :
    makeGenericScanner cache data = (value, cache) := by
  change (match cache.lookup (scannerKey data) with | some value => (value, cache) | none => (data.setKind,
    (scannerKey data, data.setKind) :: cache)) = _
  rw [h]

theorem makeGenericScanner_miss {cache : GenericScannerCache} {data : ScannerTable}
    (h : cache.lookup (scannerKey data) = none) :
    makeGenericScanner cache data = (data.setKind, (scannerKey data, data.setKind) :: cache) := by
  change (match cache.lookup (scannerKey data) with | some value => (value, cache) | none => (data.setKind,
    (scannerKey data, data.setKind) :: cache)) = _
  rw [h]

theorem scannerFor_cached {cache : GenericScannerCache} {key : List UInt8} {value : ScannerTable}
    (h : cache.lookup key = some value) (requests : List ScannerTable) :
    scannerFor cache requests key = some value := by
  rw [scannerFor, h]
  rfl

theorem scannerFor_cons_self {cache : GenericScannerCache} {data : ScannerTable}
    (h : cache.lookup (scannerKey data) = none) (requests : List ScannerTable) :
    scannerFor cache (data :: requests) (scannerKey data) = some data.setKind := by
  have hfind : (data :: requests).find? (fun other => scannerKey other = scannerKey data) = some data :=
    List.find?_cons_of_pos (by simp)
  rw [scannerFor, h, hfind]
  rfl

theorem scannerFor_cons_ne {cache : GenericScannerCache} {data : ScannerTable} {key : List UInt8}
    (h : scannerKey data ≠ key) (requests : List ScannerTable) :
    scannerFor cache (data :: requests) key = scannerFor cache requests key := by
  rw [scannerFor, List.find?_cons_of_neg (by simpa using h), scannerFor]

theorem makeGenericScanner_fst (cache : GenericScannerCache) (data : ScannerTable) (requests : List ScannerTable) :
    scannerFor cache (data :: requests) (scannerKey data) = some (makeGenericScanner cache data).1 := by
  cases h : cache.lookup (scannerKey data) with
  | some value => rw [scannerFor_cached h, makeGenericScanner_hit h]
  | none => rw [scannerFor_cons_self h, makeGenericScanner_miss h]

theorem scannerFor_step (cache : GenericScannerCache) (data : ScannerTable) (requests : List ScannerTable)
    (key : List UInt8) :
    scannerFor (makeGenericScanner cache data).2 requests key = scannerFor cache (data :: requests) key := by
  cases h : cache.lookup (scannerKey data) with
  | some value =>
      rw [makeGenericScanner_hit h]
      by_cases hkey : scannerKey data = key
      · rw [← hkey, scannerFor_cached h, scannerFor_cached h]
      · rw [scannerFor_cons_ne hkey]
  | none =>
      rw [makeGenericScanner_miss h]
      by_cases hkey : scannerKey data = key
      · rw [← hkey, scannerFor_cons_self h, scannerFor_cached List.lookup_cons_self]
      · have hother : (key == scannerKey data) = false := beq_eq_false_iff_ne.mpr fun heq => hkey heq.symm
        rw [scannerFor_cons_ne hkey, scannerFor, List.lookup_cons, hother, scannerFor]

theorem makeGenericScanners_eq (cache : GenericScannerCache) (requests : List ScannerTable) :
    makeGenericScanners cache requests = requests.map
    fun data => (scannerFor cache requests (scannerKey data)).getD data := by
  induction requests generalizing cache with
  | nil => rfl
  | cons data requests ih =>
      rw [makeGenericScanners, ih, List.map_cons, makeGenericScanner_fst]
      simp only [scannerFor_step]
      rfl

/-- From an empty cache on, a table comes back as the first one with its key. -/
theorem scannerFor_nil {requests : List ScannerTable} {data : ScannerTable} (hdata : data ∈ requests) :
    ∃ first ∈ requests, scannerKey first = scannerKey data ∧ scannerFor [] requests
    (scannerKey data) = some first.setKind := by
  cases hfind : requests.find? fun other => scannerKey other = scannerKey data with
  | none =>
      have hother := List.find?_eq_none.mp hfind data hdata
      simp at hother
  | some first =>
      refine ⟨first, List.mem_of_find?_eq_some hfind, by simpa using List.find?_some hfind, ?_⟩
      rw [scannerFor, hfind]
      rfl

theorem scannerKey_eq_iff {requests : List ScannerTable} (hdigest : NoCollision requests) {a b : ScannerTable}
    (ha : a ∈ requests) (hb : b ∈ requests) :
    scannerKey a = scannerKey b ↔ a.truths = b.truths ∧ a.pieces = b.pieces := by
  rw [← keyString_eq_iff]
  constructor
  · intro h
    exact hdigest a ha b hb (digestToString_inj h)
  · intro h
    rw [scannerKey, scannerKey, h]

/-- Two tables have different keys if and only if a flag differs in truth or the elements of all three lists
together differ. Up to digest collisions, in a sequence of calls every scanner has the paths and keywords that
were asked for if and only if no two tables of the sequence have the same flags and the same elements in other
lists. -/
theorem genericScanners_interned (a b : ScannerTable) (requests : List ScannerTable) :
    (keyString a ≠ keyString b ↔ a.truths ≠ b.truths ∨ a.pieces ≠ b.pieces) ∧
    (NoCollision requests → (List.Forall₂ (fun request scanner => scanner.lists = request.lists) requests
    (makeGenericScanners [] requests) ↔
      ∀ a ∈ requests, ∀ b ∈ requests, a.truths = b.truths → a.pieces = b.pieces → a.lists = b.lists)) := by
  constructor
  · rw [Ne, keyString_eq_iff, not_and_or]
  intro hdigest
  rw [makeGenericScanners_eq, List.forall₂_map_right_iff, List.forall₂_same]
  constructor
  · intro h a ha b hb htruths hpieces
    have hkey := (scannerKey_eq_iff hdigest ha hb).mpr ⟨htruths, hpieces⟩
    obtain ⟨first, -, -, hfirst⟩ := scannerFor_nil ha
    have hlists := h a ha
    have hlists' := h b hb
    rw [← hkey, hfirst] at hlists'
    rw [hfirst] at hlists
    exact hlists.symm.trans hlists'
  · intro h data hdata
    obtain ⟨first, hmem, hkey, hfirst⟩ := scannerFor_nil hdata
    obtain ⟨htruths, hpieces⟩ := (scannerKey_eq_iff hdigest hmem hdata).mp hkey
    rw [hfirst]
    exact h first hmem data hdata htruths hpieces

/-- A scanner for assembly files: the words that include text, and those that include a file as it is. -/
def asmTable (keywords keywordsNoFollow : List (List UInt8)) : ScannerTable where
  kind := none
  paths := none
  keywords := some keywords
  keywordsNoFollow := some keywordsNoFollow
  requireWhitespace := .boolean true
  useSeparators := .boolean true
  bareMeansSystem := .boolean false

def textKeyword : List UInt8 := (CString.lit "include").bytes

def binaryKeyword : List UInt8 := (CString.lit "incbin").bytes

/-- Whether files are followed is what the first of two calls says. -/
theorem asmTable_swapped :
    (asmTable [textKeyword, binaryKeyword] []).lists ≠ (asmTable [textKeyword] [binaryKeyword]).lists ∧
    keyString (asmTable [textKeyword, binaryKeyword] []) = keyString (asmTable [textKeyword] [binaryKeyword]) ∧
    makeGenericScanners [] [asmTable [textKeyword, binaryKeyword] [], asmTable [textKeyword] [binaryKeyword]] =
      [(asmTable [textKeyword, binaryKeyword] []).setKind, (asmTable [textKeyword, binaryKeyword] []).setKind] := by
  have hkey : keyString (asmTable [textKeyword, binaryKeyword] []) =
    keyString (asmTable [textKeyword] [binaryKeyword]) := rfl
  have hsame : scannerKey (asmTable [textKeyword] [binaryKeyword]) =
    scannerKey (asmTable [textKeyword, binaryKeyword] []) := congrArg digestGuid hkey.symm
  refine ⟨by decide, hkey, ?_⟩
  rw [makeGenericScanners, makeGenericScanner_miss rfl, makeGenericScanners,
    makeGenericScanner_hit (by rw [hsame]; exact List.lookup_cons_self)]
  rfl

/-- Three requests with two scanners: the last one asks for the first scanner again, in lists that are not there
instead of empty ones. -/
def asmRequests : List ScannerTable :=
  [asmTable [textKeyword] [binaryKeyword], asmTable [binaryKeyword] [textKeyword],
    { asmTable [textKeyword] [binaryKeyword] with paths := some [], requireWhitespace := .number 1 }]

theorem genericScanners_interned_asm :
    keyString (asmTable [textKeyword] [binaryKeyword]) ≠ keyString (asmTable [binaryKeyword] [textKeyword]) ∧
    List.Forall₂ (fun request scanner => scanner.lists = request.lists) asmRequests
    (makeGenericScanners [] asmRequests) := by
  have hdigest : NoCollision asmRequests := by
    unfold NoCollision
    decide +kernel
  have hlists : ∀ a ∈ asmRequests, ∀ b ∈ asmRequests, a.truths = b.truths → a.pieces = b.pieces →
    a.lists = b.lists := by decide +kernel
  have h := genericScanners_interned (asmTable [textKeyword] [binaryKeyword]) (asmTable [binaryKeyword] [textKeyword])
    asmRequests
  exact ⟨h.1.mpr (.inr (by decide)), (h.2 hdigest).mpr hlists⟩

end Tundra
