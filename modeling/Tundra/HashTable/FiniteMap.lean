import Tundra.HashTable
import Mathlib.Data.List.Pairwise

/-!
# Hash tables are finite maps

The tables of `HashTable.hpp` in both variants, that which tells case apart and that which does not. Only a
lookup compares strings, so the variants share everything else. A table that is filled with keys that are not in
it yet is a finite map, through every growth: a lookup ends, and finds the payload of the key that it is given
and nothing else.
-/

namespace Tundra

inductive HashTableFlags where
  | caseSensitive
  | caseInsensitive
deriving DecidableEq

/-- A `char` as an `int`. -/
def charToInt (c : UInt8) : Int := c.toInt8.toInt

def foldCase (c : Int) : Int := if (c - 65) % 2 ^ 32 < 26 then c + 0x20 else c

/-- `strcmp`: the difference of the first bytes that differ, the terminators included. -/
def strcmp : List UInt8 → List UInt8 → Int
  | [], [] => 0
  | [], r :: _ => -r.toNat
  | l :: _, [] => l.toNat
  | l :: ls, r :: rs => if l = r then strcmp ls rs else l.toNat - r.toNat

/-- `FastCompareNoCase`. Behind the end of a string stands its terminator. -/
def fastCompareNoCase : List UInt8 → List UInt8 → Int
  | [], rhs => foldCase 0 - foldCase (charToInt (rhs.headD 0))
  | l :: lhs, rhs =>
      let lc := charToInt l
      let rc := charToInt (rhs.headD 0)
      let diff := foldCase lc - foldCase rc
      if diff ≠ 0 then diff else if lc = 0 || rc = 0 then 0 else fastCompareNoCase lhs rhs.tail

def djb2HashNoCase (str : CString) : UInt32 :=
  let hash := str.bytes.foldl (fun hash c => hash * 33 + UInt32.ofInt (foldCase c.toNat)) 5381
  if hash = 0 then 1 else hash

namespace HashTableFlags

def compareFn : HashTableFlags → CString → CString → Int
  | caseSensitive, l, r => strcmp l.bytes r.bytes
  | caseInsensitive, l, r => fastCompareNoCase l.bytes r.bytes

/-- The hash that goes with the comparison. -/
def hash : HashTableFlags → CString → UInt32
  | caseSensitive, str => djb2HashPath str
  | caseInsensitive, str => djb2HashNoCase str

end HashTableFlags

/-- The comparison of `HashTableBaseLookup` in either variant. -/
def Record.isKeyBy {T : Type} (flags : HashTableFlags) (hash : UInt32) (string : CString) (r : Record T) : Bool :=
  hash == r.hash && flags.compareFn r.string string == 0

namespace HashTable

open Probing

variable {T : Type}

/-- `HashTableBaseLookup` in either variant. -/
def baseLookupBy (flags : HashTableFlags) (self : HashTable T) (hash : UInt32) (string : CString) : Option Nat :=
  if self.slots.length = 0 then none
    else find self.slots (Record.isKeyBy flags hash string) (homeSlot self.slots.length hash)

/-- `HashTableLookup` in either variant. -/
def lookupBy (flags : HashTableFlags) (self : HashTable T) (hash : UInt32) (string : CString) : Option T :=
  (self.baseLookupBy flags hash string).bind fun i => self.slots[i]?.join.map Record.payload

def hashSetLookup (flags : HashTableFlags) (self : HashTable T) (hash : UInt32) (string : CString) : Bool :=
  (self.baseLookupBy flags hash string).isSome

end HashTable

/-! ### Comparisons and hashes -/

theorem charToInt_eq (c : UInt8) : charToInt c = if c.toNat < 128 then (c.toNat : Int) else c.toNat - 256 := by
  have hbits : charToInt c = c.toBitVec.toInt := rfl
  have hnat : c.toBitVec.toNat = c.toNat := rfl
  rw [hbits, BitVec.toInt_eq_toNat_cond, hnat]
  split_ifs <;> omega

theorem foldCase_charToInt_ne_zero {c : UInt8} (h : c ≠ 0) : foldCase (charToInt c) ≠ 0 := by
  have hne : c.toNat ≠ 0 := fun hzero => h (UInt8.toNat_inj.mp hzero)
  have := c.toNat_lt
  rw [charToInt_eq, foldCase]
  split_ifs <;> omega

/-- The letters that are folded are no negative numbers, so it does not matter whether a `char` has a sign. -/
theorem foldCase_charToInt_eq_iff (l r : UInt8) :
    foldCase (charToInt l) = foldCase (charToInt r) ↔ foldCase l.toNat = foldCase r.toNat := by
  have hl := l.toNat_lt
  have hr := r.toNat_lt
  rw [charToInt_eq, charToInt_eq]
  simp only [foldCase]
  split_ifs <;> omega

theorem strcmp_eq_zero (l r : List UInt8) (hl : (0 : UInt8) ∉ l) (hr : (0 : UInt8) ∉ r) : strcmp l r = 0 ↔ l = r := by
  have hne : ∀ (c : UInt8) (rest : List UInt8), (0 : UInt8) ∉ c :: rest → c.toNat ≠ 0 := by
    intro c rest hc hzero
    exact hc (List.mem_cons.mpr (.inl (UInt8.toNat_inj.mp hzero).symm))
  induction l generalizing r with
  | nil =>
      cases r with
      | nil => simp [strcmp]
      | cons c r =>
          have := hne c r hr
          simp only [strcmp, List.nil_eq, reduceCtorEq, iff_false]
          omega
  | cons b l ih =>
      have hb := hne b l hl
      cases r with
      | nil =>
          simp only [strcmp, reduceCtorEq, iff_false]
          omega
      | cons c r =>
          have hrest := ih r (fun h => hl (List.mem_cons_of_mem _ h)) (fun h => hr (List.mem_cons_of_mem _ h))
          by_cases hbc : b = c
          · simp [strcmp, hbc, hrest]
          · have hdiff : b.toNat ≠ c.toNat := fun h => hbc (UInt8.toNat_inj.mp h)
            simp only [strcmp, hbc, if_false, List.cons.injEq, false_and, iff_false]
            omega

theorem fastCompareNoCase_eq_zero (l r : List UInt8) (hl : (0 : UInt8) ∉ l) (hr : (0 : UInt8) ∉ r) :
    fastCompareNoCase l r = 0 ↔ l.map (fun c => foldCase c.toNat) = r.map fun c => foldCase c.toNat := by
  have hzero : foldCase (charToInt 0) = 0 := by decide
  have hne : ∀ (c : UInt8) (rest : List UInt8), (0 : UInt8) ∉ c :: rest → c ≠ 0 := by
    rintro c rest hc rfl
    exact hc List.mem_cons_self
  induction l generalizing r with
  | nil =>
      cases r with
      | nil =>
          simp only [fastCompareNoCase, List.headD_nil, hzero, sub_zero, List.map_nil, iff_true]
          decide
      | cons c r =>
          have := foldCase_charToInt_ne_zero (hne c r hr)
          simp only [fastCompareNoCase, List.headD_cons, List.map_nil, List.map_cons, List.nil_eq, reduceCtorEq,
            iff_false]
          simp only [foldCase] at this ⊢
          omega
  | cons b l ih =>
      have hb := foldCase_charToInt_ne_zero (hne b l hl)
      cases r with
      | nil =>
          simp only [fastCompareNoCase, List.headD_nil, hzero, sub_zero, ne_eq, hb, not_false_eq_true, if_true,
            List.map_cons, List.map_nil,
            reduceCtorEq]
      | cons c r =>
          have hrest := ih r (fun h => hl (List.mem_cons_of_mem _ h)) (fun h => hr (List.mem_cons_of_mem _ h))
          have hchars : ∀ d : UInt8, d ≠ 0 → charToInt d ≠ 0 := by
            intro d hd hchar
            exact foldCase_charToInt_ne_zero hd (by rw [hchar]; decide)
          simp only [fastCompareNoCase, List.headD_cons, List.tail_cons, ne_eq, sub_eq_zero, List.map_cons,
            List.cons.injEq,
            ← foldCase_charToInt_eq_iff b c]
          by_cases hbc : foldCase (charToInt b) = foldCase (charToInt c)
          · simp [hbc, hchars b (hne b l hl), hchars c (hne c r hr), hrest]
          · simp [hbc, sub_eq_zero]

namespace HashTableFlags

variable {flags : HashTableFlags}

/-- A string as the comparison sees it. -/
def spelling (flags : HashTableFlags) (str : CString) : List Int :=
  match flags with
  | caseSensitive => str.bytes.map fun c => c.toNat
  | caseInsensitive => str.bytes.map fun c => foldCase c.toNat

theorem compareFn_eq_zero {l r : CString} : flags.compareFn l r = 0 ↔ flags.spelling l = flags.spelling r := by
  cases flags with
  | caseInsensitive => exact fastCompareNoCase_eq_zero l.bytes r.bytes l.noNul r.noNul
  | caseSensitive =>
      have hinj : Function.Injective fun c : UInt8 => (c.toNat : Int) := by
        intro c d h
        exact UInt8.toNat_inj.mp (Int.ofNat.inj h)
      rw [compareFn, strcmp_eq_zero l.bytes r.bytes l.noNul r.noNul]
      exact (List.map_injective_iff.mpr hinj).eq_iff.symm

theorem hash_eq_of_compareFn {l r : CString} (h : flags.compareFn l r = 0) : flags.hash l = flags.hash r := by
  cases flags with
  | caseSensitive =>
      have hbytes := (strcmp_eq_zero l.bytes r.bytes l.noNul r.noNul).mp h
      obtain ⟨l, hl⟩ := l
      obtain ⟨r, hr⟩ := r
      obtain rfl : l = r := hbytes
      rfl
  | caseInsensitive =>
      have hfold : ∀ str : CString, djb2HashNoCase str =
          (let hash := (str.bytes.map fun c => foldCase c.toNat).foldl (fun hash c => hash * 33 + UInt32.ofInt c) 5381
          if hash = 0 then 1 else hash) := by
        intro str
        simp only [List.foldl_map, djb2HashNoCase]
      have hspelling := (fastCompareNoCase_eq_zero l.bytes r.bytes l.noNul r.noNul).mp h
      rw [hash, hash, hfold, hfold, hspelling]

theorem hash_ne_zero (str : CString) : flags.hash str ≠ 0 := by
  cases flags with
  | caseSensitive => exact djb2HashPath_ne_zero str
  | caseInsensitive =>
      simp only [hash, djb2HashNoCase]
      split_ifs with hzero
      · decide
      · exact hzero

end HashTableFlags

/-! ### The map a table holds -/

namespace HashTable

open Probing

variable {T : Type} {flags : HashTableFlags} {table : HashTable T} {entries : List (CString × T)}

/-- A table after these keys were inserted with these payloads, each one when it was not there yet, the last one
first. -/
inductive Inserted (flags : HashTableFlags) : HashTable T → List (CString × T) → Prop
  | init : Inserted flags .init []
  | insert {table : HashTable T} {entries : List (CString × T)} (key : CString) (payload : T)
      (h : Inserted flags table entries)
      (hnew : ∀ entry ∈ entries, flags.compareFn entry.1 key ≠ 0) :
      Inserted flags (table.insert (flags.hash key) key payload) ((key, payload) :: entries)

def entryRecord (flags : HashTableFlags) (entry : CString × T) : Record T := ⟨flags.hash entry.1, entry.1, entry.2⟩

/-- A table holds these entries. The last field is about the 32-bit fields of the table, which are numbers
without a bound here. -/
structure Holds (flags : HashTableFlags) (table : HashTable T) (entries : List (CString × T)) : Prop where
  lookupEnds : ∀ key, table.slots ≠ [] →
    ∃ i, probe table.slots (stopAt (Record.isKeyBy flags (flags.hash key) key)) table.slots.length
      (homeSlot table.slots.length (flags.hash key)) = some i
  lookup : ∀ key payload, table.lookupBy flags (flags.hash key) key = some payload ↔
    ∃ entry ∈ entries, flags.compareFn entry.1 key = 0 ∧ entry.2 = payload
  hashSetLookup : ∀ key, table.hashSetLookup flags (flags.hash key) key = true ↔
    ∃ entry ∈ entries, flags.compareFn entry.1 key = 0
  walk : table.walk.Perm (entries.map (entryRecord flags))
  recordCount : table.recordCount = entries.length
  free : entries ≠ [] → none ∈ table.slots
  insertEnds : ∀ key, ∃ i, probe table.forInsert.slots Option.isNone table.forInsert.slots.length
    (homeSlot table.forInsert.slots.length (flags.hash key)) = some i
  tableSize : entries.length < 0x51 * 2 ^ 23 → table.slots.length < 2 ^ 32

/-- How a table has grown: four times as large each time, and not before there was need for it. -/
def Grown (table : HashTable T) : Prop :=
  table.tableSizeShift = 0 ∨ table.tableSizeShift % 2 = 1 ∧
    (table.tableSizeShift = 7 ∨ 0x51 * 2 ^ (table.tableSizeShift - 2) ≤ 0x100 * table.recordCount)

theorem Grown.insert (h : table.Grown) (hash : UInt32) (string : CString) (payload : T) :
    (table.insert hash string payload).Grown := by
  simp only [HashTable.insert, Grown] at h ⊢
  by_cases hgrows : table.grows = true
  · simp only [hgrows, if_true, grow]
    simp only [grows, gt_iff_lt, decide_eq_true_eq, Nat.shiftRight_eq_div_pow] at hgrows
    rw [Nat.lt_iff_add_one_le, Nat.le_div_iff_mul_le (Nat.two_pow_pos _)] at hgrows
    rcases h with hzero | ⟨hodd, h⟩
    · simp [hzero]
    · by_cases hsmall : table.tableSizeShift + 2 ≤ 7
      · simp [hsmall]
      · rw [max_eq_left (by omega), Nat.add_sub_cancel]
        refine .inr ⟨by omega, .inr hgrows⟩
  · simp only [hgrows, Bool.false_eq_true, if_false]
    rcases h with hzero | ⟨hodd, hseven | hload⟩
    · exact .inl hzero
    · exact .inr ⟨hodd, .inl hseven⟩
    · exact .inr ⟨hodd, .inr (hload.trans (by omega))⟩

theorem Inserted.inv (h : Inserted flags table entries) :
    table.Valid ∧ table.walk.Perm (entries.map (entryRecord flags)) ∧ table.Grown ∧
      entries.Pairwise fun later earlier => flags.compareFn earlier.1 later.1 ≠ 0 := by
  induction h with
  | init => exact ⟨valid_init, .refl _, .inl rfl, .nil⟩
  | insert key payload _ hnew ih =>
      obtain ⟨hvalid, hwalk, hgrown, hdistinct⟩ := ih
      obtain ⟨hvalid', hwalk', -⟩ := hvalid.insert_spec (flags.hash_ne_zero key) key payload
      exact ⟨hvalid', hwalk'.trans (hwalk.cons _), hgrown.insert _ _ _, List.pairwise_cons.mpr ⟨hnew, hdistinct⟩⟩

theorem home_of_isKeyBy {size : Nat} {hash : UInt32} {string : CString} {r : Record T}
    (h : r.isKeyBy flags hash string = true) :
    r.home size = homeSlot size hash := by
  simp only [Record.isKeyBy, Bool.and_eq_true, beq_iff_eq] at h
  rw [Record.home, ← h.1]

/-- Either no record has the key, or the lookup finds one that has it. -/
theorem Valid.baseLookupBy_cases (hv : table.Valid) (flags : HashTableFlags) (hash : UInt32) (string : CString) :
    table.baseLookupBy flags hash string = none ∧ (∀ r ∈ table.walk, r.isKeyBy flags hash string = false) ∨
    ∃ i, ∃ r ∈ table.walk, r.isKeyBy flags hash string = true ∧ table.baseLookupBy flags hash string = some i ∧
    table.slots[i]? = some (some r) := by
  by_cases hzero : table.slots.length = 0
  · refine .inl ⟨if_pos hzero, fun r hr => ?_⟩
    rw [walk, List.length_eq_zero_iff.mp hzero] at hr
    cases hr
  have hpos := Nat.pos_of_ne_zero hzero
  have hfree := hv.free (List.length_pos_iff.mp hpos)
  cases hchain : (chain table.slots (homeSlot table.slots.length hash)).filter (Record.isKeyBy flags hash string) with
  | nil =>
      refine .inl ⟨?_, fun r hr => ?_⟩
      · rw [baseLookupBy, if_neg hzero, find_eq_none (homeSlot_lt hpos) hfree hchain]
      · have hnot := List.filter_eq_nil_iff.mp hchain r ((chain_perm _).mem_iff.mpr hr)
        simpa using hnot
  | cons r rest =>
      obtain ⟨i, hi, hfind, hslot, hkey, -⟩ :=
        find_eq_some hv.placed (homeSlot_lt hpos) hfree (fun _ => home_of_isKeyBy) hchain
      have hmem : r ∈ table.walk := by
        have hmem' : r ∈ (chain table.slots (homeSlot table.slots.length hash)).filter
          (Record.isKeyBy flags hash string) := by
          rw [hchain]
          exact List.mem_cons_self
        exact (chain_perm _).mem_iff.mp (List.mem_filter.mp hmem').1
      exact .inr ⟨i, r, hmem, hkey, by rw [baseLookupBy, if_neg hzero, hfind], by
        rw [List.getElem?_eq_getElem hi, hslot]⟩

/-- The records with a key are those of the entries that compare equal to it. -/
theorem isKeyBy_entryRecord {key : CString} {entry : CString × T} :
    (entryRecord flags entry).isKeyBy flags (flags.hash key) key = true ↔ flags.compareFn entry.1 key = 0 := by
  simp only [Record.isKeyBy, entryRecord, Bool.and_eq_true, beq_iff_eq]
  exact ⟨And.right, fun h => ⟨(flags.hash_eq_of_compareFn h).symm, h⟩⟩

theorem eq_of_compareFn (hdistinct : entries.Pairwise fun later earlier => flags.compareFn earlier.1 later.1 ≠ 0)
    {key : CString} {a b : CString × T} (ha : a ∈ entries) (hb : b ∈ entries) (hak : flags.compareFn a.1 key = 0)
    (hbk : flags.compareFn b.1 key = 0) : a = b := by
  rw [HashTableFlags.compareFn_eq_zero] at hak hbk
  have hsymm : Std.Symm fun later earlier : CString × T => flags.compareFn earlier.1 later.1 ≠ 0 := by
    constructor
    intro l r h
    rwa [ne_eq, HashTableFlags.compareFn_eq_zero, eq_comm, ← HashTableFlags.compareFn_eq_zero]
  by_contra hne
  refine List.Pairwise.forall hdistinct ha hb hne ?_
  rw [HashTableFlags.compareFn_eq_zero, hak, hbk]

/-- A search for an empty slot is one for a record that no record is. -/
theorem isNone_eq_stopAt : (Option.isNone : Option (Record T) → Bool) = stopAt fun _ => false := by
  funext slot
  cases slot <;> rfl

/-- A table that was filled with keys that were not in it yet holds what was inserted. -/
theorem Inserted.holds (h : Inserted flags table entries) : Holds flags table entries := by
  obtain ⟨hvalid, hwalk, hgrown, hdistinct⟩ := h.inv
  have hmem : ∀ r, r ∈ table.walk ↔ ∃ entry ∈ entries, entryRecord flags entry = r := by
    intro r
    rw [hwalk.mem_iff, List.mem_map]
  have hcount : table.recordCount = entries.length := by
    have hlength := hwalk.length_eq
    rw [List.length_map] at hlength
    exact hvalid.count.symm.trans hlength
  obtain ⟨hvalid', hsize', -⟩ := hvalid.forInsert
  have hpos' : 0 < table.forInsert.slots.length := hsize' ▸ Nat.two_pow_pos _
  refine ⟨fun key hne => ?_, fun key payload => ?_, fun key => ?_, hwalk, hcount, fun hne => ?_, fun key => ?_,
    fun hfew => ?_⟩
  · obtain ⟨i, -, hprobe, -⟩ := exists_stop (p := Record.isKeyBy flags (flags.hash key) key)
      (homeSlot_lt (List.length_pos_iff.mpr hne)) (hvalid.free hne)
    exact ⟨i, hprobe⟩
  · rcases hvalid.baseLookupBy_cases flags (flags.hash key) key with ⟨hnone, hall⟩ | ⟨i, r, hr, hkey, hsome, hslot⟩
    · rw [lookupBy, hnone]
      refine iff_of_false (by simp) ?_
      rintro ⟨entry, hentry, hcompare, -⟩
      have hfalse := hall _ ((hmem _).mpr ⟨entry, hentry, rfl⟩)
      rw [isKeyBy_entryRecord.mpr hcompare] at hfalse
      cases hfalse
    · obtain ⟨entry, hentry, rfl⟩ := (hmem r).mp hr
      rw [isKeyBy_entryRecord] at hkey
      have hlookup : table.lookupBy flags (flags.hash key) key = some entry.2 := by
        rw [lookupBy, hsome, Option.bind_some, hslot]
        rfl
      rw [hlookup, Option.some.injEq]
      constructor
      · exact fun hpayload => ⟨entry, hentry, hkey, hpayload⟩
      · rintro ⟨other, hother, hcompare, hpayload⟩
        rwa [eq_of_compareFn hdistinct hentry hother hkey hcompare]
  · rw [hashSetLookup]
    rcases hvalid.baseLookupBy_cases flags (flags.hash key) key with ⟨hnone, hall⟩ | ⟨i, r, hr, hkey, hsome, -⟩
    · rw [hnone]
      refine iff_of_false (by simp) ?_
      rintro ⟨entry, hentry, hcompare⟩
      have hfalse := hall _ ((hmem _).mpr ⟨entry, hentry, rfl⟩)
      rw [isKeyBy_entryRecord.mpr hcompare] at hfalse
      cases hfalse
    · obtain ⟨entry, hentry, rfl⟩ := (hmem r).mp hr
      rw [hsome]
      exact iff_of_true rfl ⟨entry, hentry, isKeyBy_entryRecord.mp hkey⟩
  · refine hvalid.free fun hslots => hne ?_
    rw [← List.length_eq_zero_iff, ← hcount, ← hvalid.count, hslots]
    rfl
  · have hhome : homeSlot table.forInsert.slots.length (flags.hash key) < table.forInsert.slots.length :=
      homeSlot_lt hpos'
    obtain ⟨i, -, hprobe, -⟩ :=
      exists_stop (p := fun _ : Record T => false) hhome (hvalid'.free (List.length_pos_iff.mp hpos'))
    exact ⟨i, isNone_eq_stopAt ▸ hprobe⟩
  · rcases hvalid.size with rfl | hsize
    · exact Nat.two_pow_pos _
    · rw [hsize]
      refine Nat.pow_lt_pow_right (by decide) ?_
      rcases hgrown with hzero | ⟨hodd, hseven | hload⟩
      · omega
      · omega
      · -- a table of 2^33 slots would have more records
        by_contra hlarge
        have hpow : 2 ^ 31 ≤ 2 ^ (table.tableSizeShift - 2) := Nat.pow_le_pow_right (by decide) (by omega)
        omega

/-- Every table that is filled with keys that are not in it yet, in either variant, is a finite map; and strings
that compare equal up to case have one hash. -/
theorem hashTable_finite_map :
    (∀ (T : Type) (flags : HashTableFlags) (table : HashTable T) (entries : List (CString × T)),
      Inserted flags table entries → Holds flags table entries) ∧
    ∀ a b : CString, fastCompareNoCase a.bytes b.bytes = 0 → djb2HashNoCase a = djb2HashNoCase b :=
  ⟨fun _ _ _ _ h => h.holds, fun _ _ h => @HashTableFlags.hash_eq_of_compareFn .caseInsensitive _ _ h⟩

/-- A key is found in another spelling. -/
theorem hashTable_finite_map_spelling : ∃ table : HashTable Nat, Holds .caseInsensitive table
    [(.lit "Bar", 2), (.lit "foo", 1)] ∧
    table.lookupBy .caseInsensitive (djb2HashNoCase (.lit "FOO")) (.lit "FOO") = some 1 ∧
    djb2HashNoCase (.lit "foo") = djb2HashNoCase (.lit "FOO") := by
  have hinserted : Inserted .caseInsensitive _ [(CString.lit "Bar", 2), (.lit "foo", 1)] :=
    .insert (.lit "Bar") 2 (.insert (.lit "foo") 1 .init fun entry hentry => by cases hentry) fun entry hentry => by
      rw [List.mem_singleton.mp hentry]
      decide +kernel
  have hsame : fastCompareNoCase (CString.lit "foo").bytes (CString.lit "FOO").bytes = 0 := by decide +kernel
  have hholds := hashTable_finite_map.1 Nat .caseInsensitive _ _ hinserted
  refine ⟨_, hholds, (hholds.lookup (.lit "FOO") 1).mpr ⟨(.lit "foo", 1), ?_, hsame, rfl⟩,
    hashTable_finite_map.2 _ _ hsame⟩
  exact List.mem_cons_of_mem _ (List.mem_singleton_self _)

end HashTable

end Tundra
