import Tundra.Lib.Probing
import Tundra.Common

/-!
# The hash table

`HashTable.hpp`: an open-addressed table of records, with linear probing and no removal. A key may be inserted
more than once; the records of a key then stand in the table in the order in which a probe meets them, and a
lookup finds the first. `HashTableGrow` inserts the records anew in the order of the slots, which is not the
order of the probe when a run of slots goes around the end of the table.

The tables of the program compare strings with `strcmp` (`TUNDRA_CASE_INSENSITIVE_FILESYSTEM` is off).
-/

namespace Tundra

open Probing

/-- One element of `m_Hashes`, `m_Strings` and `m_Payloads`. -/
structure Record (T : Type) where
  hash : UInt32
  string : CString
  payload : T
deriving DecidableEq

/-- A `HashTable`. A slot is empty when its element of `m_Hashes` is 0, and `m_TableSize` is the number of slots. -/
structure HashTable (T : Type) where
  slots : List (Option (Record T))
  tableSizeShift : Nat
  recordCount : Nat
deriving DecidableEq

/-- The first slot a probe for a hash looks at, in a table of this size. -/
def homeSlot (size : Nat) (hash : UInt32) : Nat := hash.toNat &&& (size - 1)

def Record.home {T : Type} (size : Nat) (r : Record T) : Nat := homeSlot size r.hash

/-- The comparison of `HashTableBaseLookup`. -/
def Record.isKey {T : Type} (hash : UInt32) (string : CString) (r : Record T) :
    Bool := hash == r.hash && r.string == string

namespace HashTable

variable {T : Type}

/-- `HashTableInit`. -/
def init : HashTable T := ⟨[], 0, 0⟩

/-- `HashTableBaseLookup`. -/
def baseLookup (self : HashTable T) (hash : UInt32) (string : CString) : Option Nat :=
  if self.slots.length = 0 then none else find self.slots (Record.isKey hash string) (homeSlot self.slots.length hash)

/-- The payload `HashTableLookup` returns a pointer to. -/
def lookup (self : HashTable T) (hash : UInt32) (string : CString) : Option T :=
  (self.baseLookup hash string).bind fun i => self.slots[i]?.join.map Record.payload

/-- A write through the pointer `HashTableLookup` returns, if it returns one. -/
def modify (self : HashTable T) (hash : UInt32) (string : CString) (f : T → T) : HashTable T :=
  match self.baseLookup hash string with
  | some i => { self with slots := self.slots.modify i (Option.map fun r => { r with payload := f r.payload }) }
  | none => self

/-- `HashTableGrow`: start at 128 slots, increase by 4 each time. -/
def grow (self : HashTable T) : HashTable T :=
  let newShift := max (self.tableSizeShift + 2) 7
  { self with
    slots := self.slots.reduceOption.foldl (place (Record.home (2 ^ newShift))) (List.replicate (2 ^ newShift) none)
    tableSizeShift := newShift }

/-- The load test of `HashTableBaseInsert`. -/
def grows (self : HashTable T) : Bool := (0x100 * (self.recordCount + 1)) >>> self.tableSizeShift > 0x50

/-- `HashTableInsert`. A record whose hash is 0 leaves the slot empty. -/
def insert (self : HashTable T) (hash : UInt32) (string : CString) (payload : T) : HashTable T :=
  let self := if self.grows then self.grow else self
  { self with
    slots := if hash = 0 then self.slots else place (Record.home self.slots.length) self.slots ⟨hash, string, payload⟩
    recordCount := self.recordCount + 1 }

/-- The records in the order of `HashTableWalk`. -/
def walk (self : HashTable T) : List (Record T) := self.slots.reduceOption

/-- The payloads of a key in the order in which a probe meets them. -/
def records (self : HashTable T) (hash : UInt32) (string : CString) : List T :=
  ((chain self.slots (homeSlot self.slots.length hash)).filter (Record.isKey hash string)).map Record.payload

/-- The payloads of a key in the order of the slots. -/
def walkRecords (self : HashTable T) (hash : UInt32) (string : CString) : List T :=
  (self.walk.filter (Record.isKey hash string)).map Record.payload

/-- What every sequence of insertions keeps. -/
structure Valid (table : HashTable T) : Prop where
  size : table = init ∨ table.slots.length = 2 ^ table.tableSizeShift
  count : table.slots.reduceOption.length = table.recordCount
  load : table.slots ≠ [] → 0x100 * table.recordCount < 0x51 * table.slots.length
  placed : Placed (Record.home table.slots.length) table.slots

variable {self : HashTable T} {hash hash' : UInt32} {string string' : CString} {payload : T}

theorem homeSlot_lt {size : Nat} (hsize : 0 < size) : homeSlot size hash < size := by
  have := Nat.and_le_right (n := hash.toNat) (m := size - 1)
  unfold homeSlot
  omega

theorem home_of_isKey {size : Nat} {r : Record T} (h : r.isKey hash string = true) :
    r.home size = homeSlot size hash := by
  simp only [Record.isKey, Bool.and_eq_true, beq_iff_eq] at h
  rw [Record.home, ← h.1]

theorem isKey_iff {r : Record T} : r.isKey hash string = true ↔ r.hash = hash ∧ r.string = string := by
  rw [Record.isKey, Bool.and_eq_true, beq_iff_eq, beq_iff_eq, eq_comm]

theorem valid_init : (init : HashTable T).Valid where
  size := .inl rfl
  count := rfl
  load h := absurd rfl h
  placed _ h := absurd h (Nat.not_lt_zero _)

@[simp] theorem records_init : (init : HashTable T).records hash string = [] := rfl

theorem Valid.free (hv : self.Valid) (hne : self.slots ≠ []) : none ∈ self.slots := by
  apply none_mem_of_lt
  have hload := hv.load hne
  rw [hv.count]
  omega

/-- Records placed one after another stand in the table in that order. -/
theorem foldl_place {size : Nat} (hsize : 0 < size) (rs : List (Record T)) :
    ∀ slots : List (Option (Record T)), slots.length = size → Placed (Record.home size) slots →
      slots.reduceOption.length + rs.length < size →
      (rs.foldl (place (Record.home size)) slots).length = size ∧
      Placed (Record.home size) (rs.foldl (place (Record.home size)) slots) ∧
      (rs.foldl (place (Record.home size)) slots).reduceOption.Perm (slots.reduceOption ++ rs) ∧
      ∀ hash string, (chain (rs.foldl (place (Record.home size)) slots) (homeSlot size hash)).filter
      (Record.isKey hash string) =
        (chain slots (homeSlot size hash)).filter (Record.isKey hash string) ++ rs.filter
        (Record.isKey hash string) := by
  induction rs with
  | nil =>
      intro slots hlength hplaced _
      simp [hlength, hplaced]
  | cons r rs ih =>
      intro slots hlength hplaced hroom
      simp only [List.length_cons] at hroom
      have hfree : none ∈ slots := none_mem_of_lt (by omega)
      have hhome : r.home size < slots.length := hlength.symm ▸ homeSlot_lt hsize
      have hperm := reduceOption_place_perm hhome hfree
      have hplaced' := hplaced.place hhome hfree
      obtain ⟨hlen, hpl, hp, hch⟩ := ih (place (Record.home size) slots r) (by simpa using hlength) hplaced'
        (by rw [hperm.length_eq, List.length_cons]; omega)
      refine ⟨hlen, hpl, hp.trans ?_, fun hash string => ?_⟩
      · exact (hperm.append_right rs).trans List.perm_middle.symm
      · rw [List.foldl_cons, hch, filter_chain_place hplaced hhome hfree (hlength.symm ▸ homeSlot_lt hsize)
          (fun _ => home_of_isKey),
          List.append_assoc]
        congr 1
        split_ifs with hr <;> simp [hr]

/-- The table has room for what it holds and one record more after it has grown. -/
theorem Valid.grow_room (hv : self.Valid) :
    0x100 * (self.recordCount + 1) < 0x51 * 2 ^ max (self.tableSizeShift + 2) 7 := by
  have hpow : 2 ^ 7 ≤ 2 ^ max (self.tableSizeShift + 2) 7 := Nat.pow_le_pow_right (by decide) (le_max_right _ _)
  rcases hv.size with rfl | hsize
  · simp [init]
  · have hfour : 2 ^ (self.tableSizeShift + 2) ≤ 2 ^ max (self.tableSizeShift + 2) 7 :=
      Nat.pow_le_pow_right (by decide) (le_max_left _ _)
    have hpos : 0 < self.slots.length := hsize ▸ Nat.two_pow_pos _
    have hload := hv.load (List.length_pos_iff.mp hpos)
    rw [pow_add, ← hsize] at hfour
    omega

theorem Valid.grow_spec (hv : self.Valid) :
    self.grow.Valid ∧ self.grow.slots.length = 2 ^ max (self.tableSizeShift + 2) 7 ∧ self.grow.walk.Perm self.walk ∧
      ∀ hash string, self.grow.records hash string = self.walkRecords hash string := by
  have hroom := hv.grow_room
  have hsize : 0 < 2 ^ max (self.tableSizeShift + 2) 7 := Nat.two_pow_pos _
  have hnil : (List.replicate (2 ^ max (self.tableSizeShift + 2) 7) (none : Option (Record T))).reduceOption = [] := by
    simp
  obtain ⟨hlen, hplaced, hperm, hchain⟩ := foldl_place hsize self.slots.reduceOption
    (List.replicate (2 ^ max (self.tableSizeShift + 2) 7) none) (List.length_replicate) (placed_replicate _)
    (by rw [hnil, hv.count, List.length_nil]; omega)
  rw [hnil, List.nil_append] at hperm
  have hlen' : self.grow.slots.length = 2 ^ max (self.tableSizeShift + 2) 7 := hlen
  refine ⟨⟨.inr hlen, hperm.length_eq.trans hv.count, fun _ => ?_, hlen'.symm ▸ hplaced⟩, hlen, hperm,
    fun hash string => ?_⟩
  · rw [hlen']
    change 0x100 * self.recordCount < _
    omega
  · rw [records, hlen']
    simp only [grow, hchain, walkRecords, walk]
    simp [chain]

/-- The table an insertion puts its record into: there is room in it. -/
def forInsert (self : HashTable T) : HashTable T := if self.grows then self.grow else self

theorem Valid.forInsert (hv : self.Valid) :
    self.forInsert.Valid ∧ self.forInsert.slots.length = 2 ^ self.forInsert.tableSizeShift ∧
    0x100 * (self.forInsert.recordCount + 1) < 0x51 * self.forInsert.slots.length := by
  unfold HashTable.forInsert
  split_ifs with hgrows
  · obtain ⟨hv', hlen, -⟩ := hv.grow_spec
    refine ⟨hv', hlen, ?_⟩
    rw [hlen]
    exact hv.grow_room
  · rcases hv.size with rfl | hsize
    · simp [grows, init] at hgrows
    · refine ⟨hv, hsize, ?_⟩
      simp only [grows, gt_iff_lt, decide_eq_true_eq, not_lt, Nat.shiftRight_eq_div_pow] at hgrows
      rw [hsize, mul_comm 0x51]
      exact (Nat.div_lt_iff_lt_mul (Nat.two_pow_pos _)).mp (Nat.lt_succ_of_le hgrows) |>.trans_eq (mul_comm _ _)

theorem insert_eq (hhash : hash ≠ 0) : self.insert hash string payload =
    { self.forInsert with
      slots := place (Record.home self.forInsert.slots.length) self.forInsert.slots ⟨hash, string, payload⟩
      recordCount := self.forInsert.recordCount + 1 } := by
  simp only [insert, HashTable.forInsert, hhash, if_false]

/-- What an insertion does: the table stays valid and holds one record more, and the record goes behind the
others of its key. -/
theorem Valid.insert_spec (hv : self.Valid) (hhash : hash ≠ 0) (string : CString) (payload : T) :
    (self.insert hash string payload).Valid ∧ (self.insert hash string payload).walk.Perm
    (⟨hash, string, payload⟩ :: self.walk) ∧
      ∀ hash' string', (self.insert hash string payload).records hash' string' =
        (if self.grows then self.walkRecords hash' string' else self.records hash' string') ++
          if hash = hash' ∧ string = string' then [payload] else [] := by
  obtain ⟨hv', hlen, hload⟩ := hv.forInsert
  have hpos : 0 < self.forInsert.slots.length := hlen ▸ Nat.two_pow_pos _
  have hfree := hv'.free (List.length_pos_iff.mp hpos)
  have hhome : Record.home self.forInsert.slots.length (⟨hash, string, payload⟩ : Record T) <
    self.forInsert.slots.length :=
    homeSlot_lt hpos
  have hperm := reduceOption_place_perm hhome hfree
  rw [insert_eq hhash]
  refine ⟨⟨.inr (by simpa using hlen), ?_, fun _ => by simpa using hload, ?_⟩, ?_, fun hash' string' => ?_⟩
  · exact hperm.length_eq.trans (congrArg Nat.succ hv'.count)
  · simpa only [length_place] using hv'.placed.place hhome hfree
  · refine hperm.trans (.cons _ ?_)
    unfold HashTable.forInsert
    split_ifs with hgrows
    · exact hv.grow_spec.2.2.1
    · exact .refl _
  · have hchain := filter_chain_place hv'.placed hhome hfree (h := homeSlot self.forInsert.slots.length hash')
      (homeSlot_lt hpos)
      (p := Record.isKey hash' string') (fun _ => home_of_isKey)
    have hold : self.forInsert.records hash' string' =
        if self.grows then self.walkRecords hash' string' else self.records hash' string' := by
      unfold HashTable.forInsert
      split_ifs with hgrows
      · exact hv.grow_spec.2.2.2 hash' string'
      · rfl
    rw [← hold, records, length_place, hchain, List.map_append]
    simp only [isKey_iff, records]
    split_ifs <;> rfl

/-- Either there is no record of the key, or `HashTableBaseLookup` returns the slot of the first one. -/
theorem Valid.baseLookup_cases (hv : self.Valid) (hash : UInt32) (string : CString) :
    self.baseLookup hash string = none ∧ self.records hash string = [] ∨
    ∃ i, ∃ hi : i < self.slots.length, ∃ r rest, self.baseLookup hash string = some i ∧ self.slots[i] = some r ∧
      r.isKey hash string = true ∧ self.records hash string = r.payload :: rest.map Record.payload ∧
      ∀ r' : Record T, r'.isKey hash string = true →
        (chain (self.slots.set i (some r')) (homeSlot self.slots.length hash)).filter
        (Record.isKey hash string) = r' :: rest := by
  by_cases hzero : self.slots.length = 0
  · exact .inl ⟨if_pos hzero, by simp [records, chain, List.length_eq_zero_iff.mp hzero]⟩
  have hpos := Nat.pos_of_ne_zero hzero
  have hfree := hv.free (List.length_pos_iff.mp hpos)
  cases hrecords : (chain self.slots (homeSlot self.slots.length hash)).filter (Record.isKey hash string) with
  | nil =>
      refine .inl ⟨?_, by simp [records, hrecords]⟩
      rw [baseLookup, if_neg hzero, find_eq_none (homeSlot_lt hpos) hfree hrecords]
  | cons r rest =>
      obtain ⟨i, hi, hfind, hslot, hkey, hset⟩ :=
        find_eq_some hv.placed (homeSlot_lt hpos) hfree (fun _ => home_of_isKey) hrecords
      refine .inr ⟨i, hi, r, rest, ?_, hslot, hkey, by simp [records, hrecords], hset⟩
      rw [baseLookup, if_neg hzero, hfind]

theorem Valid.lookup_eq (hv : self.Valid) : self.lookup hash string = (self.records hash string).head? := by
  rcases hv.baseLookup_cases hash string with ⟨hnone, hrecords⟩ | ⟨i, hi, r, rest, hsome, hslot, -, hrecords, -⟩
  · simp [lookup, hnone, hrecords]
  · simp [lookup, hsome, hrecords, List.getElem?_eq_getElem hi, hslot]

/-- A lookup finds a record exactly when there is one of the key. -/
theorem Valid.lookup_eq_none (hv : self.Valid) :
    self.lookup hash string = none ↔ ∀ r ∈ self.walk, ¬ (r.hash = hash ∧ r.string = string) := by
  rw [hv.lookup_eq, List.head?_eq_none_iff, records, List.map_eq_nil_iff, List.filter_eq_nil_iff]
  simp only [(chain_perm _).mem_iff, isKey_iff, walk]

theorem Valid.mem_of_lookup {payload : T} (hv : self.Valid) (h : self.lookup hash string = some payload) :
    ∃ r ∈ self.walk, r.string = string ∧ r.payload = payload := by
  rw [hv.lookup_eq, records, List.head?_map, Option.map_eq_some_iff] at h
  obtain ⟨r, hr, rfl⟩ := h
  have hmem := List.mem_filter.mp (List.mem_of_mem_head? hr)
  exact ⟨r, (chain_perm _).mem_iff.mp hmem.1, (isKey_iff.mp hmem.2).2, rfl⟩

/-- A write changes the first record of the key and nothing else. -/
theorem Valid.modify_spec (hv : self.Valid) (hash : UInt32) (string : CString) (f : T → T) :
    (self.modify hash string f).Valid ∧
      (self.modify hash string f).records hash string = (self.records hash string).modifyHead f ∧
      ∀ hash' string', ¬ (hash = hash' ∧ string = string') →
        (self.modify hash string f).records hash' string' = self.records hash' string' := by
  rcases hv.baseLookup_cases hash string with ⟨hnone, hrecords⟩ | ⟨i, hi, r, rest, hsome, hslot, hkey, hrecords, hset⟩
  · have hsame : self.modify hash string f = self := by simp only [modify, hnone]
    rw [hsame]
    exact ⟨hv, by simp [hrecords], fun _ _ _ => rfl⟩
  set r' : Record T := { r with payload := f r.payload } with hr'
  have hkey' : Record.isKey hash string r' = true := hkey
  have hmodify : self.modify hash string f = { self with slots := self.slots.set i (some r') } := by
    simp only [modify, hsome]
    rw [List.modify_eq_set_getElem?, List.getElem?_eq_getElem hi, hslot]
    rfl
  have hplaced : Placed (Record.home self.slots.length) (self.slots.set i (some r')) := hv.placed.set hi hslot rfl
  rw [hmodify]
  refine ⟨⟨.inr ?_, ?_, fun _ => ?_, ?_⟩, ?_, fun hash' string' hne => ?_⟩
  · rcases hv.size with h | h
    · simp [h, init] at hi
    · simpa using h
  · exact (length_reduceOption_set hi hslot).trans hv.count
  · simpa using hv.load (List.length_pos_iff.mp (Nat.zero_lt_of_lt hi))
  · simpa only [List.length_set] using hplaced
  · rw [records, List.length_set, hset r' hkey', hrecords]
    rfl
  · have hother : Record.isKey hash' string' r = false := by
      rw [Bool.eq_false_iff]
      intro hr
      exact hne ⟨(isKey_iff.mp hkey).1.symm.trans (isKey_iff.mp hr).1,
        (isKey_iff.mp hkey).2.symm.trans (isKey_iff.mp hr).2⟩
    have hother' : Record.isKey hash' string' r' = false := hother
    rw [records, List.length_set, filter_chain_set hi hslot hother hother', records]

theorem walk_modify_keys (self : HashTable T) (hash : UInt32) (string : CString) (f : T → T) :
    (self.modify hash string f).walk.map (fun r => (r.hash, r.string)) = self.walk.map fun r => (r.hash, r.string) := by
  have hslots : ∀ (slots : List (Option (Record T))) (i : Nat),
      (slots.modify i (Option.map fun r => { r with payload := f r.payload })).reduceOption.map
        (fun r => (r.hash, r.string)) =
        slots.reduceOption.map fun r => (r.hash, r.string) := by
    intro slots
    induction slots with
    | nil => exact fun i => by simp
    | cons slot slots ih =>
        intro i
        cases i with
        | zero =>
            rw [List.modify_zero_cons]
            cases slot with
            | none => rfl
            | some r => simp [List.reduceOption_cons_of_some]
        | succ i =>
            rw [List.modify_succ_cons]
            cases slot with
            | none => simpa using ih i
            | some r => simpa [List.reduceOption_cons_of_some] using ih i
  unfold modify
  split
  · exact hslots self.slots _
  · rfl

/-- A table without two records of one string, each with the hash of its string. -/
structure Distinct (hashOf : CString → UInt32) (table : HashTable T) : Prop where
  valid : table.Valid
  hash : ∀ r ∈ table.walk, r.hash = hashOf r.string
  strings : (table.walk.map Record.string).Nodup

namespace Distinct

variable {hashOf : CString → UInt32}

theorem init : Distinct hashOf (HashTable.init : HashTable T) where
  valid := valid_init
  hash _ hr := absurd hr List.not_mem_nil
  strings := List.nodup_nil

theorem lookup_eq_some_iff (h : Distinct hashOf self) :
    self.lookup (hashOf string) string = some payload ↔ ∃ r ∈ self.walk, r.string = string ∧ r.payload = payload := by
  refine ⟨h.valid.mem_of_lookup, ?_⟩
  rintro ⟨r, hr, rfl, rfl⟩
  cases hlookup : self.lookup (hashOf r.string) r.string with
  | none => exact absurd ⟨h.hash r hr, rfl⟩ (h.valid.lookup_eq_none.mp hlookup r hr)
  | some other =>
      obtain ⟨r', hr', hstring, rfl⟩ := h.valid.mem_of_lookup hlookup
      rw [List.inj_on_of_nodup_map h.strings hr' hr hstring]

theorem modify (h : Distinct hashOf self) (hash : UInt32) (string : CString) (f : T → T) :
    Distinct hashOf (self.modify hash string f) := by
  have hkeys := self.walk_modify_keys hash string f
  refine ⟨(h.valid.modify_spec hash string f).1, fun r hr => ?_, ?_⟩
  · have hmem := List.mem_map_of_mem (f := fun r : Record T => (r.hash, r.string)) hr
    rw [hkeys] at hmem
    obtain ⟨r', hr', heq⟩ := List.mem_map.mp hmem
    simp only [Prod.mk.injEq] at heq
    rw [← heq.1, ← heq.2]
    exact h.hash r' hr'
  · have hstrings := congrArg (List.map Prod.snd) hkeys
    rw [List.map_map, List.map_map] at hstrings
    exact hstrings ▸ h.strings

theorem insert (h : Distinct hashOf self) (hhash : hashOf string ≠ 0) (hnew : ∀ r ∈ self.walk, r.string ≠ string)
    (payload : T) :
    Distinct hashOf (self.insert (hashOf string) string payload) := by
  obtain ⟨hvalid, hperm, -⟩ := h.valid.insert_spec hhash string payload
  refine ⟨hvalid, fun r hr => ?_, ?_⟩
  · rcases List.mem_cons.mp (hperm.mem_iff.mp hr) with rfl | hr
    · rfl
    · exact h.hash r hr
  · rw [(hperm.map _).nodup_iff, List.map_cons, List.nodup_cons]
    refine ⟨fun hmem => ?_, h.strings⟩
    obtain ⟨r, hr, hstring⟩ := List.mem_map.mp hmem
    exact hnew r hr hstring

end Distinct

end HashTable

end Tundra
