import Tundra.Common
import Tundra.Lib.BitSet

/-!
# Target selection

`TargetSelect.cpp`: the names of the command line are subvariants, variants, configurations with or without a
variant and a subvariant, or targets. Every configuration is combined with the variants and subvariants that
were named, or with the default ones.
-/

namespace Tundra

def countTrailingZeroes (v : UInt32) : Nat :=
  let v := v &&& -v
  let bitIndex := if v ≠ 0 then 31 else 32
  let bitIndex := if v &&& 0x0000ffff ≠ 0 then bitIndex - 16 else bitIndex
  let bitIndex := if v &&& 0x00ff00ff ≠ 0 then bitIndex - 8 else bitIndex
  let bitIndex := if v &&& 0x0f0f0f0f ≠ 0 then bitIndex - 4 else bitIndex
  let bitIndex := if v &&& 0x33333333 ≠ 0 then bitIndex - 2 else bitIndex
  if v &&& 0x55555555 ≠ 0 then bitIndex - 1 else bitIndex

/-- The loop that takes the lowest bit of a word until there is none, with a bound on its steps. -/
def bitIndicesFrom : Nat → UInt32 → List Nat
  | 0, _ => []
  | steps + 1, bits =>
      if bits = 0 then []
      else
        let bit := countTrailingZeroes bits
        bit :: bitIndicesFrom steps (bits &&& ~~~ bitMask bit)

/-- The bits of a word, the lowest first. -/
def bitIndices (bits : UInt32) : List Nat := bitIndicesFrom 32 bits

/-- `Djb2Hash`, which `Djb2HashPath` is on a file system that tells case apart. -/
def djb2Hash (str : CString) : UInt32 := djb2HashPath str

/-- `InputSpec`; an index of -1 is `none`. -/
structure InputSpec where
  configIndex : Nat
  variantIndex : Option Nat
  subVariantIndex : Option Nat
deriving DecidableEq

structure TargetSpec where
  configIndex : Nat
  variantIndex : Nat
  subVariantIndex : Nat
deriving DecidableEq

structure TargetSelectInput where
  configNameHashes : List UInt32
  variantNameHashes : List UInt32
  subVariantNameHashes : List UInt32
  inputNames : List CString
  defaultConfigIndex : Int32
  defaultVariantIndex : Int32
  defaultSubVariantIndex : Int32

def findHash (hashes : List UInt32) (hash : UInt32) : Option Nat := hashes.findIdx? (· = hash)

/-- `strchr` for the dash, from an offset on. -/
def findDash (s : CString) (offset : Nat) : Option Nat := ((s.bytes.drop offset).findIdx? (· = 45)).map (offset + ·)

/-- The lookup of a part that may be missing. -/
def findPart (hashes : List UInt32) : Option CString → Option (Option Nat)
  | none => some none
  | some part => (findHash hashes (djb2Hash part)).map some

/-- `DestructureInputSpec`: a configuration has one dash in it, and what follows its second part is the variant. -/
def destructureInputSpec (input : TargetSelectInput) (name : CString) : Option InputSpec := do
  let buffer := name.slice 0 255
  let size := buffer.bytes.length
  let dash1 ← findDash buffer 0
  let dash2 := findDash buffer (dash1 + 1)
  let dash3 := dash2.bind fun dash => findDash buffer (dash + 1)
  let config := buffer.slice 0 (dash2.getD size)
  let variant := dash2.map fun dash => buffer.slice (dash + 1) (dash3.getD size - (dash + 1))
  let subVariant := dash3.map fun dash => buffer.slice (dash + 1) size
  let configIndex ← findHash input.configNameHashes (djb2Hash config)
  let variantIndex ← findPart input.variantNameHashes variant
  let subVariantIndex ← findPart input.subVariantNameHashes subVariant
  return ⟨configIndex, variantIndex, subVariantIndex⟩

/-- The input names sorted by kind. -/
structure Classified where
  specs : List InputSpec
  subVariantBits : UInt32
  variantBits : UInt32
  targetNames : List CString

/-- The body of the first loop of `SelectTargets`. -/
def classify (input : TargetSelectInput) (c : Classified) (name : CString) : Classified :=
  match findHash input.subVariantNameHashes (djb2Hash name) with
  | some index => { c with subVariantBits := c.subVariantBits ||| bitMask index }
  | none =>
      match findHash input.variantNameHashes (djb2Hash name) with
      | some index => { c with variantBits := c.variantBits ||| bitMask index }
      | none =>
          match destructureInputSpec input name with
          | some spec => { c with specs := c.specs ++ [spec] }
          | none => { c with targetNames := c.targetNames ++ [name] }

/-- The default bit, when there are no others. -/
def withDefault (bits : UInt32) (defaultIndex : Int32) : UInt32 :=
  if bits = 0 ∧ 0 ≤ defaultIndex then bits ||| bitMask defaultIndex.toInt.toNat else bits

/-- The bits of a spec: its own one, or those of the command line. -/
def specBits (index : Option Nat) (bits : UInt32) : UInt32 :=
  match index with
  | some index => bitMask index
  | none => bits

/-- A target is put out once. -/
def appendSpec (output : List TargetSpec) (spec : TargetSpec) :
    List TargetSpec := if spec ∈ output then output else output ++ [spec]

/-- The targets of a configuration, as the last loop of `SelectTargets` enumerates them. -/
def expandSpec (variantBits subVariantBits : UInt32) (output : List TargetSpec) (spec : InputSpec) : List TargetSpec :=
  (bitIndices (specBits spec.variantIndex variantBits)).foldl
    (fun output variantIndex => (bitIndices (specBits spec.subVariantIndex subVariantBits)).foldl
      (fun output subVariantIndex => appendSpec output ⟨spec.configIndex, variantIndex, subVariantIndex⟩) output)
    output

/-- `SelectTargets`: the targets and the names that are left, or nothing if the program ends because there are
too many configurations. -/
def selectTargets (input : TargetSelectInput) : Option (List TargetSpec × List CString) :=
  if 32 < input.configNameHashes.length ∨ 32 < input.variantNameHashes.length ∨
    32 < input.subVariantNameHashes.length then none
  else
    let c := input.inputNames.foldl (classify input) ⟨[], 0, 0, []⟩
    let specs := if c.specs = [] ∧
      0 ≤ input.defaultConfigIndex then [⟨input.defaultConfigIndex.toInt.toNat, none, none⟩] else c.specs
    let subVariantBits := withDefault c.subVariantBits input.defaultSubVariantIndex
    let variantBits := withDefault c.variantBits input.defaultVariantIndex
    some (specs.foldl (expandSpec variantBits subVariantBits) [], c.targetNames)

/-! ### The bits of a word -/

/-- A number and its negative have only the lowest bit of the number in common. -/
theorem getLsbD_and_neg {v : BitVec 32} {k : Nat} (hk : k < 32) (hset : v.getLsbD k = true)
    (hlow : ∀ j < k, v.getLsbD j = false) :
    v &&& -v = BitVec.twoPow 32 k := by
  apply BitVec.eq_of_getLsbD_eq
  intro i hi
  rw [BitVec.getLsbD_and, BitVec.getLsbD_neg, BitVec.getLsbD_twoPow]
  have hbelow : (∃ j < i, v.getLsbD j = true) ↔ k < i := by
    constructor
    · rintro ⟨j, hj, hbit⟩
      by_contra hik
      rw [hlow j (by omega)] at hbit
      cases hbit
    · intro hki
      exact ⟨k, hki, hset⟩
  rcases lt_trichotomy i k with hik | rfl | hki
  · simp [hlow i hik, hik.ne']
  · simp [hset, hi, hbelow]
  · simp [hi, hbelow, hki, hki.ne]

theorem countTrailingZeroes_bitMask : ∀ k : Fin 32, countTrailingZeroes (bitMask k) = k := by decide

theorem countTrailingZeroes_eq {v : UInt32} {k : Nat} (hk : k < 32) (hset : v.toBitVec.getLsbD k = true)
    (hlow : ∀ j < k, v.toBitVec.getLsbD j = false) : countTrailingZeroes v = k := by
  have hand : ∀ {w : UInt32}, w.toBitVec.getLsbD k = true → (∀ j < k, w.toBitVec.getLsbD j = false) →
    w &&& -w = bitMask k := by
    intro w hset hlow
    rw [← UInt32.toBitVec_inj, UInt32.toBitVec_and, UInt32.toBitVec_neg, toBitVec_bitMask hk]
    exact getLsbD_and_neg hk hset hlow
  have hmask : bitMask k &&& -bitMask k = bitMask k := by
    refine hand ?_ ?_
    · simp [toBitVec_bitMask hk, hk]
    · intro j hj
      simp [toBitVec_bitMask hk, hj.ne']
  have hboth : countTrailingZeroes v = countTrailingZeroes (bitMask k) := by
    simp only [countTrailingZeroes]
    rw [hand hset hlow, hmask]
  rw [hboth]
  exact countTrailingZeroes_bitMask ⟨k, hk⟩

theorem getLsbD_countTrailingZeroes {v : UInt32} (hv : v ≠ 0) :
    countTrailingZeroes v < 32 ∧ v.toBitVec.getLsbD (countTrailingZeroes v) = true ∧
    ∀ j < countTrailingZeroes v, v.toBitVec.getLsbD j = false := by
  have hexists : ∃ k, v.toBitVec.getLsbD k = true := by
    by_contra hnone
    refine hv (UInt32.toBitVec_inj.mp (BitVec.eq_of_getLsbD_eq fun i _ => ?_))
    rw [Bool.eq_false_iff.mpr fun hbit => hnone ⟨i, hbit⟩]
    simp
  have hset := Nat.find_spec hexists
  have hk : Nat.find hexists < 32 := BitVec.lt_of_getLsbD hset
  have hlow : ∀ j < Nat.find hexists, v.toBitVec.getLsbD j = false :=
    fun j hj => Bool.eq_false_iff.mpr (Nat.find_min hexists hj)
  rw [countTrailingZeroes_eq hk hset hlow]
  exact ⟨hk, hset, hlow⟩

theorem getLsbD_and_not_bitMask {k l : Nat} (hk : k < 32) (v : UInt32) :
    (v &&& ~~~ bitMask k).toBitVec.getLsbD l = (v.toBitVec.getLsbD l && !decide (l = k)) := by
  rw [UInt32.toBitVec_and, UInt32.toBitVec_not, toBitVec_bitMask hk, BitVec.getLsbD_and, BitVec.getLsbD_not,
    BitVec.getLsbD_twoPow]
  by_cases hl : l < 32
  · simp [hk, hl, eq_comm]
  · simp [BitVec.getLsbD_of_ge _ l (not_lt.mp hl)]

theorem of_mem_bitIndicesFrom {steps : Nat} {bits : UInt32} {k : Nat} (h : k ∈ bitIndicesFrom steps bits) :
    bits.toBitVec.getLsbD k = true := by
  induction steps generalizing bits with
  | zero => cases h
  | succ steps ih =>
      rw [bitIndicesFrom] at h
      split at h
      · cases h
      · next hbits =>
        obtain ⟨hlt, hset, -⟩ := getLsbD_countTrailingZeroes hbits
        rcases List.mem_cons.mp h with rfl | h
        · exact hset
        · have hrest := ih h
          rw [getLsbD_and_not_bitMask hlt, Bool.and_eq_true] at hrest
          exact hrest.1

/-- A loop with enough steps gives every bit of a word whose low bits are clear. -/
theorem mem_bitIndicesFrom (low : Nat) {steps : Nat} {bits : UInt32} {k : Nat}
    (hlow : ∀ j < low, bits.toBitVec.getLsbD j = false) (hsteps : 32 ≤ low + steps)
    (hset : bits.toBitVec.getLsbD k = true) : k ∈ bitIndicesFrom steps bits := by
  induction steps generalizing low bits with
  | zero =>
      have hk : k < 32 := BitVec.lt_of_getLsbD hset
      rw [hlow k (by omega)] at hset
      cases hset
  | succ steps ih =>
      have hbits : bits ≠ 0 := by
        rintro rfl
        simp at hset
      obtain ⟨hlt, hbit, hbelow⟩ := getLsbD_countTrailingZeroes hbits
      rw [bitIndicesFrom, if_neg hbits, List.mem_cons]
      rcases eq_or_ne k (countTrailingZeroes bits) with hk | hk
      · exact .inl hk
      · -- the loop goes on above the bit it found, which is not below the low bits
        have hfound : low ≤ countTrailingZeroes bits := by
          by_contra hlt
          rw [hlow _ (not_le.mp hlt)] at hbit
          cases hbit
        refine .inr (ih (countTrailingZeroes bits + 1) ?_ (by omega) ?_)
        · intro j hj
          rw [getLsbD_and_not_bitMask hlt]
          rcases Nat.lt_succ_iff_lt_or_eq.mp hj with hj | rfl
          · rw [hbelow j hj, Bool.false_and]
          · simp
        · rw [getLsbD_and_not_bitMask hlt, hset, decide_eq_false hk]
          rfl

theorem pairwise_bitIndicesFrom (steps : Nat) (bits : UInt32) : (bitIndicesFrom steps bits).Pairwise (· < ·) := by
  induction steps generalizing bits with
  | zero => exact .nil
  | succ steps ih =>
      rw [bitIndicesFrom]
      split
      · exact .nil
      · next hbits =>
        obtain ⟨hlt, -, hbelow⟩ := getLsbD_countTrailingZeroes hbits
        refine .cons (fun k hk => ?_) (ih _)
        have hset := of_mem_bitIndicesFrom hk
        rw [getLsbD_and_not_bitMask hlt, Bool.and_eq_true, Bool.not_eq_true', decide_eq_false_iff_not] at hset
        by_contra hle
        rw [hbelow k (by omega)] at hset
        exact absurd hset.1 Bool.false_ne_true

@[simp] theorem mem_bitIndices {bits : UInt32} {k : Nat} : k ∈ bitIndices bits ↔ bits.toBitVec.getLsbD k = true :=
  ⟨of_mem_bitIndicesFrom, mem_bitIndicesFrom 0 (fun _ hj => absurd hj (Nat.not_lt_zero _)) le_rfl⟩

theorem pairwise_bitIndices (bits : UInt32) : (bitIndices bits).Pairwise (· < ·) := pairwise_bitIndicesFrom 32 bits

end Tundra
