import Mathlib.Data.List.TakeWhile
import Mathlib.Data.Nat.Bitwise
import Mathlib.Data.Nat.Size
import Mathlib.Order.Defs.LinearOrder
import Mathlib.Order.Basic
import Mathlib.Tactic.Ring

/-!
# Common

The helpers of `Common.cpp` and `Hash.hpp` the rest of the model uses: NUL-terminated strings, the 128-bit
digest of the fast hash, and `NextPowerOfTwo`.
-/

namespace Tundra

/-- The bytes of a NUL-terminated string, without the terminator. -/
structure CString where
  bytes : List UInt8
  noNul : (0 : UInt8) ∉ bytes
deriving DecidableEq

namespace CString

theorem noNul_nil : (0 : UInt8) ∉ ([] : List UInt8) := List.not_mem_nil

def empty : CString := ⟨[], noNul_nil⟩

/-- The string that begins with these bytes and ends before the first zero byte. -/
def ofBytes (bytes : List UInt8) :
    CString := ⟨bytes.takeWhile (· ≠ 0), fun h => by simpa using List.mem_takeWhile_imp h⟩

def lit (s : String) : CString := ⟨s.toByteArray.data.toList.filter (· ≠ 0), by simp⟩

theorem lit_inj_of_noNul {s t : String} (hs : (0 : UInt8) ∉ s.toByteArray.data.toList)
    (ht : (0 : UInt8) ∉ t.toByteArray.data.toList) :
    lit s = lit t ↔ s = t := by
  refine ⟨fun h => ?_, fun h => h ▸ rfl⟩
  have hbytes := congrArg CString.bytes h
  have hfilter : ∀ l : List UInt8, (0 : UInt8) ∉ l → l.filter (· ≠ 0) = l := by
    intro l hl
    rw [List.filter_eq_self]
    intro b hb
    rw [decide_eq_true_eq]
    rintro rfl
    exact hl hb
  simp only [lit] at hbytes
  rw [hfilter _ hs, hfilter _ ht] at hbytes
  exact String.toByteArray_inj.mp (ByteArray.ext (Array.toList_inj.mp hbytes))

instance : Append CString := ⟨fun l r => ⟨l.bytes ++ r.bytes, fun h => (List.mem_append.mp h).elim l.noNul r.noNul⟩⟩

@[simp] theorem bytes_append (l r : CString) : (l ++ r).bytes = l.bytes ++ r.bytes := rfl

theorem ext_bytes {s t : CString} (h : s.bytes = t.bytes) : s = t := by
  cases s
  cases t
  simp only at h
  subst h
  rfl

/-- The piece of a string from an offset on, of this length. -/
def slice (s : CString) (offset len : Nat) : CString :=
  ⟨(s.bytes.drop offset).take len, fun h => s.noNul (List.mem_of_mem_drop (List.mem_of_mem_take h))⟩

end CString

def lit (s : String) : List UInt8 := (CString.lit s).bytes

/-- `isspace` in the C locale. -/
def isSpace (c : UInt8) : Bool := c = 32 || (9 ≤ c && c ≤ 13)

/-- A string of one letter. -/
def CString.run : CString := ⟨[114], by decide⟩

/-- `Djb2HashPath` on a file system that tells case apart, which is `Djb2Hash`. -/
def djb2HashPath (str : CString) : UInt32 :=
  let hash := str.bytes.foldl (fun hash c => hash * 33 + c.toUInt32) 5381
  if hash = 0 then 1 else hash

theorem djb2HashPath_ne_zero (str : CString) : djb2HashPath str ≠ 0 := by
  simp only [djb2HashPath]
  split_ifs with hzero
  · decide
  · exact hzero

/-- `HashDigest` under `USE_FAST_HASH`: the two words of `m_Words64`. -/
structure HashDigest where
  word0 : UInt64
  word1 : UInt64
deriving DecidableEq

def compareHashDigests (lhs rhs : HashDigest) : Int :=
  let res0 : Int := (if lhs.word0 > rhs.word0 then 1 else 0) - (if lhs.word0 < rhs.word0 then 1 else 0)
  let res1 : Int := (if lhs.word1 > rhs.word1 then 1 else 0) - (if lhs.word1 < rhs.word1 then 1 else 0)
  if res0 ≠ 0 then res0 else res1

/-- The digest as one number, the first word in front. -/
def HashDigest.toNat (d : HashDigest) : Nat := d.word0.toNat * 2 ^ 64 + d.word1.toNat

theorem HashDigest.toNat_injective : Function.Injective HashDigest.toNat := by
  intro l r h
  have hl := l.word1.toNat_lt
  have hr := r.word1.toNat_lt
  simp only [HashDigest.toNat] at h
  have h0 : l.word0 = r.word0 := UInt64.toNat_inj.mp (by omega)
  have h1 : l.word1 = r.word1 := UInt64.toNat_inj.mp (by omega)
  cases l
  cases r
  simp_all

/-- The order of `CompareHashDigests`. -/
instance : LinearOrder HashDigest := LinearOrder.lift' HashDigest.toNat HashDigest.toNat_injective

theorem HashDigest.lt_iff {l r : HashDigest} : l < r ↔ l.toNat < r.toNat := Iff.rfl

theorem compareHashDigests_lt (l r : HashDigest) : compareHashDigests l r < 0 ↔ l < r := by
  have hl := l.word1.toNat_lt
  have hr := r.word1.toNat_lt
  simp only [compareHashDigests, HashDigest.lt_iff, HashDigest.toNat, gt_iff_lt, UInt64.lt_iff_toNat_lt]
  split_ifs <;> omega

theorem compareHashDigests_eq (l r : HashDigest) : compareHashDigests l r = 0 ↔ l = r := by
  have hl := l.word1.toNat_lt
  have hr := r.word1.toNat_lt
  rw [← HashDigest.toNat_injective.eq_iff]
  simp only [compareHashDigests, HashDigest.toNat, gt_iff_lt, UInt64.lt_iff_toNat_lt]
  split_ifs <;> omega

def nextPowerOfTwo (val : Nat) : Nat :=
  let mask := (val + 2 ^ 32 - 1) % 2 ^ 32
  let mask := mask ||| mask >>> 16
  let mask := mask ||| mask >>> 8
  let mask := mask ||| mask >>> 4
  let mask := mask ||| mask >>> 2
  let mask := mask ||| mask >>> 1
  (mask + 1) % 2 ^ 32

/-- One smearing step doubles the number of bits looked at and halves their distance. -/
private theorem testBit_smear {m : Nat} {p : Nat → Bool} {c d : Nat}
    (hm : ∀ j, m.testBit j = true ↔ ∃ k < c, p (j + 2 * d * k) = true) (j : Nat) :
    (m ||| m >>> d).testBit j = true ↔ ∃ k < 2 * c, p (j + d * k) = true := by
  rw [Nat.testBit_or, Nat.testBit_shiftRight, Bool.or_eq_true, hm, hm]
  constructor
  · rintro (⟨k, hk, hbit⟩ | ⟨k, hk, hbit⟩)
    · exact ⟨2 * k, by omega, by rwa [show j + d * (2 * k) = j + 2 * d * k by ring]⟩
    · exact ⟨2 * k + 1, by omega, by rwa [show j + d * (2 * k + 1) = d + j + 2 * d * k by ring]⟩
  · rintro ⟨k, hk, hbit⟩
    obtain ⟨h, rfl | rfl⟩ := Nat.even_or_odd' k
    · exact .inl ⟨h, by omega, by rwa [show j + 2 * d * h = j + d * (2 * h) by ring]⟩
    · exact .inr ⟨h, by omega, by rwa [show d + j + 2 * d * h = j + d * (2 * h + 1) by ring]⟩

private theorem smear_eq {m m' : Nat} (hm : m < 2 ^ 31)
    (hbits : ∀ j, m'.testBit j = true ↔ ∃ k < 32, m.testBit (j + 1 * k) = true) : m' = 2 ^ m.size - 1 := by
  apply Nat.eq_of_testBit_eq
  intro j
  rw [Nat.testBit_two_pow_sub_one, Bool.eq_iff_iff, hbits, decide_eq_true_eq]
  constructor
  · rintro ⟨k, _, hbit⟩
    have hge := Nat.ge_two_pow_of_testBit hbit
    by_contra hsize
    have hlt : m < 2 ^ (j + 1 * k) := lt_of_lt_of_le (Nat.lt_size_self m) (Nat.pow_le_pow_right (by decide) (by omega))
    omega
  · intro hlt
    have hsize : m.size ≤ 31 := Nat.size_le.mpr hm
    refine ⟨m.size - 1 - j, by omega, ?_⟩
    rw [show j + 1 * (m.size - 1 - j) = m.size - 1 by omega]
    by_contra hbit
    have hpow : m < 2 ^ (m.size - 1) := by
      apply Nat.lt_pow_two_of_testBit
      intro i hi
      rcases Nat.lt_or_ge (m.size - 1) i with hgt | hle
      · exact Nat.testBit_lt_two_pow (lt_of_lt_of_le (Nat.lt_size_self m) (Nat.pow_le_pow_right (by decide) (by omega)))
      · rw [show i = m.size - 1 by omega]
        simpa only [Bool.not_eq_true] using hbit
    have := Nat.size_le.mpr hpow
    omega

/-- In the range the queue uses it, `NextPowerOfTwo` returns a power of two that is not below its argument. -/
theorem nextPowerOfTwo_spec {val : Nat} (hpos : 0 < val) (hle : val ≤ 2 ^ 31) :
    ∃ k ≤ 31, nextPowerOfTwo val = 2 ^ k ∧ val ≤ 2 ^ k := by
  have hmask : (val + 2 ^ 32 - 1) % 2 ^ 32 = val - 1 := by omega
  have hm : val - 1 < 2 ^ 31 := by omega
  have h0 : ∀ j, (val - 1).testBit j = true ↔ ∃ k < 1, (val - 1).testBit (j + 2 * 16 * k) = true := by
    intro j
    simp only [Nat.lt_one_iff, exists_eq_left, mul_zero, add_zero]
  have h1 := testBit_smear (d := 16) h0
  have h2 := testBit_smear (d := 8) h1
  have h3 := testBit_smear (d := 4) h2
  have h4 := testBit_smear (d := 2) h3
  have h5 := testBit_smear (d := 1) h4
  have hsmear := smear_eq hm h5
  have hsize : (val - 1).size ≤ 31 := Nat.size_le.mpr hm
  have hpow : 2 ^ (val - 1).size ≤ 2 ^ 31 := Nat.pow_le_pow_right (by decide) hsize
  have hself := Nat.lt_size_self (val - 1)
  refine ⟨(val - 1).size, hsize, ?_, by omega⟩
  have hone := Nat.one_le_two_pow (n := (val - 1).size)
  simp only [nextPowerOfTwo, hmask]
  rw [hsmear]
  omega

end Tundra
