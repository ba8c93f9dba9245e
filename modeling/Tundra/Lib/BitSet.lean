import Tundra.Lib.Marking
import Mathlib.Data.Finset.Range

/-!
# Bit sets in words

Sets of numbers below a bound, one bit for each in an array of 32-bit words. They are marks in the sense of the
searches of `Marking`.
-/

def bitMask (k : Nat) : UInt32 := 1 <<< UInt32.ofNat k

theorem toBitVec_bitMask {k : Nat} (hk : k < 32) : (bitMask k).toBitVec = BitVec.twoPow 32 k := by
  have hall : ∀ k : Fin 32, (bitMask k).toBitVec = BitVec.twoPow 32 k := by decide
  exact hall ⟨k, hk⟩

theorem and_bitMask_ne_zero {k : Nat} (hk : k < 32) (word : UInt32) :
    word &&& bitMask k ≠ 0 ↔ word.toBitVec.getLsbD k = true := by
  rw [Ne, ← UInt32.toBitVec_inj, UInt32.toBitVec_and, toBitVec_bitMask hk, BitVec.and_twoPow]
  cases hbit : word.toBitVec.getLsbD k with
  | false => simp
  | true =>
      simp only [if_true, iff_true]
      intro hzero
      have hget := congrArg (fun v : BitVec 32 => v.getLsbD k) hzero
      simp [hk] at hget

theorem getLsbD_or_bitMask {k l : Nat} (hk : k < 32) (word : UInt32) :
    (word ||| bitMask k).toBitVec.getLsbD l = (word.toBitVec.getLsbD l || decide (l = k)) := by
  rw [UInt32.toBitVec_or, toBitVec_bitMask hk, BitVec.getLsbD_or, BitVec.getLsbD_twoPow]
  simp [hk, eq_comm]

/-- A set of numbers below `n`. -/
structure BitSet (n : Nat) where
  words : List UInt32
  length_words : words.length = (n + 31) / 32

namespace BitSet

variable {n : Nat} (s : BitSet n) {i j : Nat}

theorem length_zeros (n : Nat) :
    (List.replicate ((n + 31) / 32) (0 : UInt32)).length = (n + 31) / 32 := List.length_replicate

def empty (n : Nat) : BitSet n := ⟨List.replicate ((n + 31) / 32) 0, length_zeros n⟩

def test (i : Nat) : Bool := s.words.getD (i / 32) 0 &&& bitMask (i % 32) != 0

theorem length_modify_words (i : Nat) : (s.words.modify (i / 32) (· ||| bitMask (i % 32))).length = (n + 31) / 32 := by
  rw [List.length_modify, s.length_words]

def mark (i : Nat) : BitSet n := ⟨s.words.modify (i / 32) (· ||| bitMask (i % 32)), s.length_modify_words i⟩

theorem test_eq_true_iff : s.test i = true ↔ (s.words.getD (i / 32) 0).toBitVec.getLsbD (i % 32) = true := by
  rw [test, bne_iff_ne]
  exact and_bitMask_ne_zero (Nat.mod_lt i (by decide)) _

@[simp] theorem test_empty (n i : Nat) : (empty n).test i = false := by
  have hword : (empty n).words.getD (i / 32) 0 = 0 := by
    rw [empty, List.getD_eq_getElem?_getD, List.getElem?_replicate]
    split <;> rfl
  rw [test, hword]
  simp

theorem div_lt_length_words (hi : i < n) : i / 32 < s.words.length := by
  rw [s.length_words]
  omega

theorem test_mark (hi : i < n) : (s.mark i).test j = true ↔ j = i ∨ s.test j = true := by
  have hword := s.div_lt_length_words hi
  rw [test_eq_true_iff, test_eq_true_iff, mark, List.getD_eq_getElem?_getD, List.getElem?_modify,
    List.getD_eq_getElem?_getD]
  by_cases hdiv : i / 32 = j / 32
  · simp only [if_pos hdiv]
    rw [← hdiv, List.getElem?_eq_getElem hword]
    simp only [Option.map_eq_map, Option.map_some, Option.getD_some]
    rw [getLsbD_or_bitMask (Nat.mod_lt i (by decide)), Bool.or_eq_true, decide_eq_true_eq, or_comm]
    refine or_congr_left ⟨fun hmod => ?_, fun hji => by rw [hji]⟩
    rw [← Nat.div_add_mod j 32, ← Nat.div_add_mod i 32, hdiv, hmod]
  · simp only [if_neg hdiv, id_map']
    refine ⟨.inr, fun h => h.resolve_left fun hji => hdiv ?_⟩
    rw [hji]

def marks (n : Nat) : Marking.Marks (BitSet n) Nat := ⟨test, mark⟩

theorem marks_lawful (n : Nat) :
    (marks n).Lawful (Finset.range n) := ⟨fun s _ hi _ => s.test_mark (Finset.mem_range.mp hi)⟩

end BitSet
