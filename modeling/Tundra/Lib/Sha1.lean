import Tundra.Lib.Chunks
import Mathlib.Tactic.Ring

/-!
# SHA-1

The standard SHA-1 for messages of bits: the padding of a message, its blocks of 512 bits and words of 32 bits,
the schedule of eighty words and the eighty rounds of a block. The bits of bytes come the most significant
first.
-/

namespace Sha1

open Chunks

/-! ### The standard -/

/-- The bits of a number, the most significant first. -/
def numberBits (n value : Nat) : List Bool := (List.range n).map fun i => value.testBit (n - 1 - i)

def number (bits : List Bool) : Nat := bits.foldl (fun n bit => 2 * n + bit.toNat) 0

/-- How many zeroes are between the one bit and the length. -/
def zeroBits (length : Nat) : Nat := (959 - length % 512) % 512

def pad (message : List Bool) : List Bool :=
  message ++ [true] ++ List.replicate (zeroBits message.length) false ++ numberBits 64 message.length

def words (block : List Bool) : List UInt32 := (blocks 32 block).map fun bits => .ofNat (number bits)

/-- The rotation to the left. -/
def rotl (n x : UInt32) : UInt32 := (x <<< n) ||| (x >>> (32 - n))

/-- The words `W` of the schedule. -/
def schedule (M : List UInt32) (t : Nat) : UInt32 :=
  if t < 16 then M.getD t 0
  else rotl 1 (schedule M (t - 3) ^^^ schedule M (t - 8) ^^^ schedule M (t - 14) ^^^ schedule M (t - 16))

def f (t : Nat) (x y z : UInt32) : UInt32 :=
  if t < 20 then (x &&& y) ^^^ (~~~x &&& z)
  else if t < 40 then x ^^^ y ^^^ z
  else if t < 60 then (x &&& y) ^^^ (x &&& z) ^^^ (y &&& z)
  else x ^^^ y ^^^ z

def K (t : Nat) :
    UInt32 := if t < 20 then 0x5a827999 else if t < 40 then 0x6ed9eba1 else if t < 60 then 0x8f1bbcdc else 0xca62c1d6

/-- Five words: the working variables, or a hash value. -/
structure Words where
  a : UInt32
  b : UInt32
  c : UInt32
  d : UInt32
  e : UInt32
deriving DecidableEq

def round (W : Nat → UInt32) (v : Words) (t : Nat) : Words :=
  ⟨rotl 5 v.a + f t v.b v.c v.d + v.e + K t + W t, v.a, rotl 30 v.b, v.c, v.d⟩

def compress (H : Words) (block : List Bool) : Words :=
  let v := (List.range 80).foldl (round (schedule (words block))) H
  ⟨H.a + v.a, H.b + v.b, H.c + v.c, H.d + v.d, H.e + v.e⟩

def initial : Words := ⟨0x67452301, 0xefcdab89, 0x98badcfe, 0x10325476, 0xc3d2e1f0⟩

def Words.bits (H : Words) : List Bool :=
  numberBits 32 H.a.toNat ++ numberBits 32 H.b.toNat ++ numberBits 32 H.c.toNat ++ numberBits 32 H.d.toNat ++
    numberBits 32 H.e.toNat

/-- The digest of a message. -/
def hash (message : List Bool) : List Bool := ((blocks 512 (pad message)).foldl compress initial).bits

/-- The zeroes go up to 448 in a block, and there are no more of them than that takes. -/
theorem eq_zeroBits_iff (length k : Nat) : k = zeroBits length ↔ (length + 1 + k) % 512 = 448 ∧ k < 512 := by
  rw [zeroBits]
  omega

/-! ### The bits of bytes -/

def byteBits (bytes : List UInt8) : List Bool := bytes.flatMap fun byte => numberBits 8 byte.toNat

variable {bytes bytes' : List UInt8}

@[simp] theorem length_numberBits (n value : Nat) : (numberBits n value).length = n := by
  rw [numberBits, List.length_map, List.length_range]

@[simp] theorem byteBits_cons (byte : UInt8) (bytes : List UInt8) :
    byteBits (byte :: bytes) = numberBits 8 byte.toNat ++ byteBits bytes :=
  List.flatMap_cons

@[simp] theorem byteBits_append (bytes bytes' : List UInt8) :
    byteBits (bytes ++ bytes') = byteBits bytes ++ byteBits bytes' :=
  List.flatMap_append

@[simp] theorem length_byteBits (bytes : List UInt8) : (byteBits bytes).length = 8 * bytes.length := by
  induction bytes with
  | nil => rfl
  | cons byte bytes ih =>
      rw [byteBits_cons, List.length_append, length_numberBits, ih, List.length_cons]
      ring

theorem byteBits_replicate_zero (n : Nat) : byteBits (List.replicate n 0) = List.replicate (8 * n) false := by
  induction n with
  | zero => rfl
  | succ n ih =>
      rw [List.replicate_succ, byteBits_cons, ih, Nat.mul_succ, Nat.add_comm, List.replicate_add]
      rfl

theorem byteBits_drop (bytes : List UInt8) (k : Nat) : byteBits (bytes.drop k) = (byteBits bytes).drop (8 * k) := by
  rcases Nat.le_total k bytes.length with hk | hk
  · have hlength : (byteBits (bytes.take k)).length = 8 * k := by rw [length_byteBits, List.length_take_of_le hk]
    nth_rewrite 2 [← List.take_append_drop k bytes]
    rw [byteBits_append, ← hlength, List.drop_left]
  · have hall : (byteBits bytes).length ≤ 8 * k := by
      rw [length_byteBits]
      omega
    rw [List.drop_of_length_le hk, List.drop_of_length_le hall]
    rfl

theorem byteBits_take (bytes : List UInt8) (k : Nat) : byteBits (bytes.take k) = (byteBits bytes).take (8 * k) := by
  rcases Nat.le_total k bytes.length with hk | hk
  · have hlength : (byteBits (bytes.take k)).length = 8 * k := by rw [length_byteBits, List.length_take_of_le hk]
    nth_rewrite 2 [← List.take_append_drop k bytes]
    rw [byteBits_append, ← hlength, List.take_left]
  · have hall : (byteBits bytes).length ≤ 8 * k := by
      rw [length_byteBits]
      omega
    rw [List.take_of_length_le hk, List.take_of_length_le hall]

theorem blocks_byteBits (n : Nat) (bytes : List UInt8) :
    blocks (8 * n) (byteBits bytes) = (blocks n bytes).map byteBits := by
  rw [blocks, blocks, List.map_map, length_byteBits, Nat.mul_div_mul_left _ _ (by decide)]
  apply List.map_congr_left
  intro k _
  change _ = byteBits ((bytes.drop (n * k)).take n)
  rw [byteBits_take, byteBits_drop, Nat.mul_assoc]

/-! ### Numbers in bits -/

theorem foldl_number (bits : List Bool) (n : Nat) :
    bits.foldl (fun n bit => 2 * n + bit.toNat) n = n * 2 ^ bits.length + number bits := by
  induction bits generalizing n with
  | nil => simp [number]
  | cons bit bits ih =>
      rw [number, List.foldl_cons, List.foldl_cons, ih, ih (2 * 0 + bit.toNat), List.length_cons, pow_succ]
      ring

theorem number_append (bits bits' : List Bool) :
    number (bits ++ bits') = number bits * 2 ^ bits'.length + number bits' := by
  rw [number, List.foldl_append, foldl_number]
  rfl

theorem number_byte : ∀ byte : Fin 256, number (numberBits 8 byte.val) = byte.val := by
  decide +kernel

theorem number_byteBits_cons (byte : UInt8) (bytes : List UInt8) :
    number (byteBits (byte :: bytes)) = byte.toNat * 256 ^ bytes.length + number (byteBits bytes) := by
  have hbyte : number (numberBits 8 byte.toNat) = byte.toNat := number_byte ⟨byte.toNat, byte.toNat_lt⟩
  rw [byteBits_cons, number_append, hbyte, length_byteBits, pow_mul]
  rfl

theorem numberBits_add (n m value : Nat) :
    numberBits (n + m) value = numberBits n (value / 2 ^ m) ++ numberBits m value := by
  rw [numberBits, List.range_add, List.map_append, List.map_map]
  congr 1
  · apply List.map_congr_left
    intro i hi
    have hlt := List.mem_range.mp hi
    have hplace : n + m - 1 - i = m + (n - 1 - i) := by omega
    rw [hplace, Nat.testBit_div_two_pow, Nat.add_comm]
  · apply List.map_congr_left
    intro i hi
    have hplace : n + m - 1 - (n + i) = m - 1 - i := by omega
    exact congrArg value.testBit hplace

theorem numberBits_mod (n value : Nat) : numberBits n (value % 2 ^ n) = numberBits n value := by
  apply List.map_congr_left
  intro i hi
  have hlt := List.mem_range.mp hi
  have hplace : n - 1 - i < n := by omega
  rw [Nat.testBit_mod_two_pow, decide_eq_true hplace, Bool.true_and]

end Sha1
