import Mathlib.Data.List.Basic
import Mathlib.Data.List.Infix
import Mathlib.Data.List.Forall2
import Mathlib.Algebra.Ring.Nat
import Mathlib.Tactic.Ring

/-!
# Byte images

Little-endian numbers in a fixed number of bytes, and images as lists of bytes. `At image p bs` says that the
bytes `bs` stand in the image at position `p`; it is kept when the image is extended on either side and when
other positions are overwritten, and a read of as many bytes returns them. A decoder that reads element after
element succeeds exactly when each read does.
-/

namespace Bytes

/-- The `k` little-endian bytes of a number. -/
def toLE : Nat → Nat → List UInt8
  | 0, _ => []
  | k + 1, n => UInt8.ofNat n :: toLE k (n / 256)

/-- The number behind little-endian bytes. -/
def ofLE : List UInt8 → Nat
  | [] => 0
  | b :: bs => b.toNat + 256 * ofLE bs

@[simp] theorem length_toLE (k n : Nat) : (toLE k n).length = k := by
  induction k generalizing n with
  | zero => rfl
  | succ k ih => rw [toLE, List.length_cons, ih]

theorem ofLE_toLE (k n : Nat) : ofLE (toLE k n) = n % 256 ^ k := by
  induction k generalizing n with
  | zero => simp [toLE, ofLE, Nat.mod_one]
  | succ k ih =>
      have hbyte : (UInt8.ofNat n).toNat = n % 256 := UInt8.toNat_ofNat'
      rw [toLE, ofLE, ih, hbyte, pow_succ', Nat.mod_mul]

theorem ofLE_toLE_of_lt {k n : Nat} (h : n < 256 ^ k) : ofLE (toLE k n) = n := by rw [ofLE_toLE, Nat.mod_eq_of_lt h]

theorem ofLE_lt (bs : List UInt8) : ofLE bs < 256 ^ bs.length := by
  induction bs with
  | nil => exact Nat.one_pos
  | cons b bs ih =>
      have hb := b.toNat_lt
      rw [ofLE, List.length_cons, pow_succ']
      omega

theorem toLE_ofLE (bs : List UInt8) : toLE bs.length (ofLE bs) = bs := by
  induction bs with
  | nil => rfl
  | cons b bs ih =>
      have hb := b.toNat_lt
      have hbyte : UInt8.ofNat (b.toNat + 256 * ofLE bs) = b := by
        apply UInt8.toNat.inj
        rw [UInt8.toNat_ofNat']
        omega
      have hrest : (b.toNat + 256 * ofLE bs) / 256 = ofLE bs := by omega
      rw [List.length_cons, ofLE, toLE, hbyte, hrest, ih]

theorem ofLE_inj {bs cs : List UInt8} (hlength : bs.length = cs.length) (h : ofLE bs = ofLE cs) : bs = cs := by
  rw [← toLE_ofLE bs, ← toLE_ofLE cs, hlength, h]

/-- The bytes `bs` stand in the image at position `p`. -/
def At (image : List UInt8) (p : Nat) (bs : List UInt8) : Prop := bs <+: image.drop p

variable {image rest pre bs cs : List UInt8} {p q n : Nat}

theorem At.nil : At image p [] := List.nil_prefix

theorem At.self : At bs 0 bs := List.prefix_refl bs

theorem At.length_le (h : At image p bs) (hne : bs ≠ []) : p + bs.length ≤ image.length := by
  have hle := List.IsPrefix.length_le h
  rw [List.length_drop] at hle
  have := List.length_pos_iff.mpr hne
  omega

theorem At.append (h : At image p bs) (rest : List UInt8) : At (image ++ rest) p bs := by
  rw [At, List.drop_append]
  exact h.trans (List.prefix_append _ _)

theorem At.shift (pre : List UInt8) (h : At image p bs) : At (pre ++ image) (pre.length + p) bs := by
  rwa [At, List.drop_length_add_append]

/-- What stands at the end of the image so far. -/
theorem at_length_append (image bs : List UInt8) : At (image ++ bs) image.length bs := by
  have hself : At bs 0 bs := .self
  simpa using hself.shift image

theorem at_append_iff : At image p (bs ++ cs) ↔ At image p bs ∧ At image (p + bs.length) cs := by
  constructor
  · rintro ⟨tail, htail⟩
    refine ⟨⟨cs ++ tail, by rw [← htail, List.append_assoc]⟩, tail, ?_⟩
    rw [← List.drop_drop, ← htail, List.append_assoc, List.drop_left]
  · rintro ⟨⟨tail, htail⟩, ⟨tail', htail'⟩⟩
    refine ⟨tail', ?_⟩
    rw [← List.drop_drop, ← htail, List.drop_left] at htail'
    rw [← htail, ← htail', List.append_assoc]

/-- Bytes that already stand in a beginning of the image. -/
theorem At.of_append (h : At (image ++ rest) p bs) (hle : p + bs.length ≤ image.length) : At image p bs := by
  rw [At, List.drop_append_of_le_length (by omega)] at h
  exact List.prefix_of_prefix_length_le h (List.prefix_append _ _) (by rw [List.length_drop]; omega)

/-- The `n` bytes at position `p`, if the image has them. -/
def read (image : List UInt8) (p n : Nat) : Option (List UInt8) :=
  if p + n ≤ image.length then some ((image.drop p).take n) else none

theorem At.read (h : At image p bs) (hne : bs ≠ []) : read image p bs.length = some bs := by
  rw [Bytes.read, if_pos (h.length_le hne), ← List.prefix_iff_eq_take.mp h]

/-- The bytes at position `p` up to the first zero, if there is one. -/
def readString (image : List UInt8) (p : Nat) : Option (List UInt8) :=
  if (0 : UInt8) ∈ image.drop p then some ((image.drop p).takeWhile (· ≠ 0)) else none

theorem At.readString (h : At image p (bs ++ [0])) (hzero : (0 : UInt8) ∉ bs) : readString image p = some bs := by
  obtain ⟨tail, htail⟩ := h
  rw [Bytes.readString, ← htail, if_pos (by simp)]
  have hall : ∀ b ∈ bs, decide (b ≠ 0) = true := by
    intro b hb
    simp only [ne_eq, decide_not, Bool.not_eq_true', decide_eq_false_iff_not]
    rintro rfl
    exact hzero hb
  rw [List.append_assoc, List.takeWhile_append_of_pos hall]
  simp

/-- Put `bs` in place of the bytes at position `p`. -/
def overwrite (image : List UInt8) (p : Nat) (bs : List UInt8) : List UInt8 :=
  image.take p ++ bs ++ image.drop (p + bs.length)

theorem length_overwrite (h : p + bs.length ≤ image.length) : (overwrite image p bs).length = image.length := by
  simp only [overwrite, List.length_append, List.length_take, List.length_drop]
  omega

theorem at_overwrite (h : p + bs.length ≤ image.length) : At (overwrite image p bs) p bs := by
  have hat := at_length_append (image.take p) bs
  rw [List.length_take, min_eq_left (by omega)] at hat
  exact hat.append _

theorem At.overwrite (hat : At image q cs) (h : p + bs.length ≤ image.length)
    (hapart : q + cs.length ≤ p ∨ p + bs.length ≤ q) :
    At (overwrite image p bs) q cs := by
  rcases hapart with hbefore | hafter
  · have htake : At (image.take p) q cs := by
      rw [← List.take_append_drop p image] at hat
      exact hat.of_append (by rw [List.length_take, min_eq_left (by omega)]; exact hbefore)
    rw [Bytes.overwrite, List.append_assoc]
    exact htake.append _
  · have hdrop : At (image.drop (p + bs.length)) (q - (p + bs.length)) cs := by
      rwa [At, List.drop_drop, show p + bs.length + (q - (p + bs.length)) = q by omega]
    have hshift := hdrop.shift (image.take p ++ bs)
    rwa [List.length_append, List.length_take, min_eq_left (by omega),
      show p + bs.length + (q - (p + bs.length)) = q by omega] at hshift

/-- What stands in one of several parts stands in the whole. -/
theorem at_flatten {parts : List (List UInt8)} {k : Nat} {part : List UInt8} (hk : parts[k]? = some part)
    (hat : At part p bs) :
    At parts.flatten (((parts.take k).map List.length).sum + p) bs := by
  induction parts generalizing k with
  | nil => simp at hk
  | cons first parts ih =>
      cases k with
      | zero =>
          simp only [List.getElem?_cons_zero, Option.some.injEq] at hk
          subst hk
          simpa using hat.append parts.flatten
      | succ k =>
          have hrest := (ih (by simpa using hk)).shift first
          simpa [Nat.add_assoc] using hrest

/-- A partial function succeeds on a whole list exactly when it does on every element. -/
theorem mapM_eq_some_iff {α β : Type} {f : α → Option β} {xs : List α} {ys : List β} :
    xs.mapM f = some ys ↔ List.Forall₂ (fun x y => f x = some y) xs ys := by
  induction xs generalizing ys with
  | nil => simp [eq_comm]
  | cons x xs ih =>
      rw [List.mapM_cons]
      simp only [Option.bind_eq_bind, Option.bind_eq_some_iff, Option.pure_def, Option.some.injEq,
        List.forall₂_cons_left_iff]
      constructor
      · rintro ⟨y, hy, rest, hrest, rfl⟩
        exact ⟨y, rest, hy, ih.mp hrest, rfl⟩
      · rintro ⟨y, rest, hy, hrest, rfl⟩
        exact ⟨y, hy, rest, ih.mpr hrest, rfl⟩

theorem mem_of_mapM_eq_some {α β : Type} {f : α → Option β} {xs : List α} {ys : List β} (h : xs.mapM f = some ys)
    {y : β} :
    y ∈ ys ↔ ∃ x ∈ xs, f x = some y := by
  rw [mapM_eq_some_iff] at h
  induction h with
  | nil => simp
  | cons hxy _ ih =>
      simp only [List.mem_cons, exists_eq_or_imp, ih, hxy, Option.some.injEq]
      rw [eq_comm]

/-- A partial function fails on a list if it does on an element. -/
theorem mapM_eq_none_iff {α β : Type} {f : α → Option β} {xs : List α} : xs.mapM f = none ↔ ∃ x ∈ xs, f x = none := by
  induction xs with
  | nil => simp
  | cons x xs ih =>
      rw [List.mapM_cons]
      simp only [Option.bind_eq_bind, List.mem_cons, exists_eq_or_imp, ← ih]
      cases f x <;> cases xs.mapM f <;> simp

theorem mapM_congr {α β : Type} {f g : α → Option β} {xs : List α} (h : ∀ x ∈ xs, f x = g x) :
    xs.mapM f = xs.mapM g := by
  induction xs with
  | nil => rfl
  | cons x xs ih =>
      rw [List.mapM_cons, List.mapM_cons, h x List.mem_cons_self, ih fun y hy => h y (List.mem_cons_of_mem _ hy)]

theorem mapM_range_eq_some {β : Type} {f : Nat → Option β} {ys : List β} {n : Nat} (hn : ys.length = n)
    (h : ∀ k (hk : k < ys.length), f k = some ys[k]) : (List.range n).mapM f = some ys := by
  subst hn
  rw [mapM_eq_some_iff, List.forall₂_iff_get]
  refine ⟨List.length_range, fun k hk hk' => ?_⟩
  simpa using h k hk'

end Bytes
