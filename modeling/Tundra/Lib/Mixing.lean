import Mathlib.Data.List.Basic
import Mathlib.Data.List.Nodup
import Mathlib.Logic.Function.Basic

/-!
# Mixing without loss

The steps of which fast hashes are made lose nothing: multiplication by a word with an inverse, rotation, and
the xor of a word with itself shifted to the right. A hash that takes in its input word by word, each time
without loss in the state and in the word, is changed by every change of a single word.
-/

namespace Mixing

section Word

variable {w : Nat}

theorem mul_injective {c inverse : BitVec w} (h : c * inverse = 1#w) :
    Function.Injective fun x : BitVec w => x * c := by
  intro x y hxy
  have hmul := congrArg (fun z => z * inverse) hxy
  simpa only [BitVec.mul_assoc, h, BitVec.mul_one] using hmul

theorem rotateLeft_injective (k : Nat) : Function.Injective fun x : BitVec w => x.rotateLeft k := by
  intro x y hxy
  apply BitVec.eq_of_getLsbD_eq
  intro i hi
  have hpos : 0 < w := Nat.zero_lt_of_lt hi
  have hk : k % w < w := Nat.mod_lt k hpos
  have hbit : ∀ p, (x.rotateLeft k).getLsbD p = (y.rotateLeft k).getLsbD p :=
    fun p => congrArg (fun z => z.getLsbD p) hxy
  -- the bit goes up by k, or round to the low end
  rcases Nat.lt_or_ge (i + k % w) w with hup | hround
  · have hp := hbit (i + k % w)
    rw [BitVec.getLsbD_rotateLeft, BitVec.getLsbD_rotateLeft] at hp
    simpa [Nat.not_lt.mpr (Nat.le_add_left (k % w) i), hup] using hp
  · have hp := hbit (i + k % w - w)
    rw [BitVec.getLsbD_rotateLeft, BitVec.getLsbD_rotateLeft] at hp
    have hlow : i + k % w - w < k % w := by omega
    have hsource : w - k % w + (i + k % w - w) = i := by omega
    simpa only [hlow, decide_true, cond_true, hsource] using hp

/-- From the highest bit down, each bit of the word is got back. -/
theorem xorShift_injective {k : Nat} (hk : 0 < k) : Function.Injective fun x : BitVec w => x ^^^ (x >>> k) := by
  intro x y hxy
  have hbit : ∀ p, ((x.getLsbD p).xor (x.getLsbD (k + p))) = (y.getLsbD p).xor (y.getLsbD (k + p)) := by
    intro p
    have hp := congrArg (fun z => z.getLsbD p) hxy
    simpa only [BitVec.getLsbD_xor, BitVec.getLsbD_ushiftRight] using hp
  have hall : ∀ d i, w ≤ i + d → x.getLsbD i = y.getLsbD i := by
    intro d
    induction d with
    | zero =>
        intro i hi
        rw [BitVec.getLsbD_of_ge x i hi, BitVec.getLsbD_of_ge y i hi]
    | succ d ih =>
        intro i hi
        have hi' := hbit i
        rw [ih (k + i) (by omega)] at hi'
        exact Bool.xor_left_inj.mp hi'
  apply BitVec.eq_of_getLsbD_eq
  intro i _
  exact hall w i (Nat.le_add_left w i)

end Word

section Fold

variable {σ α ι : Type} {step : σ → α → σ}

theorem foldl_injective (hstate : ∀ a, Function.Injective fun s => step s a) (l : List α) :
    Function.Injective fun s => l.foldl step s := by
  induction l with
  | nil => exact Function.injective_id
  | cons a l ih => exact ih.comp (hstate a)

theorem foldl_map_ne (hstate : ∀ a, Function.Injective fun s => step s a)
    (hinput : ∀ s, Function.Injective (step s)) {l : List ι} (hl : l.Nodup) {f g : ι → α} {i : ι} (hi : i ∈ l)
    (hne : f i ≠ g i) (hothers : ∀ j ∈ l, j ≠ i → f j = g j) (s : σ) :
    (l.map f).foldl step s ≠ (l.map g).foldl step s := by
  obtain ⟨before, after, rfl⟩ := List.append_of_mem hi
  have hbefore : before.map f = before.map g := by
    apply List.map_congr_left
    intro j hj
    apply hothers j (List.mem_append_left _ hj)
    rintro rfl
    exact (List.nodup_append.mp hl).2.2 j hj j List.mem_cons_self rfl
  have hafter : after.map f = after.map g := by
    apply List.map_congr_left
    intro j hj
    apply hothers j (List.mem_append_right _ (List.mem_cons_of_mem _ hj))
    rintro rfl
    exact (List.nodup_cons.mp (List.nodup_append.mp hl).2.1).1 hj
  rw [List.map_append, List.map_append, List.map_cons, List.map_cons, List.foldl_append, List.foldl_append,
    List.foldl_cons, List.foldl_cons, hbefore,
    hafter]
  intro heq
  exact hne (hinput _ (foldl_injective hstate _ heq))

end Fold

end Mixing
