import Mathlib.Data.List.Nodup
import Mathlib.Data.List.Forall2

/-!
# Linked lists in a memory

The nodes of a singly linked list stand at addresses, and each has the address of the next one. A pointer is the
head of a list if following the links from it comes to an end. The addresses met on the way are then all
different: a list that comes back to a node never ends.
-/

variable {α : Type} {next next' : α → Option (Option α)} {head : Option α} {addrs addrs' : List α} {a : α}

/-- Following the links from a pointer meets these addresses and then the null pointer. There is no link at an
address without a node. -/
inductive Linked (next : α → Option (Option α)) : Option α → List α → Prop
  | nil : Linked next none []
  | cons {a : α} {link : Option α} {addrs : List α} (hnext : next a = some link) (hrest : Linked next link addrs) :
      Linked next (some a) (a :: addrs)

namespace Linked

theorem head_eq (h : Linked next head addrs) : head = addrs.head? := by
  cases h <;> rfl

theorem nil_iff : Linked next head [] ↔ head = none := by
  constructor
  · intro h
    exact h.head_eq
  · rintro rfl
    exact .nil

theorem cons_iff :
    Linked next head (a :: addrs) ↔ head = some a ∧ ∃ link, next a = some link ∧ Linked next link addrs := by
  constructor
  · intro h
    cases h with
    | cons hnext hrest => exact ⟨rfl, _, hnext, hrest⟩
  · rintro ⟨rfl, link, hnext, hrest⟩
    exact .cons hnext hrest

theorem unique (h : Linked next head addrs) (h' : Linked next head addrs') : addrs = addrs' := by
  induction h generalizing addrs' with
  | nil =>
      cases h'
      rfl
  | cons hnext _ ih =>
      cases h' with
      | cons hnext' hrest' =>
          rw [hnext, Option.some.injEq] at hnext'
          subst hnext'
          rw [ih hrest']

/-- Each node is the head of what is behind it. -/
theorem of_append {front : List α} (h : Linked next head (front ++ a :: addrs)) :
    Linked next (some a) (a :: addrs) := by
  induction front generalizing head with
  | nil =>
      obtain ⟨rfl, -⟩ := cons_iff.mp h
      exact h
  | cons b front ih =>
      obtain ⟨-, link, -, hrest⟩ := cons_iff.mp h
      exact ih hrest

/-- A list that ends does not come back to a node. -/
theorem nodup (h : Linked next head addrs) : addrs.Nodup := by
  induction h with
  | nil => exact List.nodup_nil
  | @cons a link addrs hnext hrest ih =>
      refine List.nodup_cons.mpr ⟨fun hmem => ?_, ih⟩
      obtain ⟨front, back, rfl⟩ := List.append_of_mem hmem
      have hsame := (hrest.of_append).unique (.cons hnext hrest)
      have hlength := congrArg List.length hsame
      simp only [List.length_cons, List.length_append] at hlength
      omega

theorem congr (h : Linked next head addrs) (heq : ∀ a ∈ addrs, next' a = next a) : Linked next' head addrs := by
  induction h with
  | nil => exact .nil
  | @cons a link addrs hnext _ ih =>
      refine .cons ?_ (ih fun b hb => heq b (List.mem_cons_of_mem a hb))
      rw [heq a List.mem_cons_self, hnext]

end Linked

/-- The heads of several lists. -/
abbrev AllLinked (next : α → Option (Option α)) (heads : List (Option α)) (lists : List (List α)) : Prop :=
  List.Forall₂ (Linked next) heads lists

namespace AllLinked

variable {heads : List (Option α)} {lists : List (List α)}

theorem replicate (next : α → Option (Option α)) (n : Nat) :
    AllLinked next (List.replicate n none) (List.replicate n []) := by
  induction n with
  | zero => exact .nil
  | succ n ih => exact .cons .nil ih

theorem congr (h : AllLinked next heads lists) (heq : ∀ a ∈ lists.flatten, next' a = next a) :
    AllLinked next' heads lists := by
  refine List.forall₂_iff_get.mpr ⟨h.length_eq, fun i hi hi' => ?_⟩
  refine (h.get hi hi').congr fun a ha => heq a ?_
  exact List.mem_flatten.mpr ⟨_, List.get_mem lists ⟨i, hi'⟩, ha⟩

/-- A node is put in front of one of the lists. -/
theorem push (h : AllLinked next heads lists) (i : Nat) (ha : a ∉ lists.flatten) (hlink : next' a = some heads[i]?.join)
    (heq : ∀ b, b ≠ a → next' b = next b) : AllLinked next' (heads.set i (some a)) (lists.modify i (a :: ·)) := by
  have hothers : ∀ b ∈ lists.flatten, next' b = next b := by
    intro b hb
    refine heq b ?_
    rintro rfl
    exact ha hb
  have hold := h.congr hothers
  refine List.forall₂_iff_get.mpr ⟨?_, fun j hj hj' => ?_⟩
  · rw [List.length_set, List.length_modify, h.length_eq]
  · simp only [List.length_set, List.length_modify] at hj hj'
    simp only [List.get_eq_getElem, List.getElem_set, List.getElem_modify]
    split_ifs with hij
    · subst hij
      have hhead := hold.get hj hj'
      refine .cons ?_ hhead
      rw [hlink, List.getElem?_eq_getElem hj]
      rfl
    · exact hold.get hj hj'

end AllLinked
