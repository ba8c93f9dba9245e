import Mathlib.Data.List.Rotate
import Mathlib.Data.List.ReduceOption
import Mathlib.Data.Nat.ModEq

/-!
# Linear probing

An array of slots that is searched from the home slot of a record on, around its end, until an empty slot. The
slots seen from a home slot are the array rotated to it, so the search is a search in the rotated list, and what
a table knows about the records of one home is the list of them in that order: the chain. A record that is
placed goes behind the others of its chain, and it moves no record of any other one.
-/

namespace Probing

variable {ρ : Type}

/-- Look at one slot after another from an index on until one satisfies the test. The fuel bounds the number of
slots that are looked at. -/
def probe (slots : List (Option ρ)) (stop : Option ρ → Bool) : Nat → Nat → Option Nat
  | 0, _ => none
  | fuel + 1, i => if stop slots[i]?.join then some i else probe slots stop fuel ((i + 1) % slots.length)

/-- Put a record into the first empty slot from its home on. -/
def place (home : ρ → Nat) (slots : List (Option ρ)) (r : ρ) : List (Option ρ) :=
  match probe slots Option.isNone slots.length (home r) with
  | some i => slots.set i (some r)
  | none => slots

/-- A search for a record stops at one that it looks for or at an empty slot. -/
def stopAt (p : ρ → Bool) : Option ρ → Bool
  | some r => p r
  | none => true

/-- The slot of the first record that is looked for. -/
def find (slots : List (Option ρ)) (p : ρ → Bool) (h : Nat) : Option Nat :=
  (probe slots (stopAt p) slots.length h).filter fun i => slots[i]?.join.isSome

/-- The records in the order in which a search from an index meets them. -/
def chain (slots : List (Option ρ)) (h : Nat) : List ρ := (slots.rotate h).reduceOption

/-- No record stands behind an empty slot, seen from its home. -/
def Placed (home : ρ → Nat) (slots : List (Option ρ)) : Prop :=
  ∀ h < slots.length, ∀ pre post, slots.rotate h = pre ++ none :: post → ∀ r, some r ∈ post → home r ≠ h

variable {home : ρ → Nat} {slots : List (Option ρ)} {stop : Option ρ → Bool} {h : Nat} {r : ρ}

theorem probe_eq (hh : h < slots.length) :
    probe slots stop slots.length h = ((slots.rotate h).findIdx? stop).map fun k => (h + k) % slots.length := by
  suffices hall : ∀ fuel j, j + fuel = slots.length →
      probe slots stop fuel ((h + j) % slots.length) =
        (((slots.rotate h).drop j).findIdx? stop).map fun k => (h + (j + k)) % slots.length by
    simpa [Nat.mod_eq_of_lt hh] using hall slots.length 0 (Nat.zero_add _)
  intro fuel
  induction fuel with
  | zero =>
      intro j hj
      have hdrop : (slots.rotate h).drop j = [] := List.drop_eq_nil_of_le (by rw [List.length_rotate]; omega)
      rw [hdrop]
      rfl
  | succ fuel ih =>
      intro j hj
      have hlt : j < (slots.rotate h).length := by
        rw [List.length_rotate]
        omega
      have hslot : slots[(h + j) % slots.length]?.join = (slots.rotate h)[j] := by
        rw [List.getElem_rotate, Nat.add_comm h j, List.getElem?_eq_getElem (Nat.mod_lt _ (by omega))]
        rfl
      have hnext : ((h + j) % slots.length + 1) % slots.length = (h + (j + 1)) % slots.length := by
        rw [Nat.mod_add_mod, Nat.add_assoc]
      rw [List.drop_eq_getElem_cons hlt, List.findIdx?_cons, probe, hslot, hnext, ih (j + 1) (by omega)]
      split_ifs
      · rfl
      · rw [Option.map_map]
        congr 1
        funext k
        simp only [Function.comp_apply]
        congr 1
        omega

theorem rotate_set {α : Type} {l : List α} {x : α} {k : Nat} (hk : k < l.length) :
    (l.set ((h + k) % l.length) x).rotate h = (l.rotate h).set k x := by
  refine List.ext_getElem (by simp) fun j hj _ => ?_
  simp only [List.length_rotate, List.length_set] at hj
  rw [List.getElem_rotate, List.getElem_set, List.getElem_set, List.getElem_rotate]
  simp only [List.length_set, Nat.add_comm j h]
  have hsame : (h + k) % l.length = (h + j) % l.length ↔ k = j := by
    constructor
    · intro heq
      have hmod : k ≡ j [MOD l.length] := Nat.ModEq.add_left_cancel' h heq
      rwa [Nat.ModEq, Nat.mod_eq_of_lt hk, Nat.mod_eq_of_lt hj] at hmod
    · rintro rfl
      rfl
  simp only [hsame]

theorem exists_rotate_set {α : Type} {l : List α} {x : α} {i : Nat} (hi : i < l.length) (h : Nat) :
    ∃ pre post, l.rotate h = pre ++ l[i] :: post ∧ (l.set i x).rotate h = pre ++ x :: post := by
  set k := (i + (l.length - h % l.length)) % l.length with hkdef
  have hk : k < l.length := Nat.mod_lt _ (by omega)
  have hback : (h + k) % l.length = i := by
    have hmod : h % l.length < l.length := Nat.mod_lt _ (by omega)
    rw [hkdef, Nat.add_mod_mod, ← Nat.mod_add_mod,
      show h % l.length + (i + (l.length - h % l.length)) = i + l.length by omega,
      Nat.add_mod_right, Nat.mod_eq_of_lt hi]
  have hk' : k < (l.rotate h).length := by rwa [List.length_rotate]
  refine ⟨(l.rotate h).take k, (l.rotate h).drop (k + 1), ?_, ?_⟩
  · conv_lhs => rw [← List.take_append_drop k (l.rotate h), List.drop_eq_getElem_cons hk', List.getElem_rotate]
    simp only [Nat.add_comm k h, hback]
  · rw [← hback, rotate_set hk, List.set_eq_take_append_cons_drop, if_pos hk']

/-- A record that is placed goes to the first empty slot seen from its home. -/
theorem place_eq (hhome : home r < slots.length) (hfree : none ∈ slots) :
    ∃ i, ∃ hi : i < slots.length, slots[i] = none ∧ place home slots r = slots.set i (some r) ∧
      ∃ pre post, none ∉ pre ∧ slots.rotate (home r) = pre ++ none :: post ∧
        (place home slots r).rotate (home r) = pre ++ some r :: post := by
  have hfound : ∃ k, (slots.rotate (home r)).findIdx? Option.isNone = some k := by
    rw [← Option.isSome_iff_exists, List.findIdx?_isSome, List.any_eq_true]
    exact ⟨none, List.mem_rotate.mpr hfree, rfl⟩
  obtain ⟨k, hk⟩ := hfound
  obtain ⟨hlt, hnone, hbefore⟩ := List.findIdx?_eq_some_iff_getElem.mp hk
  rw [Option.isNone_iff_eq_none] at hnone
  have hplace : place home slots r = slots.set ((home r + k) % slots.length) (some r) := by
    rw [place, probe_eq hhome, hk]
    rfl
  have hi : (home r + k) % slots.length < slots.length := Nat.mod_lt _ (by omega)
  have hslot : slots[(home r + k) % slots.length] = none := by
    rw [List.getElem_rotate] at hnone
    simpa only [Nat.add_comm k] using hnone
  refine ⟨_, hi, hslot, hplace, (slots.rotate (home r)).take k, (slots.rotate (home r)).drop (k + 1), ?_, ?_, ?_⟩
  · intro hmem
    obtain ⟨j, hj, hj'⟩ := List.getElem_of_mem hmem
    rw [List.length_take, lt_min_iff] at hj
    rw [List.getElem_take] at hj'
    have := hbefore j hj.1
    simp [hj'] at this
  · rw [← hnone, ← List.drop_eq_getElem_cons hlt, List.take_append_drop]
  · rw [hplace, rotate_set (by rwa [List.length_rotate] at hlt), List.set_eq_take_append_cons_drop, if_pos hlt]

@[simp] theorem length_place : (place home slots r).length = slots.length := by
  unfold place
  split <;> simp

theorem exists_rotate_place (hhome : home r < slots.length) (hfree : none ∈ slots) (h : Nat) :
    ∃ pre post, slots.rotate h = pre ++ none :: post ∧ (place home slots r).rotate h = pre ++ some r :: post := by
  obtain ⟨i, hi, hnone, hplace, -⟩ := place_eq hhome hfree
  rw [hplace, ← hnone]
  exact exists_rotate_set hi h

theorem placed_replicate (n : Nat) : Placed home (List.replicate n none) := by
  intro h _ pre post hrotate r hr
  rw [List.rotate_replicate] at hrotate
  have hmem : some r ∈ List.replicate n none := hrotate ▸ List.mem_append_right _ (List.mem_cons_of_mem _ hr)
  cases List.eq_of_mem_replicate hmem

theorem Placed.place (hplaced : Placed home slots) (hhome : home r < slots.length) (hfree : none ∈ slots) :
    Placed home (place home slots r) := by
  intro h hh pre post hrotate q hq
  rw [length_place] at hh
  obtain ⟨a, b, hold, hnew⟩ := exists_rotate_place hhome hfree h
  rw [hnew] at hrotate
  -- the filled slot is before the empty one or behind it
  rcases List.append_eq_append_iff.mp hrotate with ⟨m, rfl, hm⟩ | ⟨m, rfl, hm⟩
  · cases m with
    | nil => simp at hm
    | cons x m =>
        obtain ⟨rfl, rfl⟩ := List.cons.inj hm
        exact hplaced h hh a (m ++ none :: post) hold q (List.mem_append_right _ (List.mem_cons_of_mem _ hq))
  · cases m with
    | nil => simp at hm
    | cons x m =>
        obtain ⟨rfl, rfl⟩ := List.cons.inj hm
        rcases List.mem_append.mp hq with hq | hq
        · exact hplaced h hh pre (m ++ none :: b) (by simpa using hold) q (List.mem_append_left _ hq)
        rcases List.mem_cons.mp hq with hq | hq
        · obtain rfl := Option.some.inj hq
          rintro rfl
          obtain ⟨-, -, -, -, pre', post', hnot, hfirst, hfirst'⟩ := place_eq hhome hfree
          -- from its home the record fills the first empty slot
          have hlast : pre' ++ some q :: post' = pre ++ none :: (m ++ some q :: b) := by
            rw [← hfirst', hnew]
            simp
          have hempty : pre' ++ none :: post' = pre ++ none :: (m ++ none :: b) := by
            rw [← hfirst, hold]
            simp
          rcases List.append_eq_append_iff.mp hlast with ⟨c, rfl, hc⟩ | ⟨c, rfl, hc⟩
          · cases c with
            | nil => simp at hc
            | cons y c =>
                obtain ⟨rfl, -⟩ := List.cons.inj hc
                simp at hempty
          · cases c with
            | nil => simp at hc
            | cons y c =>
                obtain ⟨rfl, -⟩ := List.cons.inj hc
                exact hnot (List.mem_append_right _ List.mem_cons_self)
        · exact hplaced h hh pre (m ++ none :: b) (by simpa using hold) q
            (List.mem_append_right _ (List.mem_cons_of_mem _ hq))

/-- The placed record goes behind the others of its kind, and the records of another kind stay as they are. -/
theorem filter_chain_place (hplaced : Placed home slots) (hhome : home r < slots.length) (hfree : none ∈ slots)
    {p : ρ → Bool} (hh : h < slots.length) (hp : ∀ q, p q = true → home q = h) :
    (chain (place home slots r) h).filter p = (chain slots h).filter p ++ if p r then [r] else [] := by
  by_cases hr : p r
  · obtain rfl := hp r hr
    obtain ⟨-, -, -, -, pre, post, -, hold, hnew⟩ := place_eq hhome hfree
    have hpost : post.reduceOption.filter p = [] := by
      rw [List.filter_eq_nil_iff]
      intro q hq hpq
      exact hplaced _ hhome pre post hold q (List.reduceOption_mem_iff.mp hq) (hp q hpq)
    simp [chain, hold, hnew, List.reduceOption_append, hr, hpost]
  · obtain ⟨pre, post, hold, hnew⟩ := exists_rotate_place hhome hfree h
    simp [chain, hold, hnew, List.reduceOption_append, hr]

theorem reduceOption_place_perm (hhome : home r < slots.length) (hfree : none ∈ slots) :
    (place home slots r).reduceOption.Perm (r :: slots.reduceOption) := by
  obtain ⟨pre, post, hold, hnew⟩ := exists_rotate_place hhome hfree 0
  rw [List.rotate_zero] at hold hnew
  rw [hnew, hold]
  simp [List.reduceOption_append, List.perm_middle]

theorem chain_perm (h : Nat) : (chain slots h).Perm slots.reduceOption := (List.rotate_perm slots h).filterMap id

/-- Where a search stops: everything before the slot is a record that is not looked for. -/
theorem exists_stop {p : ρ → Bool} (hh : h < slots.length) (hfree : none ∈ slots) :
    ∃ i, ∃ hi : i < slots.length, probe slots (stopAt p) slots.length h = some i ∧ stopAt p slots[i] = true ∧
      ∃ pre post, slots.rotate h = pre ++ slots[i] :: post ∧ pre.reduceOption.filter p = [] ∧
        ∀ x, (slots.set i x).rotate h = pre ++ x :: post := by
  have hfound : ∃ k, (slots.rotate h).findIdx? (stopAt p) = some k := by
    rw [← Option.isSome_iff_exists, List.findIdx?_isSome, List.any_eq_true]
    exact ⟨none, List.mem_rotate.mpr hfree, rfl⟩
  obtain ⟨k, hk⟩ := hfound
  obtain ⟨hlt, hstop, hbefore⟩ := List.findIdx?_eq_some_iff_getElem.mp hk
  have hi : (h + k) % slots.length < slots.length := Nat.mod_lt _ (by omega)
  have hslot : (slots.rotate h)[k] = slots[(h + k) % slots.length] := by
    rw [List.getElem_rotate]
    simp only [Nat.add_comm k]
  refine ⟨(h + k) % slots.length, hi, by rw [probe_eq hh, hk]; rfl, hslot ▸ hstop,
    (slots.rotate h).take k, (slots.rotate h).drop (k + 1), ?_, ?_, ?_⟩
  · rw [← hslot, ← List.drop_eq_getElem_cons hlt, List.take_append_drop]
  · rw [List.filter_eq_nil_iff]
    intro q hq hpq
    obtain ⟨j, hj, hj'⟩ := List.getElem_of_mem (List.reduceOption_mem_iff.mp hq)
    rw [List.length_take, lt_min_iff] at hj
    rw [List.getElem_take] at hj'
    have := hbefore j hj.1
    simp [hj', stopAt, hpq] at this
  · intro x
    rw [rotate_set (by rwa [List.length_rotate] at hlt), List.set_eq_take_append_cons_drop, if_pos hlt]

/-- A search for a record that is not there ends at an empty slot. -/
theorem find_eq_none {p : ρ → Bool} (hh : h < slots.length) (hfree : none ∈ slots)
    (hnil : (chain slots h).filter p = []) :
    find slots p h = none := by
  obtain ⟨i, hi, hprobe, hstop, pre, post, hrotate, -⟩ := exists_stop (p := p) hh hfree
  cases hslot : slots[i] with
  | none => simp [find, hprobe, List.getElem?_eq_getElem hi, hslot]
  | some q =>
      rw [hslot] at hstop hrotate
      have hmem : q ∈ (chain slots h).filter p := by
        refine List.mem_filter.mpr ⟨List.reduceOption_mem_iff.mpr ?_, hstop⟩
        rw [hrotate]
        exact List.mem_append_right _ List.mem_cons_self
      rw [hnil] at hmem
      cases hmem

/-- A search finds the first record of the chain that it looks for. -/
theorem find_eq_some {p : ρ → Bool} {rest : List ρ} (hplaced : Placed home slots) (hh : h < slots.length)
    (hfree : none ∈ slots) (hp : ∀ q, p q = true → home q = h) (hcons : (chain slots h).filter p = r :: rest) :
    ∃ i, ∃ hi : i < slots.length, find slots p h = some i ∧ slots[i] = some r ∧ p r = true ∧
      ∀ r', p r' = true → (chain (slots.set i (some r')) h).filter p = r' :: rest := by
  obtain ⟨i, hi, hprobe, hstop, pre, post, hrotate, hpre, hset⟩ := exists_stop (p := p) hh hfree
  cases hslot : slots[i] with
  | none =>
      rw [hslot] at hrotate
      have hpost : post.reduceOption.filter p = [] := by
        rw [List.filter_eq_nil_iff]
        intro q hq hpq
        exact hplaced _ hh pre post hrotate q (List.reduceOption_mem_iff.mp hq) (hp q hpq)
      simp [chain, hrotate, List.reduceOption_append, hpre, hpost] at hcons
  | some q =>
      rw [hslot] at hrotate hstop
      have hpq : p q = true := hstop
      simp only [chain, hrotate, List.reduceOption_append, List.filter_append, hpre, List.reduceOption_cons_of_some,
        List.filter_cons_of_pos hpq, List.nil_append, List.cons.injEq] at hcons
      obtain ⟨rfl, rfl⟩ := hcons
      refine ⟨i, hi, by simp [find, hprobe, List.getElem?_eq_getElem hi, hslot], hslot, hpq, fun r' hr' => ?_⟩
      simp [chain, hset, List.reduceOption_append, hpre, hr']

/-- To replace a record by one of the same home keeps the table in order. -/
theorem Placed.set {i : Nat} {r' : ρ} (hplaced : Placed home slots) (hi : i < slots.length) (hslot : slots[i] = some r)
    (hsame : home r' = home r) : Placed home (slots.set i (some r')) := by
  intro h hh pre post hrotate q hq
  rw [List.length_set] at hh
  obtain ⟨a, b, hold, hnew⟩ := exists_rotate_set (x := some r') hi h
  rw [hslot] at hold
  rw [hnew] at hrotate
  rcases List.append_eq_append_iff.mp hrotate with ⟨m, rfl, hm⟩ | ⟨m, rfl, hm⟩
  · cases m with
    | nil => simp at hm
    | cons x m =>
        obtain ⟨rfl, rfl⟩ := List.cons.inj hm
        exact hplaced h hh (a ++ some r :: m) post (by simpa using hold) q hq
  · cases m with
    | nil => simp at hm
    | cons x m =>
        obtain ⟨rfl, rfl⟩ := List.cons.inj hm
        have hbehind := hplaced h hh pre (m ++ some r :: b) (by simpa using hold)
        rcases List.mem_append.mp hq with hq | hq
        · exact hbehind q (List.mem_append_left _ hq)
        rcases List.mem_cons.mp hq with hq | hq
        · obtain rfl := Option.some.inj hq
          rw [hsame]
          exact hbehind r (List.mem_append_right _ List.mem_cons_self)
        · exact hbehind q (List.mem_append_right _ (List.mem_cons_of_mem _ hq))

theorem filter_chain_set {i : Nat} {r' : ρ} {p : ρ → Bool} (hi : i < slots.length) (hslot : slots[i] = some r)
    (hr : p r = false) (hr' : p r' = false) :
    (chain (slots.set i (some r')) h).filter p = (chain slots h).filter p := by
  obtain ⟨pre, post, hold, hnew⟩ := exists_rotate_set (x := some r') hi h
  rw [hslot] at hold
  simp [chain, hold, hnew, List.reduceOption_append, hr, hr']

theorem length_reduceOption_set {i : Nat} {r' : ρ} (hi : i < slots.length) (hslot : slots[i] = some r) :
    (slots.set i (some r')).reduceOption.length = slots.reduceOption.length := by
  obtain ⟨pre, post, hold, hnew⟩ := exists_rotate_set (x := some r') hi 0
  rw [List.rotate_zero, hslot] at hold
  rw [List.rotate_zero] at hnew
  rw [hnew, hold]
  simp [List.reduceOption_append]

theorem none_mem_of_lt (hlt : slots.reduceOption.length < slots.length) : none ∈ slots := by
  by_contra hnot
  have hall : ∀ l : List (Option ρ), none ∉ l → l.reduceOption.length = l.length := by
    intro l
    induction l with
    | nil => simp
    | cons x l ih =>
        intro hl
        cases x with
        | none => simp at hl
        | some y =>
            simp only [List.mem_cons, reduceCtorEq, false_or] at hl
            simp [ih hl]
  have := hall slots hnot
  omega

end Probing
