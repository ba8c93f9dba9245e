import Tundra.ScanCache.Table
import Mathlib.Data.Finset.Card
import Mathlib.Data.Finset.Dedup
import Mathlib.Data.List.Dedup

/-!
# The scan cache as a finite map

After any sequence of insertions the chains of the table end, every key that was inserted is in exactly one of
them, the one its hash selects, and a lookup finds for it what was inserted last with a timestamp other than the
one before it. The chains of records are those of the table without pointers.
-/

namespace Tundra

namespace ScanTable

open ScanCache (tableIndex newRecord tableIndex_lt flatten_modify_cons)

/-- The chain a record belongs to. -/
def home (rs : List ScanRecord) (size a : Nat) : Nat := (rs[a]?.map fun r => tableIndex size r.key).getD 0

/-- A record is put in front of its chain. -/
def pushAddr (rs : List ScanRecord) (size : Nat) (chains : List (List Nat)) (a : Nat) : List (List Nat) :=
  chains.modify (home rs size a) (a :: ·)

/-- What a rehash makes of the chains. -/
def relinked (rs : List ScanRecord) (size : Nat) (chains : List (List Nat)) : List (List Nat) :=
  chains.flatten.foldl (pushAddr rs size) (List.replicate size [])

variable {rs : List ScanRecord} {nodes : List ScanNode} {size : Nat} {chains : List (List Nat)} {key : HashDigest}
  {addrs : List Nat}
  {head : Option Nat} {newTable : List (Option Nat)}

theorem getElem?_records (nodes : List ScanNode) (a : Nat) :
    (records nodes)[a]? = nodes[a]?.map ScanNode.toScanRecord :=
  List.getElem?_map

@[simp] theorem length_records (nodes : List ScanNode) : (records nodes).length = nodes.length := List.length_map _

theorem getElem?_of_next {a : Nat} {link : Option Nat} (h : next nodes a = some link) :
    ∃ r, nodes[a]? = some r ∧ r.next = link :=
  Option.map_eq_some_iff.mp h

theorem home_lt (hsize : 0 < size) (a : Nat) : home rs size a < size := by
  unfold home
  cases rs[a]? with
  | none => exact hsize
  | some r => exact tableIndex_lt hsize r.key

/-! ### Chains -/

theorem foldl_pushAddr_perm (hsize : 0 < size) (addrs : List Nat) (hlength : chains.length = size) :
    (addrs.foldl (pushAddr rs size) chains).length = size ∧
      (addrs.foldl (pushAddr rs size) chains).flatten.Perm (addrs ++ chains.flatten) := by
  induction addrs generalizing chains with
  | nil => exact ⟨hlength, .refl _⟩
  | cons a addrs ih =>
      have hpush : (pushAddr rs size chains a).length = size := by rw [pushAddr, List.length_modify, hlength]
      obtain ⟨hlen, hperm⟩ := ih hpush
      refine ⟨hlen, hperm.trans ?_⟩
      have hi : home rs size a < chains.length := by
        rw [hlength]
        exact home_lt hsize a
      have hfirst := flatten_modify_cons a chains hi
      exact (hfirst.append_left addrs).trans List.perm_middle

/-- Every record is in its chain. -/
def AtHome (rs : List ScanRecord) (size : Nat) (chains : List (List Nat)) : Prop :=
  ∀ i chain, chains[i]? = some chain → ∀ a ∈ chain, home rs size a = i

theorem AtHome.push (h : AtHome rs size chains) (a : Nat) : AtHome rs size (pushAddr rs size chains a) := by
  intro i chain hchain b hb
  rw [pushAddr, List.getElem?_modify, Option.map_eq_map, Option.map_eq_some_iff] at hchain
  obtain ⟨old, hold, rfl⟩ := hchain
  split_ifs at hb with hi
  · rcases List.mem_cons.mp hb with rfl | hb
    · exact hi
    · exact h i old hold b hb
  · exact h i old hold b hb

theorem AtHome.foldl (h : AtHome rs size chains) (addrs : List Nat) :
    AtHome rs size (addrs.foldl (pushAddr rs size) chains) := by
  induction addrs generalizing chains with
  | nil => exact h
  | cons a addrs ih => exact ih (h.push a)

theorem atHome_replicate (rs : List ScanRecord) (size n : Nat) : AtHome rs size (List.replicate n []) := by
  intro i chain hchain a ha
  rw [List.eq_of_mem_replicate (List.mem_of_getElem? hchain)] at ha
  cases ha

/-! ### Loops -/

theorem lookupChain_eq (h : Linked (next nodes) head addrs) {fuel : Nat} (hfuel : addrs.length ≤ fuel) :
    lookupChain nodes key fuel head = .ok (addrs.find? fun a => (records nodes)[a]?.any fun r => key = r.key) := by
  induction h generalizing fuel with
  | nil =>
      cases fuel <;> rfl
  | @cons a link addrs hnext _ ih =>
      cases fuel with
      | zero => cases hfuel
      | succ fuel =>
          obtain ⟨r, hr, rfl⟩ := getElem?_of_next hnext
          rw [lookupChain, hr, List.find?_cons, getElem?_records, hr]
          simp only [Option.map_some, Option.any_some]
          by_cases hkey : key = r.key
          · simp [hkey]
          · rw [if_neg hkey]
            simpa [hkey] using ih (Nat.le_of_succ_le_succ hfuel)

/-- The inner loop of the rehash ends, and has put the records of one chain into the new table. -/
theorem relinkChain_spec (hsize : 0 < size) (hrecords : records nodes = rs) (h : Linked (next nodes) head addrs)
    (hnew : AllLinked (next nodes) newTable chains) (hlength : newTable.length = size)
    (hdisjoint : ∀ a ∈ addrs, a ∉ chains.flatten) {fuel : Nat} (hfuel : addrs.length ≤ fuel) :
    ∃ nodes' newTable', relinkChain fuel head (nodes, newTable) = .ok (nodes', newTable') ∧ records nodes' = rs ∧
      newTable'.length = size ∧ AllLinked (next nodes') newTable' (addrs.foldl (pushAddr rs size) chains) ∧
      ∀ a, a ∉ addrs → nodes'[a]? = nodes[a]? := by
  -- on the records that are still in the old chain
  induction addrs generalizing nodes head newTable chains fuel with
  | nil =>
      obtain rfl := Linked.nil_iff.mp h
      exact ⟨nodes, newTable, by cases fuel <;> rfl, hrecords, hlength, hnew, fun _ _ => rfl⟩
  | cons a addrs ih =>
      have hnodup := h.nodup
      obtain ⟨rfl, link, hnext, hrest⟩ := Linked.cons_iff.mp h
      obtain ⟨r, hr, rfl⟩ := getElem?_of_next hnext
      cases fuel with
      | zero => cases hfuel
      | succ fuel =>
          obtain ⟨hlt, hget⟩ := List.getElem?_eq_some_iff.mp hr
          set index := tableIndex newTable.length r.key with hindex
          set r' : ScanNode := { r with next := newTable[index]?.join } with hr'
          have hhome : home rs size a = index := by
            rw [home, ← hrecords, getElem?_records, hr, hindex, hlength]
            rfl
          have hset : ∀ b, b ≠ a → (nodes.set a r')[b]? = nodes[b]? := fun b hb => List.getElem?_set_ne (Ne.symm hb)
          have hother : ∀ b, b ≠ a → next (nodes.set a r') b = next nodes b := fun b hb => by rw [next, hset b hb, next]
          have hself : next (nodes.set a r') a = some newTable[index]?.join := by
            rw [next, List.getElem?_set_self hlt]
            rfl
          have hrecords' : records (nodes.set a r') = rs := by
            have hlt' : a < (records nodes).length := by rwa [length_records]
            have hsame : r'.toScanRecord = (records nodes)[a] := by simp only [records, List.getElem_map, hget, hr']
            rw [← hrecords, records, List.map_set, hsame]
            exact List.set_getElem_self hlt'
          have hrest' : Linked (next (nodes.set a r')) r.next addrs := by
            refine hrest.congr fun b hb => hother b ?_
            rintro rfl
            exact (List.nodup_cons.mp hnodup).1 hb
          have hpush : AllLinked (next (nodes.set a r')) (newTable.set index (some a)) (pushAddr rs size chains a) := by
            rw [pushAddr, hhome]
            exact hnew.push index (hdisjoint a List.mem_cons_self) hself hother
          have hlength' : (newTable.set index (some a)).length = size := by rw [List.length_set, hlength]
          have hdisjoint' : ∀ b ∈ addrs, b ∉ (pushAddr rs size chains a).flatten := by
            intro b hb hmem
            have hi : home rs size a < chains.length := by
              rw [← hnew.length_eq, hlength]
              exact home_lt hsize a
            rcases List.mem_cons.mp ((flatten_modify_cons a chains hi).mem_iff.mp hmem) with rfl | hmem
            · exact (List.nodup_cons.mp hnodup).1 hb
            · exact hdisjoint b (List.mem_cons_of_mem a hb) hmem
          obtain ⟨nodes', newTable', hrun, hrecords'', hlength'', hlinked, hsame⟩ :=
            ih hrecords' hrest' hpush hlength' hdisjoint' (Nat.le_of_succ_le_succ hfuel)
          refine ⟨nodes', newTable', ?_, hrecords'', hlength'', hlinked, fun b hb => ?_⟩
          · rw [relinkChain, hr]
            exact hrun
          · rw [List.mem_cons, not_or] at hb
            rw [hsame b hb.2, hset b hb.1]

theorem relink_spec (hsize : 0 < size) {fuel : Nat} {heads : List (Option Nat)} {lists : List (List Nat)}
    (hrecords : records nodes = rs) (h : AllLinked (next nodes) heads lists)
    (hnew : AllLinked (next nodes) newTable chains) (hlength : newTable.length = size)
    (hnodup : (lists.flatten ++ chains.flatten).Nodup) (hfuel : lists.flatten.length ≤ fuel) :
    ∃ nodes' newTable', heads.foldlM (fun state head => relinkChain fuel head state) (nodes, newTable) = .ok
    (nodes', newTable') ∧
      records nodes' = rs ∧ newTable'.length = size ∧ AllLinked (next nodes') newTable'
      (lists.flatten.foldl (pushAddr rs size) chains) := by
  induction lists generalizing heads nodes newTable chains with
  | nil =>
      obtain rfl := List.forall₂_nil_right_iff.mp h
      exact ⟨nodes, newTable, rfl, hrecords, hlength, hnew⟩
  | cons addrs lists ih =>
      obtain ⟨head, heads, hhead, hlists, rfl⟩ := List.forall₂_cons_right_iff.mp h
      rw [List.flatten_cons] at hnodup hfuel
      rw [List.length_append] at hfuel
      have hdisjoint : ∀ a ∈ addrs, a ∉ chains.flatten := by
        intro a ha hmem
        rw [List.append_assoc] at hnodup
        exact (List.nodup_append.mp hnodup).2.2 a ha a (List.mem_append_right _ hmem) rfl
      obtain ⟨nodes₁, newTable₁, hrun, hrecords₁, hlength₁, hlinked₁, hsame⟩ :=
        relinkChain_spec hsize hrecords hhead hnew hlength hdisjoint (show addrs.length ≤ fuel by omega)
      have hperm : (addrs.foldl (pushAddr rs size) chains).flatten.Perm (addrs ++ chains.flatten) :=
        (foldl_pushAddr_perm hsize addrs (hnew.length_eq.symm.trans hlength)).2
      have hlists₁ : AllLinked (next nodes₁) heads lists := by
        refine AllLinked.congr hlists fun a ha => ?_
        rw [next, hsame a, next]
        intro hmem
        rw [List.append_assoc] at hnodup
        exact (List.nodup_append.mp hnodup).2.2 a hmem a (List.mem_append_left _ ha) rfl
      have hnodup₁ : (lists.flatten ++ (addrs.foldl (pushAddr rs size) chains).flatten).Nodup := by
        refine ((hperm.append_left _).nodup_iff).mpr (List.Perm.nodup_iff ?_ |>.mp hnodup)
        rw [← List.append_assoc]
        exact List.perm_append_comm.append_right _
      obtain ⟨nodes', newTable', hrest, hrecords', hlength', hlinked'⟩ :=
        ih hrecords₁ hlists₁ hlinked₁ hlength₁ hnodup₁ (by omega)
      refine ⟨nodes', newTable', ?_, hrecords', hlength', ?_⟩
      · rw [List.foldlM_cons, hrun]
        exact hrest
      · rw [List.flatten_cons, List.foldl_append]
        exact hlinked'

/-! ### Whole tables -/

structure Inv (t : ScanTable) (chains : List (List Nat)) : Prop where
  linked : AllLinked (next t.nodes) t.table chains
  addrs : chains.flatten.Perm (List.range t.nodes.length)
  atHome : AtHome (records t.nodes) t.table.length chains
  keys : ((records t.nodes).map ScanRecord.key).Nodup
  size : t.table = [] ∨ ∃ k, 6 ≤ k ∧ t.table.length = 2 ^ k
  count : t.recordCount = t.nodes.length
  room : sizeofRecord * t.nodes.length ≤ t.offset ∧ t.offset ≤ 64 * 1024 * 1024

variable {t : ScanTable}

theorem inv_init : Inv init [] where
  linked := .nil
  addrs := .refl _
  atHome _ _ h := by cases h
  keys := List.nodup_nil
  size := .inl rfl
  count := rfl
  room := ⟨Nat.le_refl 0, Nat.zero_le _⟩

theorem Inv.length_eq (h : Inv t chains) : chains.flatten.length = t.nodes.length := by
  rw [h.addrs.length_eq, List.length_range]

theorem Inv.mem_flatten (h : Inv t chains) {a : Nat} : a ∈ chains.flatten ↔ a < t.nodes.length := by
  rw [h.addrs.mem_iff, List.mem_range]

theorem Inv.nodup (h : Inv t chains) : chains.flatten.Nodup := h.addrs.nodup_iff.mpr List.nodup_range

theorem Inv.addr_eq (h : Inv t chains) {a b : Nat} {r r' : ScanRecord} (ha : (records t.nodes)[a]? = some r)
    (hb : (records t.nodes)[b]? = some r') (hkey : r.key = r'.key) : a = b := by
  obtain ⟨hlt, -⟩ := List.getElem?_eq_some_iff.mp ha
  have hne := List.nodup_iff_getElem?_ne_getElem?.mp h.keys
  by_contra hab
  have hkeys : ((records t.nodes).map ScanRecord.key)[a]? = ((records t.nodes).map ScanRecord.key)[b]? := by
    rw [List.getElem?_map, List.getElem?_map, ha, hb, Option.map_some, Option.map_some, hkey]
  obtain ⟨hlt', -⟩ := List.getElem?_eq_some_iff.mp hb
  rcases Nat.lt_or_gt_of_ne hab with hlt'' | hlt''
  · exact hne a b hlt'' (by simpa using hlt') hkeys
  · exact hne b a hlt'' (by simpa using hlt) hkeys.symm

theorem Inv.lookupDynamic_spec (h : Inv t chains) (key : HashDigest) :
    ∃ found, t.lookupDynamic key = .ok found ∧ ∀ a, found = some a ↔ ∃ r, (records t.nodes)[a]? = some r ∧
    r.key = key := by
  by_cases hempty : t.table.length > 0
  · have hi : tableIndex t.table.length key < t.table.length := tableIndex_lt hempty key
    have hi' : tableIndex t.table.length key < chains.length := h.linked.length_eq ▸ hi
    have hchain := h.linked.get hi hi'
    set chain := chains.get ⟨tableIndex t.table.length key, hi'⟩ with hdef
    have hget : chains[tableIndex t.table.length key]? = some chain := List.getElem?_eq_getElem hi'
    have hmem : chain ∈ chains := List.mem_of_getElem? hget
    have hfuel : chain.length ≤ t.nodes.length := by
      rw [← h.length_eq]
      exact (List.sublist_flatten_of_mem hmem).length_le
    refine ⟨chain.find? fun a => (records t.nodes)[a]?.any fun r => key = r.key, ?_, fun a => ?_⟩
    · rw [lookupDynamic, if_pos hempty, List.getElem?_eq_getElem hi]
      exact lookupChain_eq hchain hfuel
    · constructor
      · intro hfound
        have hkey := List.find?_some hfound
        rw [Option.any_eq_true] at hkey
        obtain ⟨r, hr, hkey⟩ := hkey
        exact ⟨r, hr, (of_decide_eq_true hkey).symm⟩
      · rintro ⟨r, hr, rfl⟩
        obtain ⟨hlt, -⟩ := List.getElem?_eq_some_iff.mp hr
        rw [length_records] at hlt
        -- the record is in the chain that is searched, and no other one there has the key
        have ha : a ∈ chain := by
          obtain ⟨chain', hchain', ha⟩ := List.mem_flatten.mp (h.mem_flatten.mpr hlt)
          obtain ⟨i, hi⟩ := List.getElem?_of_mem hchain'
          have hhome := h.atHome i chain' hi a ha
          rw [home, hr, Option.map_some, Option.getD_some] at hhome
          rw [← hhome, hget, Option.some.injEq] at hi
          rwa [hi]
        cases hfind : chain.find? fun a => (records t.nodes)[a]?.any fun r' => r.key = r'.key with
        | none =>
            have hnone := List.find?_eq_none.mp hfind a ha
            simp [hr] at hnone
        | some b =>
            have hkey := List.find?_some hfind
            rw [Option.any_eq_true] at hkey
            obtain ⟨r', hr', hkey⟩ := hkey
            rw [h.addr_eq hr' hr (of_decide_eq_true hkey).symm]
  · refine ⟨none, if_neg hempty, fun a => ⟨fun hnone => (Option.some_ne_none a hnone.symm).elim, ?_⟩⟩
    rintro ⟨r, hr, -⟩
    have hchains : chains = [] := List.eq_nil_of_length_eq_zero (by rw [← h.linked.length_eq]; omega)
    have hlength := h.length_eq
    rw [hchains] at hlength
    obtain ⟨hlt, -⟩ := List.getElem?_eq_some_iff.mp hr
    rw [length_records, ← hlength] at hlt
    exact absurd hlt (Nat.not_lt_zero _)

/-! ### Allocation -/

/-- The computation ends with a result of this kind, unless the allocator is full. -/
def Ends {α : Type} (x : Outcome ScanTableError α) (P : α → Prop) :
    Prop := x = .error .outOfMemory ∨ ∃ a, x = .ok a ∧ P a

theorem Ends.bind {α β : Type} {x : Outcome ScanTableError α} {f : α → Outcome ScanTableError β} {P : α → Prop}
    {Q : β → Prop} (h : Ends x P) (hf : ∀ a, P a → Ends (f a) Q) : Ends (x >>= f) Q := by
  rcases h with rfl | ⟨a, rfl, ha⟩
  · exact .inl rfl
  · exact hf a ha

theorem linearAllocate_spec (delta offset size : Nat) {align : Nat} (halign : 0 < align) :
    Ends (linearAllocate delta offset size align) fun offset' => offset + size ≤ offset' ∧
    offset' ≤ 64 * 1024 * 1024 := by
  simp only [linearAllocate]
  split_ifs with hfits
  · refine .inr ⟨_, rfl, ?_, hfits.trans (Nat.sub_le _ _)⟩
    have hdiv := Nat.div_add_mod (offset + align - 1) align
    have hmod := Nat.mod_lt (offset + align - 1) halign
    rw [Nat.mul_comm]
    omega
  · exact .inl rfl

theorem allocateIncludes_spec (delta offset : Nat) (includedFiles : List CString) :
    Ends (allocateIncludes delta offset includedFiles) fun offset' => offset ≤ offset' ∧
    offset' ≤ 64 * 1024 * 1024 := by
  refine (linearAllocate_spec delta offset _ (by decide)).bind fun offset₁ h₁ => ?_
  have hfold : ∀ (files : List CString) (offset₁ : Nat), offset ≤ offset₁ ∧ offset₁ ≤ 64 * 1024 * 1024 →
      Ends (files.foldlM (fun offset file => linearAllocate delta offset (file.bytes.length + 1) 1) offset₁)
        fun offset' => offset ≤ offset' ∧ offset' ≤ 64 * 1024 * 1024 := by
    intro files
    induction files with
    | nil => exact fun offset₁ h => .inr ⟨offset₁, rfl, h⟩
    | cons file files ih =>
        intro offset₁ h
        rw [List.foldlM_cons]
        exact (linearAllocate_spec delta offset₁ _ Nat.one_pos).bind fun offset₂ h₂ => ih offset₂ ⟨by omega, h₂.2⟩
  exact hfold includedFiles offset₁ ⟨by omega, h₁.2⟩

/-- The computation stays below this offset, unless the allocator has less room. -/
structure Below {α : Type} (delta bound : Nat) (offset : α → Nat) (x : Outcome ScanTableError α) : Prop where
  le : ∀ a, x = .ok a → offset a ≤ bound
  full : x = .error .outOfMemory → allocatorSize delta < bound

theorem Below.bind {α β : Type} {delta bound size : Nat} {offset : α → Nat} {offset' : β → Nat}
    {x : Outcome ScanTableError α} {f : α → Outcome ScanTableError β} (h : Below delta bound offset x)
    (hf : ∀ a, x = .ok a → Below delta (offset a + size) offset' (f a)) :
    Below delta (bound + size) offset' (x >>= f) := by
  cases x with
  | ok a =>
      have hle := h.le a rfl
      have hrest := hf a rfl
      refine ⟨fun b hb => ?_, fun hb => ?_⟩
      · have hlast := hrest.le b hb
        omega
      · have hlast := hrest.full hb
        omega
  | error err =>
      refine ⟨nofun, fun hb => ?_⟩
      cases hb
      exact Nat.lt_add_right size (h.full rfl)
  | outOfFuel => exact ⟨nofun, nofun⟩

theorem Below.ok {α : Type} {delta bound : Nat} {offset : α → Nat} {a : α} (h : offset a ≤ bound) :
    Below delta bound offset (.ok a) := by
  refine ⟨fun a' ha => ?_, nofun⟩
  cases ha
  exact h

theorem Below.mono {α : Type} {delta bound bound' : Nat} {offset : α → Nat} {x : Outcome ScanTableError α}
    (h : Below delta bound offset x) (hle : bound ≤ bound') : Below delta bound' offset x :=
  ⟨fun a ha => (h.le a ha).trans hle, fun hfull => (h.full hfull).trans_le hle⟩

/-- What is made of the result goes up to the same offset. -/
theorem Below.bind_pure {α β : Type} {delta bound : Nat} {offset : α → Nat} {offset' : β → Nat}
    {x : Outcome ScanTableError α} {f : α → β} (h : Below delta bound offset x) (hf : ∀ a, offset' (f a) = offset a) :
    Below delta bound offset' (x >>= fun a => pure (f a)) :=
  @Below.bind _ _ _ _ 0 _ _ _ _ h fun a _ => .ok (hf a).le

theorem linearAllocate_below (delta offset size : Nat) {align : Nat} (halign : 0 < align) :
    Below delta (offset + (size + (align - 1))) id (linearAllocate delta offset size align) := by
  have hdiv := Nat.div_mul_le_self (offset + align - 1) align
  simp only [linearAllocate]
  split_ifs with hfits
  · refine .ok ?_
    rw [id_eq]
    omega
  · exact ⟨nofun, fun _ => by omega⟩

def namesBytes (includedFiles : List CString) : Nat := (includedFiles.map fun file => file.bytes.length + 1).sum

theorem allocateIncludes_below (delta offset : Nat) (includedFiles : List CString) :
    Below delta (offset + (sizeofFileAndHash * includedFiles.length + 7) + namesBytes includedFiles) id
    (allocateIncludes delta offset includedFiles) := by
  have halign : 0 < 8 := by decide
  refine (linearAllocate_below delta offset _ halign).bind fun offset₁ _ => ?_
  have hfold : ∀ (files : List CString) (offset₁ : Nat), Below delta (offset₁ + namesBytes files) id
      (files.foldlM (fun offset file => linearAllocate delta offset (file.bytes.length + 1) 1) offset₁) := by
    intro files
    induction files with
    | nil =>
        exact fun offset₁ => .ok (Nat.le_add_right _ _)
    | cons file files ih =>
        intro offset₁
        have hbytes : offset₁ + namesBytes (file :: files) = offset₁ + (file.bytes.length + 1) + namesBytes files := by
          rw [namesBytes, List.map_cons, List.sum_cons, ← namesBytes, ← Nat.add_assoc]
        rw [List.foldlM_cons, hbytes]
        exact (linearAllocate_below delta offset₁ _ Nat.one_pos).bind fun offset₂ _ => ih offset₂
  exact hfold includedFiles offset₁

/-! ### The rehash -/

/-- The chains after `ScanCachePrepareInsert`. -/
def preparedChains (t : ScanTable) (chains : List (List Nat)) : List (List Nat) :=
  if t.table.length > 0 ∧ 0x100 * t.recordCount / t.table.length < 0xc0 then chains
  else relinked (records t.nodes) (max (nextPowerOfTwo (t.table.length + 1)) 64) chains

theorem newSize_spec {oldSize : Nat} (hle : oldSize + 1 ≤ 2 ^ 31) :
    ∃ k, 6 ≤ k ∧ max (nextPowerOfTwo (oldSize + 1)) 64 = 2 ^ k := by
  obtain ⟨k, -, hk, -⟩ := nextPowerOfTwo_spec (Nat.succ_pos oldSize) hle
  rw [hk]
  rcases Nat.lt_or_ge k 6 with hlt | hge
  · have hpow : 2 ^ k ≤ 2 ^ 6 := Nat.pow_le_pow_right Nat.two_pos hlt.le
    exact ⟨6, le_rfl, max_eq_right hpow⟩
  · have hpow : 2 ^ 6 ≤ 2 ^ k := Nat.pow_le_pow_right Nat.two_pos hge
    exact ⟨k, hge, max_eq_left hpow⟩

theorem Inv.prepareInsert_spec (h : Inv t chains) : ∃ t', t.prepareInsert = .ok t' ∧ Inv t' (preparedChains t chains) ∧
    records t'.nodes = records t.nodes ∧ t'.nodes.length = t.nodes.length ∧ t'.offset = t.offset ∧
    0 < t'.table.length := by
  have hcount : t.recordCount ≤ 64 * 1024 * 1024 / 48 := by
    have hroom := h.room
    rw [h.count]
    simp only [sizeofRecord] at hroom
    omega
  have hmod : 0x100 * t.recordCount % 2 ^ 32 = 0x100 * t.recordCount := Nat.mod_eq_of_lt (by omega)
  by_cases hload : t.table.length > 0 ∧ 0x100 * t.recordCount / t.table.length < 0xc0
  · have hsame : t.prepareInsert = .ok t := by
      rw [prepareInsert]
      simp only [hmod, if_pos hload]
    rw [preparedChains, if_pos hload]
    exact ⟨t, hsame, h, rfl, rfl, rfl, hload.1⟩
  have hle : t.table.length + 1 ≤ 2 ^ 31 := by
    rcases Nat.eq_zero_or_pos t.table.length with hzero | hpos
    · omega
    · have hfull : 0xc0 ≤ 0x100 * t.recordCount / t.table.length := by
        by_contra hlt
        exact hload ⟨hpos, by omega⟩
      have hmul := (Nat.le_div_iff_mul_le hpos).mp hfull
      omega
  obtain ⟨k, hk, hsize⟩ := newSize_spec hle
  have hpos : 0 < max (nextPowerOfTwo (t.table.length + 1)) 64 := by omega
  obtain ⟨nodes', newTable', hrun, hrecords, hlength, hlinked⟩ :=
    relink_spec hpos rfl h.linked (.replicate (next t.nodes) (max (nextPowerOfTwo (t.table.length + 1)) 64))
      List.length_replicate
      (by simpa using h.nodup) h.length_eq.le
  have hnodes : nodes'.length = t.nodes.length := by rw [← length_records, hrecords, length_records]
  have hperm := (@foldl_pushAddr_perm (records t.nodes) _ _ hpos chains.flatten
    (List.length_replicate (n := max (nextPowerOfTwo (t.table.length + 1)) 64) (a := []))).2
  rw [preparedChains, if_neg hload]
  refine ⟨{ t with nodes := nodes', table := newTable' }, ?_, ?_, hrecords, hnodes, rfl, hlength ▸ hpos⟩
  · rw [prepareInsert]
    simp only [hmod, if_neg hload, hrun]
    rfl
  · refine ⟨hlinked, ?_, ?_, hrecords ▸ h.keys, .inr ⟨k, hk, hlength.trans hsize⟩, h.count.trans hnodes.symm, ?_⟩
    · rw [hnodes]
      refine hperm.trans ?_
      simpa using h.addrs
    · rw [hrecords, hlength]
      exact (atHome_replicate _ _ _).foldl _
    · rw [hnodes]
      exact h.room

/-! ### Insertions -/

def inserted (rs : List ScanRecord) (record : ScanRecord) : List ScanRecord :=
  match rs.find? fun r => r.key = record.key with
  | none => rs ++ [record]
  | some old =>
      if old.fileTimestamp = record.fileTimestamp then rs else rs.map fun r => if r.key = record.key then record else r

theorem home_append {a : Nat} (ha : a < rs.length) (record : ScanRecord) :
    home (rs ++ [record]) size a = home rs size a := by
  rw [home, home, List.getElem?_append_left ha]

theorem AtHome.congr {rs' : List ScanRecord} (h : AtHome rs size chains)
    (heq : ∀ a ∈ chains.flatten, home rs' size a = home rs size a) :
    AtHome rs' size chains := by
  intro i chain hchain a ha
  rw [heq a (List.mem_flatten.mpr ⟨chain, List.mem_of_getElem? hchain, ha⟩)]
  exact h i chain hchain a ha

/-- A new record is put in front of its chain. -/
theorem Inv.append (h : Inv t chains) (hpos : 0 < t.table.length) {record : ScanRecord}
    (hnew : ∀ r ∈ records t.nodes, r.key ≠ record.key) {offset : Nat} (hoffset : t.offset + sizeofRecord ≤ offset)
    (hle : offset ≤ 64 * 1024 * 1024) :
    Inv { nodes := t.nodes ++ [⟨record, t.table[tableIndex t.table.length record.key]?.join⟩]
          table := t.table.set (tableIndex t.table.length record.key) (some t.nodes.length)
          recordCount := (t.recordCount + 1) % 2 ^ 32
          offset := offset }
      (pushAddr (records t.nodes ++ [record]) t.table.length chains t.nodes.length) := by
  set index := tableIndex t.table.length record.key with hindex
  set node : ScanNode := ⟨record, t.table[index]?.join⟩ with hnode
  have hrecords : records (t.nodes ++ [node]) = records t.nodes ++ [record] := by simp [records, hnode]
  have hhome : home (records t.nodes ++ [record]) t.table.length t.nodes.length = index := by
    rw [home, ← length_records, List.getElem?_concat_length]
    rfl
  have hmem : t.nodes.length ∉ chains.flatten := fun hmem => absurd (h.mem_flatten.mp hmem) (Nat.lt_irrefl _)
  have hself : next (t.nodes ++ [node]) t.nodes.length = some t.table[index]?.join := by
    rw [next, List.getElem?_concat_length]
    rfl
  have hother : ∀ b, b ≠ t.nodes.length → next (t.nodes ++ [node]) b = next t.nodes b := by
    intro b hb
    rw [next, next]
    rcases Nat.lt_or_gt_of_ne hb with hlt | hgt
    · rw [List.getElem?_append_left hlt]
    · rw [List.getElem?_eq_none (by simp; omega), List.getElem?_eq_none (by omega)]
  have hlength : (t.table.set index (some t.nodes.length)).length = t.table.length := List.length_set
  have hroom := h.room
  have hcount := h.count
  refine ⟨?_, ?_, ?_, ?_, ?_, ?_, ?_⟩
  · rw [pushAddr, hhome]
    exact h.linked.push index hmem hself hother
  · have hi : home (records t.nodes ++ [record]) t.table.length t.nodes.length < chains.length := by
      rw [← h.linked.length_eq]
      exact home_lt hpos _
    refine (flatten_modify_cons _ chains hi).trans ?_
    rw [List.length_append, List.length_singleton, List.range_succ]
    exact (h.addrs.cons _).trans (List.perm_append_singleton _ _).symm
  · rw [hrecords, hlength]
    refine AtHome.push (h.atHome.congr fun a ha => ?_) _
    exact home_append (by rw [length_records]; exact h.mem_flatten.mp ha) record
  · rw [hrecords, List.map_append, List.map_singleton, List.nodup_append_comm, List.singleton_append, List.nodup_cons]
    refine ⟨fun hkey => ?_, h.keys⟩
    obtain ⟨r, hr, hkey⟩ := List.mem_map.mp hkey
    exact hnew r hr hkey
  · rw [hlength]
    rcases h.size with hnil | hsize
    · rw [hnil] at hpos
      cases hpos
    · exact .inr hsize
  · rw [List.length_append, List.length_singleton, ← hcount]
    simp only [sizeofRecord] at hroom
    exact Nat.mod_eq_of_lt (by omega)
  · rw [List.length_append, List.length_singleton, Nat.mul_succ]
    exact ⟨(Nat.add_le_add_right hroom.1 _).trans hoffset, hle⟩

theorem Inv.modify (h : Inv t chains) {a : Nat} {old record : ScanRecord} (hold : (records t.nodes)[a]? = some old)
    (hkey : old.key = record.key) {offset : Nat} (hoffset : t.offset ≤ offset) (hle : offset ≤ 64 * 1024 * 1024) :
    records (t.nodes.modify a fun node =>
    { node with fileTimestamp := record.fileTimestamp, includes := record.includes }) =
      (records t.nodes).map (fun r => if r.key = record.key then record else r) ∧
    Inv { t with
          nodes := t.nodes.modify a fun node =>
            { node with fileTimestamp := record.fileTimestamp, includes := record.includes }
          offset := offset } chains := by
  set f : ScanNode → ScanNode :=
    fun node => { node with fileTimestamp := record.fileTimestamp, includes := record.includes } with hf
  have hrecords : records (t.nodes.modify a f) = (records t.nodes).map fun r => if r.key = record.key then record
    else r := by
    refine List.ext_getElem? fun b => ?_
    rw [getElem?_records, List.getElem?_modify, List.getElem?_map, getElem?_records]
    cases hb : t.nodes[b]? with
    | none => rfl
    | some node =>
        have hb' : (records t.nodes)[b]? = some node.toScanRecord := by rw [getElem?_records, hb]; rfl
        simp only [Option.map_eq_map, Option.map_some, Option.some.injEq]
        by_cases hab : a = b
        · subst hab
          rw [hold, Option.some.injEq] at hb'
          rw [if_pos rfl, if_pos (hb' ▸ hkey), hf]
          simp only [← hb', hkey]
        · have hne : node.key ≠ record.key := by
            intro heq
            exact hab (h.addr_eq hold hb' (hkey.trans heq.symm))
          rw [if_neg hab, if_neg hne]
  have hnext : ∀ b, next (t.nodes.modify a f) b = next t.nodes b := by
    intro b
    rw [next, next, List.getElem?_modify]
    cases t.nodes[b]? with
    | none => rfl
    | some node =>
        simp only [Option.map_eq_map, Option.map_some]
        split_ifs <;> rfl
  have hkeys : (records (t.nodes.modify a f)).map ScanRecord.key = (records t.nodes).map ScanRecord.key := by
    rw [hrecords, List.map_map]
    refine List.map_congr_left fun r _ => ?_
    simp only [Function.comp_apply]
    split_ifs with heq
    · exact heq.symm
    · rfl
  have hhome : ∀ b, home (records (t.nodes.modify a f)) t.table.length b = home (records t.nodes) t.table.length b := by
    intro b
    have hb := congrArg (fun l : List HashDigest => l[b]?) hkeys
    simp only [List.getElem?_map] at hb
    have hcomp := congrArg (Option.map (tableIndex t.table.length)) hb
    simp only [Option.map_map] at hcomp
    exact congrArg (fun o => Option.getD o 0) hcomp
  refine ⟨hrecords, h.linked.congr fun b _ => hnext b, ?_, h.atHome.congr fun b _ => hhome b, hkeys ▸ h.keys, h.size,
    ?_, ?_⟩
  · rw [List.length_modify]
    exact h.addrs
  · rw [List.length_modify]
    exact h.count
  · rw [List.length_modify]
    exact ⟨h.room.1.trans hoffset, hle⟩

/-! ### The table without pointers -/

/-- The records of the chains. -/
def shown (rs : List ScanRecord) (chains : List (List Nat)) : List (List ScanRecord) :=
  chains.map fun chain => chain.filterMap fun a => rs[a]?

theorem map_modify {α β : Type} (l : List α) (i : Nat) {f : α → α} {g : α → β} (f' : β → β)
    (h : ∀ a, g (f a) = f' (g a)) :
    (l.modify i f).map g = (l.map g).modify i f' := by
  refine List.ext_getElem? fun j => ?_
  simp only [List.getElem?_map, List.getElem?_modify, Option.map_eq_map, Option.map_map]
  congr 1
  funext a
  simp only [Function.comp_apply]
  split_ifs
  · exact h a
  · rfl

theorem shown_pushAddr (a : Nat) (hlength : chains.length = size) :
    shown rs (pushAddr rs size chains a) = rs[a]?.toList.foldl ScanCache.link (shown rs chains) := by
  rw [shown, pushAddr]
  cases hr : rs[a]? with
  | none =>
      rw [map_modify chains _ id fun chain => by rw [List.filterMap_cons, hr]; rfl, List.modify_id]
      rfl
  | some r =>
      rw [map_modify chains _ (r :: ·) fun chain => by rw [List.filterMap_cons, hr]]
      have hhome : home rs size a = tableIndex (shown rs chains).length r.key := by
        rw [home, hr, shown, List.length_map, hlength]
        rfl
      rw [hhome]
      rfl

theorem shown_foldl (addrs : List Nat) (hlength : chains.length = size) :
    shown rs (addrs.foldl (pushAddr rs size) chains) = (addrs.filterMap fun a => rs[a]?).foldl ScanCache.link
    (shown rs chains) := by
  induction addrs generalizing chains with
  | nil => rfl
  | cons a addrs ih =>
      have hlength' : (pushAddr rs size chains a).length = size := by rw [pushAddr, List.length_modify, hlength]
      rw [List.foldl_cons, ih hlength', shown_pushAddr a hlength, List.filterMap_cons]
      cases rs[a]? with
      | none => rfl
      | some r => rfl

theorem flatten_shown (rs : List ScanRecord) (chains : List (List Nat)) :
    (shown rs chains).flatten = chains.flatten.filterMap fun a => rs[a]? := by
  rw [shown, List.filterMap_flatten]

/-- The table with pointers and the table without them. -/
structure Shows (t : ScanTable) (chains : List (List Nat)) (c : ScanCache) : Prop where
  table : c.table = shown (records t.nodes) chains
  recordCount : c.recordCount = t.recordCount

variable {c : ScanCache}

theorem Shows.length_table (h : Inv t chains) (hc : Shows t chains c) : c.table.length = t.table.length := by
  rw [hc.table, shown, List.length_map, h.linked.length_eq]

theorem Shows.lookupDynamic_eq (h : Inv t chains) (hc : Shows t chains c) (key : HashDigest) :
    ∃ found, t.lookupDynamic key = .ok found ∧ c.lookupDynamic key = found.bind fun a => (records t.nodes)[a]? := by
  obtain ⟨found, hfound, hspec⟩ := h.lookupDynamic_spec key
  refine ⟨found, hfound, ?_⟩
  have hmem : ∀ r ∈ c.table.flatten, ∃ a : Nat, (records t.nodes)[a]? = some r := by
    intro r hr
    rw [hc.table, flatten_shown, List.mem_filterMap] at hr
    obtain ⟨a, -, hr⟩ := hr
    exact ⟨a, hr⟩
  cases hlookup : c.lookupDynamic key with
  | some r =>
      obtain ⟨hr, hkey⟩ := ScanCache.lookupDynamic_mem hlookup
      obtain ⟨a, ha⟩ := hmem r hr
      rw [(hspec a).mpr ⟨r, ha, hkey⟩, Option.bind_some, ha]
  | none =>
      cases found with
      | none => rfl
      | some a =>
          exfalso
          obtain ⟨r, hr, hkey⟩ := (hspec a).mp rfl
          obtain ⟨hlt, -⟩ := List.getElem?_eq_some_iff.mp hr
          rw [length_records] at hlt
          obtain ⟨chain, hchain, ha⟩ := List.mem_flatten.mp (h.mem_flatten.mpr hlt)
          obtain ⟨i, hi⟩ := List.getElem?_of_mem hchain
          have hhome := h.atHome i chain hi a ha
          rw [home, hr, Option.map_some, Option.getD_some, ← hc.length_table h, hkey] at hhome
          have hget : c.table[tableIndex c.table.length key]? =
            some (chain.filterMap fun a => (records t.nodes)[a]?) := by
            rw [hhome, hc.table, shown, List.getElem?_map, hi]
            rfl
          have hpos : c.table.length > 0 := by
            obtain ⟨hlt, -⟩ := List.getElem?_eq_some_iff.mp hget
            omega
          rw [ScanCache.lookupDynamic, if_pos hpos, List.getD_eq_getElem?_getD, hget, Option.getD_some] at hlookup
          have hnone := List.find?_eq_none.mp hlookup r (List.mem_filterMap.mpr ⟨a, ha, hr⟩)
          exact hnone (decide_eq_true hkey)

theorem Shows.prepareInsert (h : Inv t chains) (hc : Shows t chains c) {t' : ScanTable}
    (hrecords : records t'.nodes = records t.nodes) (hcount : t'.recordCount = t.recordCount) :
    Shows t' (preparedChains t chains) c.prepareInsert := by
  have hlength := hc.length_table h
  rw [preparedChains, ScanCache.prepareInsert]
  simp only [hlength, hc.recordCount]
  split_ifs with hload
  · exact ⟨by rw [hrecords, hc.table], by rw [hcount, hc.recordCount]⟩
  · refine ⟨?_, by rw [hcount, ← hc.recordCount]⟩
    rw [hrecords, relinked, shown_foldl _ List.length_replicate, hc.table, flatten_shown]
    simp [shown]

/-- What an insertion does, unless the allocator is full: the record of the key is put in front of its chain or
written over, as in the table without pointers. -/
theorem Inv.insert_spec (h : Inv t chains) (hc : Shows t chains c) (delta : Nat) (op : ScanInsert) :
    Ends (insert delta t op.key op.timestamp op.includedFiles) fun t' =>
      records t'.nodes = inserted (records t.nodes) (newRecord op.key op.timestamp op.includedFiles) ∧
      ∃ chains', Inv t' chains' ∧ Shows t' chains' (c.insert op.key op.timestamp op.includedFiles) := by
  obtain ⟨found, hfound, hsame⟩ := hc.lookupDynamic_eq h op.key
  obtain ⟨found', hfound', hspec⟩ := h.lookupDynamic_spec op.key
  rw [hfound, Outcome.ok.injEq] at hfound'
  subst hfound'
  obtain ⟨t₁, hprepare, h₁, hrecords, hnodes, hoffset, hpos⟩ := h.prepareInsert_spec
  have hcount : t₁.recordCount = t.recordCount := by rw [h₁.count, h.count, hnodes]
  have hc₁ := hc.prepareInsert h hrecords hcount
  set record := newRecord op.key op.timestamp op.includedFiles with hrecord
  rw [insert, hfound, Outcome.ok_bind]
  cases found with
  | none =>
      -- a key without a record
      have hnew : ∀ r ∈ records t.nodes, r.key ≠ record.key := by
        intro r hr hkey
        obtain ⟨a, hr⟩ := List.getElem?_of_mem hr
        cases (hspec a).mpr ⟨r, hr, hkey⟩
      have hinserted : inserted (records t.nodes) record = records t.nodes ++ [record] := by
        have hnone : ((records t.nodes).find? fun r => r.key = record.key) = none :=
          List.find?_eq_none.mpr fun r hr => by simpa using hnew r hr
        rw [inserted, hnone]
      simp only [insertFresh, hprepare, Outcome.ok_bind]
      refine (linearAllocate_spec delta t₁.offset sizeofRecord (by decide)).bind fun offset hoffset₁ => ?_
      refine (allocateIncludes_spec delta offset op.includedFiles).bind fun offset' hoffset₂ => ?_
      have hinv := h₁.append hpos (hrecords ▸ hnew) (hoffset₁.1.trans hoffset₂.1) hoffset₂.2
      have hrecords' : records (t₁.nodes ++ [⟨record, t₁.table[tableIndex t₁.table.length record.key]?.join⟩]) =
          records t.nodes ++ [record] := by
        rw [← hrecords]
        simp [records]
      refine .inr ⟨_, rfl, hrecords'.trans hinserted.symm, _, hinv, ?_, ?_⟩
      · simp only [ScanCache.insert, hsame, Option.bind_none]
        rw [hrecords', hc₁.table, hrecords, shown_pushAddr _ h₁.linked.length_eq.symm, ← length_records, hrecords,
          List.getElem?_concat_length]
        have hshown : shown (records t.nodes ++ [record]) (preparedChains t chains) =
          shown (records t.nodes) (preparedChains t chains) := by
          refine List.map_congr_left fun chain hchain => List.filterMap_congr fun a ha => ?_
          have hlt : a < t₁.nodes.length := h₁.mem_flatten.mp (List.mem_flatten.mpr ⟨chain, hchain, ha⟩)
          rw [hnodes, ← length_records] at hlt
          exact List.getElem?_append_left hlt
        rw [hshown]
        rfl
      · simp only [ScanCache.insert, hsame, Option.bind_none]
        have hmod : (t₁.recordCount + 1) % 2 ^ 32 = t₁.recordCount + 1 := by
          have hlast := hinv.count
          simp only [List.length_append, List.length_singleton] at hlast
          rw [hlast, h₁.count]
        rw [hmod, hc₁.recordCount]
  | some a =>
      obtain ⟨old, hold, hkey⟩ := (hspec a).mp rfl
      obtain ⟨node, hnode, rfl⟩ : ∃ node, t.nodes[a]? = some node ∧ node.toScanRecord = old := by
        rw [getElem?_records] at hold
        exact Option.map_eq_some_iff.mp hold
      have hfind : (records t.nodes).find? (fun r => r.key = record.key) = some node.toScanRecord := by
        cases hfind : (records t.nodes).find? fun r => r.key = record.key with
        | none => exact absurd (decide_eq_true hkey) (List.find?_eq_none.mp hfind _ (List.mem_of_getElem? hold))
        | some r =>
            obtain ⟨b, hb⟩ := List.getElem?_of_mem (List.mem_of_find?_eq_some hfind)
            have hkey' : r.key = record.key := by simpa using List.find?_some hfind
            rw [← h.addr_eq hold hb (hkey.trans hkey'.symm), hold] at hb
            exact hb.symm
      have hlookup : c.lookupDynamic op.key = some node.toScanRecord := by rw [hsame, Option.bind_some, hold]
      simp only [hnode]
      by_cases htime : node.fileTimestamp = op.timestamp
      · -- nothing to do
        rw [if_pos htime]
        refine .inr ⟨t, rfl, ?_, chains, h, ?_⟩
        · rw [inserted, hfind]
          exact (if_pos htime).symm
        · simpa only [ScanCache.insert, hlookup, if_pos htime] using hc
      · rw [if_neg htime]
        simp only [overwrite, hprepare, Outcome.ok_bind]
        refine (allocateIncludes_spec delta t₁.offset op.includedFiles).bind fun offset hoffset₁ => ?_
        have hkey' : node.toScanRecord.key = record.key := hkey
        obtain ⟨hmodify, hinv⟩ := h₁.modify (hrecords ▸ hold) hkey' hoffset₁.1 hoffset₁.2
        refine .inr ⟨_, rfl, ?_, _, hinv, ?_, ?_⟩
        · rw [hmodify, hrecords, inserted, hfind]
          exact (if_neg htime).symm
        · simp only [ScanCache.insert, hlookup, if_neg htime]
          rw [hmodify, hc₁.table, shown, shown, List.map_map]
          refine List.map_congr_left fun chain _ => ?_
          rw [Function.comp_apply, List.map_filterMap]
          refine List.filterMap_congr fun b _ => ?_
          rw [List.getElem?_map]
          rfl
        · simp only [ScanCache.insert, hlookup, if_neg htime]
          exact hc₁.recordCount

/-- The most that an insertion takes from the allocator, which aligns the record and the array. -/
def insertBytes (op : ScanInsert) :
    Nat := sizeofRecord + 7 + (sizeofFileAndHash * op.includedFiles.length + 7 + namesBytes op.includedFiles)

theorem Inv.insert_below (h : Inv t chains) (delta : Nat) (op : ScanInsert) :
    Below delta (t.offset + insertBytes op) offset (insert delta t op.key op.timestamp op.includedFiles) := by
  obtain ⟨found, hfound, hspec⟩ := h.lookupDynamic_spec op.key
  obtain ⟨t₁, hprepare, -, -, -, hoffset, -⟩ := h.prepareInsert_spec
  have hprepared : Below delta t.offset offset t.prepareInsert := by
    rw [hprepare]
    exact .ok hoffset.le
  have hincludes : ∀ offset, Below delta
    (offset + (sizeofFileAndHash * op.includedFiles.length + 7 + namesBytes op.includedFiles)) id
      (allocateIncludes delta offset op.includedFiles) := by
    intro offset
    rw [← Nat.add_assoc]
    exact allocateIncludes_below delta offset op.includedFiles
  have halign : 0 < 8 := by decide
  rw [insert, hfound, Outcome.ok_bind]
  cases found with
  | none =>
      refine hprepared.bind fun t' _ => ?_
      rw [insertBytes, ← Nat.add_assoc]
      exact (linearAllocate_below delta t'.offset _ halign).bind fun offset₁ _ => (hincludes offset₁).bind_pure
        fun _ => rfl
  | some a =>
      obtain ⟨r, hr, -⟩ := (hspec a).mp rfl
      obtain ⟨node, hnode, -⟩ := Option.map_eq_some_iff.mp ((getElem?_records _ _).symm.trans hr)
      simp only [hnode]
      split_ifs
      · exact .ok (Nat.le_add_right _ _)
      · refine Below.mono ?_ (Nat.add_le_add_left (Nat.le_add_left _ _) t.offset)
        exact hprepared.bind fun t' _ => (hincludes t'.offset).bind_pure fun _ => rfl

/-! ### Sequences of insertions -/

/-- The record of the last insertion for a key whose timestamp was not the one stored before it. -/
def remembered (key : HashDigest) (ops : List ScanInsert) : Option ScanRecord :=
  ops.foldl (fun stored op =>
    if op.key ≠ key ∨ stored.any (·.fileTimestamp = op.timestamp) then stored
    else some (newRecord op.key op.timestamp op.includedFiles)) none

theorem find?_inserted (rs : List ScanRecord) (record : ScanRecord) (key : HashDigest) :
    (inserted rs record).find? (fun r => r.key = key) =
      if record.key ≠ key ∨ (rs.find? fun r => r.key = key).any
      (·.fileTimestamp = record.fileTimestamp) then rs.find? fun r => r.key = key
      else some record := by
  -- a record is only ever put in the place of one with its key
  have hreplace : ∀ (rs : List ScanRecord), record.key ≠ key →
      (rs.map fun r => if r.key = record.key then record else r).find? (fun r => r.key = key) = rs.find?
        fun r => r.key = key := by
    intro rs hne
    induction rs with
    | nil => rfl
    | cons r rs ih =>
        rw [List.map_cons, List.find?_cons, List.find?_cons, ih]
        split_ifs with heq
        · rw [heq, decide_eq_false hne]
        · rfl
  by_cases hkey : record.key = key
  · subst hkey
    simp only [ne_eq, not_true_eq_false, false_or, inserted]
    cases hfind : rs.find? fun r => r.key = record.key with
    | none => simp [List.find?_append, hfind]
    | some old =>
        simp only [Option.any_some, decide_eq_true_eq]
        split_ifs with htime
        · exact hfind
        · rw [List.find?_map]
          have hsame : ((fun r : ScanRecord => decide (r.key = record.key)) ∘ fun r => if r.key = record.key then
            record else r) =
              fun r => decide (r.key = record.key) := by
            funext r
            simp only [Function.comp_apply]
            split_ifs with heq
            · simp [heq]
            · rfl
          rw [hsame, hfind, Option.map_some, if_pos (by simpa using List.find?_some hfind)]
  · rw [if_pos (.inl hkey), inserted]
    cases hfind : rs.find? fun r => r.key = record.key with
    | none => simp [List.find?_append, hkey]
    | some old =>
        simp only
        split_ifs with htime
        · rfl
        · exact hreplace rs hkey

theorem mem_keys_inserted (rs : List ScanRecord) (record : ScanRecord) (key : HashDigest) :
    key ∈ (inserted rs record).map ScanRecord.key ↔ key ∈ rs.map ScanRecord.key ∨ key = record.key := by
  rw [inserted]
  cases hfind : rs.find? fun r => r.key = record.key with
  | none => simp
  | some old =>
      have hold : record.key ∈ rs.map ScanRecord.key :=
        List.mem_map.mpr ⟨old, List.mem_of_find?_eq_some hfind, by simpa using List.find?_some hfind⟩
      have hmem : key ∈ rs.map ScanRecord.key ↔ key ∈ rs.map ScanRecord.key ∨ key = record.key := by
        refine ⟨.inl, ?_⟩
        rintro (h | rfl)
        · exact h
        · exact hold
      simp only
      split_ifs with htime
      · exact hmem
      · have hkeys : (rs.map fun r => if r.key = record.key then record else r).map ScanRecord.key =
          rs.map ScanRecord.key := by
          rw [List.map_map]
          refine List.map_congr_left fun r _ => ?_
          simp only [Function.comp_apply]
          split_ifs with heq
          · exact heq.symm
          · rfl
        rw [hkeys]
        exact hmem

/-- What a sequence of insertions comes to, unless the allocator is full. -/
theorem run_spec (delta : Nat) (frozenData : Option (List FrozenRecord)) (ops : List ScanInsert) :
    Ends (run delta ops) fun t => ∃ chains, Inv t chains ∧
      Shows t chains (ops.foldl (fun c op => c.insert op.key op.timestamp op.includedFiles)
      (ScanCache.init frozenData)) ∧
      (∀ key, (records t.nodes).find? (fun r => r.key = key) = remembered key ops) ∧
      ∀ key, key ∈ (records t.nodes).map ScanRecord.key ↔ key ∈ ops.map ScanInsert.key := by
  induction ops using List.reverseRecOn with
  | nil => exact .inr ⟨init, rfl, [], inv_init, ⟨rfl, rfl⟩, fun _ => rfl, fun _ => .rfl⟩
  | append_singleton ops op ih =>
      rw [run, List.foldlM_append]
      refine ih.bind fun t h => ?_
      obtain ⟨chains, hinv, hshows, hfind, hkeys⟩ := h
      rw [List.foldlM_cons]
      refine (hinv.insert_spec hshows delta op).bind fun t' h' => .inr ⟨t', rfl, ?_⟩
      obtain ⟨hrecords, chains', hinv', hshows'⟩ := h'
      refine ⟨chains', hinv', ?_, fun key => ?_, fun key => ?_⟩
      · rw [List.foldl_append]
        exact hshows'
      · rw [hrecords, find?_inserted, hfind, remembered, remembered, List.foldl_append]
        rfl
      · rw [hrecords, mem_keys_inserted, hkeys, List.map_append, List.mem_append, List.map_singleton,
          List.mem_singleton]
        rfl

/-- The allocator is only full when the insertions ask for more bytes than it has. -/
theorem run_below (delta : Nat) (ops : List ScanInsert) :
    Below delta (ops.map insertBytes).sum offset (run delta ops) := by
  induction ops using List.reverseRecOn with
  | nil => exact .ok le_rfl
  | append_singleton ops op ih =>
      rw [run, List.foldlM_append, List.map_append, List.map_singleton, List.sum_append_nat, List.sum_singleton]
      refine ih.bind fun t ht => ?_
      rcases run_spec delta none ops with hfull | ⟨t', ht', chains, hinv, -⟩
      · cases ht.symm.trans hfull
      · obtain rfl := Outcome.ok.inj (ht.symm.trans ht')
        rw [List.foldlM_cons]
        exact (hinv.insert_below delta op).bind_pure fun _ => rfl

theorem filterMap_getElem?_range (rs : List ScanRecord) : ((List.range rs.length).filterMap fun a => rs[a]?) = rs := by
  induction rs using List.reverseRecOn with
  | nil => rfl
  | append_singleton rs r ih =>
      rw [List.length_append, List.length_singleton, List.range_succ, List.filterMap_append]
      congr 1
      · have hfront : ((List.range rs.length).filterMap fun a => (rs ++ [r])[a]?) = (List.range rs.length).filterMap
          fun a => rs[a]? :=
          List.filterMap_congr fun a ha => List.getElem?_append_left (List.mem_range.mp ha)
        exact hfront.trans ih
      · rw [List.filterMap_cons, List.getElem?_concat_length]
        rfl

/-- The table is a finite map: its chains end, every key that was inserted is in exactly one of them, and a
lookup finds what is remembered of a key. -/
structure FiniteMap (ops : List ScanInsert) (t : ScanTable) : Prop where
  lookup : ∀ key, ∃ found, t.lookupDynamic key = .ok found ∧ (found.isSome ↔ key ∈ ops.map ScanInsert.key) ∧
    (found.bind fun a => (records t.nodes)[a]?) = remembered key ops
  chains : ∃ chains, AllLinked (next t.nodes) t.table chains ∧ chains.flatten.Nodup ∧
    ((chains.flatten.filterMap fun a => (records t.nodes)[a]?).map ScanRecord.key).Perm (ops.map ScanInsert.key).dedup ∧
    ∀ i chain, chains[i]? = some chain → ∀ a ∈ chain, ∃ r, (records t.nodes)[a]? = some r ∧
      r.key.word0.toNat % 2 ^ 32 &&& (t.table.length - 1) = i
  tableSize : t.table.length = 0 ∨ ∃ k, t.table.length = 2 ^ k ∧ 64 ≤ t.table.length
  recordCount : t.recordCount = (ops.map ScanInsert.key).toFinset.card

/-- Every sequence of insertions leaves a finite map, unless it asks for more bytes than the allocator has and
fills it. -/
theorem finiteMap_run (delta : Nat) (ops : List ScanInsert) :
    (run delta ops = .error .outOfMemory ∧ allocatorSize delta < (ops.map insertBytes).sum) ∨
      ∃ t, run delta ops = .ok t ∧ FiniteMap ops t := by
  refine (run_spec delta none ops).imp (fun hfull => ⟨hfull, (run_below delta ops).full hfull⟩) ?_
  rintro ⟨t, hrun, chains, hinv, -, hfind, hkeys⟩
  have hperm : ((records t.nodes).map ScanRecord.key).Perm (ops.map ScanInsert.key).dedup := by
    refine (List.perm_ext_iff_of_nodup hinv.keys (List.nodup_dedup _)).mpr fun key => ?_
    rw [hkeys, List.mem_dedup]
  refine ⟨t, hrun, fun key => ?_, ⟨chains, hinv.linked, hinv.nodup, ?_, fun i chain hchain a ha => ?_⟩, ?_, ?_⟩
  · obtain ⟨found, hfound, hspec⟩ := hinv.lookupDynamic_spec key
    refine ⟨found, hfound, ?_, ?_⟩
    · rw [← hkeys, List.mem_map, Option.isSome_iff_exists]
      constructor
      · rintro ⟨a, ha⟩
        obtain ⟨r, hr, hkey⟩ := (hspec a).mp ha
        exact ⟨r, List.mem_of_getElem? hr, hkey⟩
      · rintro ⟨r, hr, hkey⟩
        obtain ⟨a, ha⟩ := List.getElem?_of_mem hr
        exact ⟨a, (hspec a).mpr ⟨r, ha, hkey⟩⟩
    · rw [← hfind]
      cases hrecord : (records t.nodes).find? fun r => r.key = key with
      | none =>
          cases found with
          | none => rfl
          | some a =>
              obtain ⟨r, hr, hkey⟩ := (hspec a).mp rfl
              exact absurd (decide_eq_true hkey) (List.find?_eq_none.mp hrecord r (List.mem_of_getElem? hr))
      | some r =>
          obtain ⟨a, ha⟩ := List.getElem?_of_mem (List.mem_of_find?_eq_some hrecord)
          rw [(hspec a).mpr ⟨r, ha, by simpa using List.find?_some hrecord⟩, Option.bind_some, ha]
  · refine List.Perm.trans ?_ hperm
    refine List.Perm.map _ ?_
    have hall : ((List.range t.nodes.length).filterMap fun a => (records t.nodes)[a]?) = records t.nodes := by
      rw [← length_records]
      exact filterMap_getElem?_range _
    exact (hinv.addrs.filterMap _).trans (.of_eq hall)
  · have hlt : a < t.nodes.length := hinv.mem_flatten.mp (List.mem_flatten.mpr ⟨chain, List.mem_of_getElem? hchain, ha⟩)
    rw [← length_records] at hlt
    have hhome := hinv.atHome i chain hchain a ha
    rw [home, List.getElem?_eq_getElem hlt] at hhome
    exact ⟨_, List.getElem?_eq_getElem hlt, hhome⟩
  · rcases hinv.size with hnil | ⟨k, hk, hsize⟩
    · exact .inl (by rw [hnil]; rfl)
    · refine .inr ⟨k, hsize, ?_⟩
      rw [hsize]
      exact Nat.pow_le_pow_right Nat.two_pos hk
  · rw [hinv.count, ← length_records, ← List.length_map (f := ScanRecord.key), hperm.length_eq, List.card_toFinset]

/-- So many keys, each with one header, and the first key once more with another timestamp. -/
def manyInserts (count : Nat) : List ScanInsert :=
  (List.range count).map (fun k => ⟨⟨.ofNat k, 0⟩, 1, [.lit "a.h"]⟩) ++ [⟨⟨0, 0⟩, 2, [.lit "b.h"]⟩]

/-- Behind 49 keys the table has been made twice as large. -/
theorem finiteMap_run_rehash :
    ∃ t, run 0 (manyInserts 49) = .ok t ∧ t.table.length = 128 ∧ FiniteMap (manyInserts 49) t := by
  have hroom : ((manyInserts 49).map insertBytes).sum ≤ allocatorSize 0 := by decide +kernel
  have htable : (fun t => t.table.length) <$> run 0 (manyInserts 49) = .ok 128 := by decide +kernel
  obtain ⟨t, hrun, hmap⟩ := (finiteMap_run 0 (manyInserts 49)).resolve_left fun h => absurd hroom (Nat.not_le.mpr h.2)
  rw [hrun] at htable
  exact ⟨t, hrun, Outcome.ok.inj htable, hmap⟩

end ScanTable

end Tundra
