import Mathlib.Algebra.Group.Nat.Defs
import Tundra.Terminal.Account
import Mathlib.Data.List.Pairwise

/-!
# The output of a job is in order

The buffers of a job are brought into order by their sort keys when they are flushed, with a comparison that
subtracts the keys. The keys of a job increase from call to call, so this is the order of the calls. It is so as
long as the keys tell the buffers apart: data that does not fit into one buffer is put into several with one
key, and two keys can be so far apart that the subtraction overflows.
-/

namespace Tundra.Terminal

open Transition

/-! ### Sorting -/

/-- A comparison that is one on this array. -/
structure Consistent (compare : LinebufPtr → LinebufPtr → Int32) (array : List LinebufPtr) : Prop where
  swap : ∀ l ∈ array, ∀ r ∈ array, 0 < compare l r → compare r l < 0
  trans : ∀ l ∈ array, ∀ m ∈ array, ∀ r ∈ array, compare l m ≤ 0 → compare m r ≤ 0 → compare l r ≤ 0

/-- What `qsort` does. Nothing is said about elements that are equal, or about comparisons that are none. -/
structure Sorts (qsort : Qsort) : Prop where
  permutes : Lines.Permutes qsort
  sorted : ∀ compare array, Consistent compare array → (qsort compare array).Pairwise fun l r => compare l r ≤ 0

/-- The keys tell the buffers apart, and the difference of two of them is an `int`. -/
def Distinguished (queue : List LineBuffer) : Prop :=
  queue.Pairwise fun l r => l.sortKey ≠ r.sortKey ∧ (l.sortKey.toInt - r.sortKey.toInt).natAbs < 2 ^ 31

variable {qsort : Qsort} {s s' : State} {a : Action} {tr es : List TerminalEvent} {lines : Lines} {jobId : Nat}

theorem distinguished_of_ne {queue : List LineBuffer} (h : Distinguished queue) {l r : LineBuffer} (hl : l ∈ queue)
    (hr : r ∈ queue) (hne : l ≠ r) :
    l.sortKey ≠ r.sortKey ∧ (l.sortKey.toInt - r.sortKey.toInt).natAbs < 2 ^ 31 := by
  have hsymm : Std.Symm fun l r : LineBuffer => l.sortKey ≠ r.sortKey ∧
    (l.sortKey.toInt - r.sortKey.toInt).natAbs < 2 ^ 31 :=
    ⟨fun l r h => ⟨h.1.symm, by omega⟩⟩
  exact List.Pairwise.forall h hl hr hne

theorem compareBuffers_toInt (h : Distinguished (lines.queuedOf jobId)) {l r : LinebufPtr}
    (hl : l ∈ lines.buffers jobId) (hr : r ∈ lines.buffers jobId) :
    (lines.compareBuffers l r).toInt = (lines.linebufs l).sortKey.toInt - (lines.linebufs r).sortKey.toInt := by
  have hrange : ((lines.linebufs l).sortKey.toInt - (lines.linebufs r).sortKey.toInt).natAbs < 2 ^ 31 := by
    by_cases hne : lines.linebufs l = lines.linebufs r
    · simp [hne]
    · exact (distinguished_of_ne h (List.mem_map_of_mem hl) (List.mem_map_of_mem hr) hne).2
  rw [Lines.compareBuffers, Int32.toInt_sub]
  exact Int.bmod_eq_of_le (by omega) (by omega)

theorem consistent_compareBuffers (h : Distinguished (lines.queuedOf jobId)) :
    Consistent lines.compareBuffers (lines.buffers jobId) where
  swap l hl r hr := by
    rw [Int32.lt_iff_toInt_lt, Int32.lt_iff_toInt_lt, compareBuffers_toInt h hl hr, compareBuffers_toInt h hr hl,
      Int32.toInt_zero]
    omega
  trans l hl m hm r hr := by
    rw [Int32.le_iff_toInt_le, Int32.le_iff_toInt_le, Int32.le_iff_toInt_le, compareBuffers_toInt h hl hm,
      compareBuffers_toInt h hm hr,
      compareBuffers_toInt h hl hr, Int32.toInt_zero]
    omega

/-- The buffers of a job are flushed in the order of their keys. -/
theorem sortedOf_pairwise (hsorts : Sorts qsort) (h : Distinguished (lines.queuedOf jobId)) :
    (lines.sortedOf qsort jobId).Pairwise fun l r => l.sortKey ≤ r.sortKey := by
  have hsorted := hsorts.sorted _ _ (consistent_compareBuffers h)
  rw [Lines.sortedOf, List.pairwise_map]
  refine List.Pairwise.imp_of_mem (fun {l r} hl hr hle => ?_) hsorted
  have hmem := hsorts.permutes lines.compareBuffers (lines.buffers jobId)
  rw [Int32.le_iff_toInt_le, compareBuffers_toInt h (hmem.mem_iff.mp hl) (hmem.mem_iff.mp hr), Int32.toInt_zero] at hle
  rw [Int32.le_iff_toInt_le]
  omega

theorem sortedOf_eq (hsorts : Sorts qsort) (h : Distinguished (lines.queuedOf jobId)) {order : List LineBuffer}
    (hperm : order.Perm (lines.queuedOf jobId)) (horder : order.Pairwise fun l r => l.sortKey ≤ r.sortKey) :
    lines.sortedOf qsort jobId = order := by
  have hsorted := sortedOf_pairwise hsorts h
  have hperm' := lines.sortedOf_perm hsorts.permutes jobId
  refine List.Perm.eq_of_pairwise (fun l r hl hr hle hge => ?_) hsorted horder (hperm'.trans hperm.symm)
  by_contra hne
  exact (distinguished_of_ne h (hperm'.mem_iff.mp hl) (hperm.mem_iff.mp hr) hne).1 (Int32.le_antisymm hle hge)

/-! ### Keys -/

/-- The keys that a job has used since it has exited last. -/
def keysStep (jobId : Nat) (keys : List Int32) : TerminalEvent → List Int32
  | .emit j sortKey _ _ => if j = jobId then keys ++ [sortKey] else keys
  | .exited j => if j = jobId then [] else keys
  | _ => keys

def keys (jobId : Nat) (tr : List TerminalEvent) : List Int32 := tr.foldl (keysStep jobId) []

/-- A call has a key that is greater than the keys of the calls before it. -/
def Increases (before : List TerminalEvent) : TerminalEvent → Prop
  | .emit jobId sortKey _ _ => ∀ key ∈ keys jobId before, key < sortKey
  | _ => True

instance (before : List TerminalEvent) : ∀ e, Decidable (Increases before e)
  | .emit jobId sortKey _ _ => List.decidableBAll (fun key => key < sortKey) (keys jobId before)
  | .take _ => inferInstanceAs (Decidable True)
  | .write _ _ _ => inferInstanceAs (Decidable True)
  | .release _ => inferInstanceAs (Decidable True)
  | .exited _ => inferInstanceAs (Decidable True)

/-- The keys of every job increase from call to call, up to its exit. -/
def KeysIncrease (tr : List TerminalEvent) : Prop := Along Increases [] tr

theorem keys_append (jobId : Nat) (tr es : List TerminalEvent) :
    keys jobId (tr ++ es) = es.foldl (keysStep jobId) (keys jobId tr) := List.foldl_append

theorem foldl_keysStep_writesOf (j jobId : Nat) (queue : List LineBuffer) (ks : List Int32) :
    (Lines.writesOf jobId queue).foldl (keysStep j) ks = ks := by
  induction queue with
  | nil => rfl
  | cons line queue ih => exact ih

structure KeysKnown (jobId : Nat) (s : State) (tr : List TerminalEvent) : Prop where
  queued : ∀ line ∈ s.lines.queuedOf jobId, line.sortKey ∈ keys jobId tr
  emitting : ∀ sortKey isStderr data, s.phase jobId = .emitting sortKey isStderr data →
    sortKey ∈ keys jobId tr ∧ ∀ key ∈ keys jobId tr, key ≤ sortKey

section Moves

variable {woken : Nat} {sortKey : Int32} {isStderr : Bool} {data : List UInt8} {events taken : List TerminalEvent}
  {lines' : Lines} {phase : Phase}

theorem calls_keys (hcall : Calls s a jobId sortKey isStderr data woken events) (hknown : KeysKnown jobId s tr)
    (hincrease : Along Increases tr events) :
    sortKey ∈ keys jobId (tr ++ events) ∧ (∀ key ∈ keys jobId (tr ++ events), key ≤ sortKey) ∧
    keys jobId tr ⊆ keys jobId (tr ++ events) := by
  cases hcall with
  | call hidle =>
      have hkeys : keys jobId (tr ++ [.emit jobId sortKey isStderr data]) = keys jobId tr ++ [sortKey] := by
        rw [keys_append]
        exact if_pos rfl
      rw [hkeys]
      refine ⟨by simp, fun key hkey => ?_, List.subset_append_left _ _⟩
      rcases List.mem_append.mp hkey with hkey | hkey
      · exact Int32.le_of_lt (hincrease.1 key hkey)
      · rw [List.mem_singleton.mp hkey]
        exact Int32.le_refl _
  | resume hphase =>
      rw [List.append_nil]
      obtain ⟨hmem, hle⟩ := hknown.emitting sortKey isStderr data hphase
      exact ⟨hmem, hle, List.Subset.refl _⟩

theorem emits_queued (hemits : Lines.Emits qsort woken jobId sortKey isStderr lines data lines' taken phase)
    (hpartition : lines.Partition) :
    ∀ line ∈ lines'.queuedOf jobId, line ∈ lines.queuedOf jobId ∨ line.sortKey = sortKey := by
  have hbuffered : ∀ {mid rest}, Lines.Buffered jobId sortKey isStderr lines data mid rest →
      ∀ line ∈ mid.queuedOf jobId, line ∈ lines.queuedOf jobId ∨ line.sortKey = sortKey := by
    intro mid rest h line hline
    obtain ⟨chunks, -, hqueued⟩ := (h.queued hpartition).own
    rw [hqueued, List.mem_append] at hline
    refine hline.imp_right fun hchunk => ?_
    obtain ⟨chunk, -, rfl⟩ := List.mem_map.mp hchunk
    rfl
  cases hemits with
  | done h => exact hbuffered h
  | sleep h hother => exact fun line hline => hbuffered h line hline
  | direct hdata howner => exact fun line hline => .inl hline
  | take hdata hnone =>
      rw [(Lines.takeTty_flushed qsort woken jobId lines).own]
      exact fun line hline => absurd hline List.not_mem_nil

theorem foldl_keysStep_taken
    (hemits : Lines.Emits qsort woken jobId sortKey isStderr s.lines data lines' taken phase) (j : Nat)
    (ks : List Int32) :
    taken.foldl (keysStep j) ks = ks := by
  rcases hemits.taken_eq with rfl | rfl
  · rfl
  · exact foldl_keysStep_writesOf j jobId _ ks

theorem foldl_keysStep_exitPrint (j jobId woken : Nat) (lines : Lines) (ks : List Int32) :
    (lines.exitPrint qsort woken jobId).2.1.foldl (keysStep j) ks = ks := by
  rw [Lines.exitPrint_events, List.foldl_append, List.foldl_append, foldl_keysStep_writesOf]
  split_ifs <;> rfl

theorem keys_of_ne {j : Nat} (hmoves : Moves qsort s a s' es) (hj : j ≠ a.jobId) : keys j (tr ++ es) = keys j tr := by
  rw [keys_append]
  cases hmoves with
  | emit hcall hemits =>
      rw [List.foldl_append, foldl_keysStep_taken hemits]
      cases hcall with
      | call hidle => exact if_neg (Ne.symm hj)
      | resume hphase => rfl
  | exitSleep hexit hother => rfl
  | exitPrint hexit htty => exact foldl_keysStep_exitPrint ..
  | print hphase => rfl
  | broadcast hphase => exact if_neg (Ne.symm hj)
  | wake jobId => rfl

theorem keysKnown_leave (hqueued : ∀ line ∈ lines'.queuedOf jobId, line.sortKey ∈ keys jobId tr)
    (hphase : ∀ sortKey isStderr data, phase ≠ .emitting sortKey isStderr data) :
    KeysKnown jobId ⟨lines', Function.update s.phase jobId phase⟩ tr := by
  refine ⟨hqueued, fun sortKey isStderr data hemitting => ?_⟩
  dsimp only at hemitting
  rw [Function.update_self] at hemitting
  exact absurd hemitting (hphase sortKey isStderr data)

theorem moves_keysKnown {j : Nat} (hmoves : Moves qsort s a s' es) (hpartition : s.lines.Partition) (howned : Owned s)
    (hincrease : Along Increases tr es) (h : KeysKnown j s tr) : KeysKnown j s' (tr ++ es) := by
  by_cases hj : j = a.jobId
  · cases hmoves with
    | @emit a jobId woken sortKey isStderr data events taken lines' phase hcall hemits =>
        obtain rfl := hj.trans hcall.jobId_eq
        obtain ⟨hmem, hle, hsubset⟩ := calls_keys hcall h (along_append.mp hincrease).1
        have hkeys : keys j (tr ++ (events ++ taken)) = keys j (tr ++ events) := by
          rw [← List.append_assoc, keys_append j (tr ++ events), foldl_keysStep_taken hemits]
        constructor
        · intro line hline
          rw [hkeys]
          rcases emits_queued hemits hpartition line hline with hold | hnew
          · exact hsubset (h.queued line hold)
          · exact hnew ▸ hmem
        · intro key isStderr' data' hphase
          rw [hkeys]
          dsimp only at hphase
          rw [Function.update_self] at hphase
          cases hemits with
          | sleep hbuffered hother =>
              cases hphase
              exact ⟨hmem, hle⟩
          | done | direct | take => cases hphase
    | exitSleep hexit hother =>
        obtain rfl := hj.trans hexit.jobId_eq
        rw [List.append_nil]
        exact keysKnown_leave h.queued (by simp)
    | @exitPrint a jobId woken hexit htty =>
        obtain rfl := hj.trans hexit.jobId_eq
        refine keysKnown_leave ?_ (by simp)
        rw [(s.lines.exitPrint_flushed qsort woken j).1]
        exact fun line hline => absurd hline List.not_mem_nil
    | @print jobId isStderr data hphase =>
        obtain rfl : j = jobId := hj
        refine keysKnown_leave (fun line hline => ?_) (by simp)
        rw [keys_append]
        exact h.queued line hline
    | @broadcast jobId hphase =>
        obtain rfl : j = jobId := hj
        have hnil : s.lines.condBroadcast.queuedOf j = [] := howned.signalling j hphase
        refine keysKnown_leave ?_ (by simp)
        rw [hnil]
        exact fun line hline => absurd hline List.not_mem_nil
    | wake jobId =>
        rw [List.append_nil]
        exact ⟨h.queued, h.emitting⟩
  · have huntouched := moves_untouched hmoves hpartition hj
    have hkeys : keys j (tr ++ es) = keys j tr := keys_of_ne hmoves hj
    refine ⟨fun line hline => ?_, fun sortKey isStderr data hphase => ?_⟩
    · rw [hkeys]
      exact h.queued line (huntouched.queued.mem_iff.mp hline)
    · rw [hkeys]
      exact h.emitting sortKey isStderr data (huntouched.phase ▸ hphase)

end Moves

/-! ### Runs -/

theorem calls_along {P : List TerminalEvent → TerminalEvent → Prop} {woken : Nat} {sortKey : Int32}
    {isStderr : Bool} {data : List UInt8} {events : List TerminalEvent}
    (hcall : Calls s a jobId sortKey isStderr data woken events) (hmoves : Moves qsort s a s' es)
    (h : Along P tr es) :
    Along P tr events := by
  cases hcall with
  | resume hphase => exact trivial
  | call hidle =>
      cases hmoves with
      | emit hcall hemits =>
          cases hcall with
          | call hidle => exact (along_append.mp h).1
      | exitSleep hexit hother => cases hexit
      | exitPrint hexit htty => cases hexit

/-- The buffers that a step flushes can be told apart by their keys. -/
def FlushesInOrder (s : State) (a : Action) :
    Prop := ∀ jobId, Flushes s a jobId → Distinguished (s.lines.queuedOf jobId)

/-- The pieces in the order of the calls: what is written, then what is queued. -/
def InOrder (pieces written : List (Bool × List UInt8)) (queue : List LineBuffer) : Prop :=
  ∃ order : List LineBuffer, order.Perm queue ∧ (order.Pairwise fun l r => l.sortKey ≤ r.sortKey) ∧
    pieces = written ++ order.map piece

theorem follows_inOrder (hsorts : Sorts qsort) (hflushes : FlushesInOrder s a) (hknown : ∀ jobId, KeysKnown jobId s tr)
    (hmoves : Moves qsort s a s' es) (hincrease : Along Increases tr es) : Follows qsort s a InOrder where
  perm hperm := by
    rintro ⟨order, horder, hsorted, hpieces⟩
    exact ⟨order, horder.trans hperm, hsorted, hpieces⟩
  queue {jobId woken sortKey isStderr data events pieces written} chunks hcall := by
    rintro ⟨order, horder, hsorted, rfl⟩
    obtain ⟨-, hle, hsubset⟩ := calls_keys hcall (hknown jobId) (calls_along hcall hmoves hincrease)
    refine ⟨order ++ chunks.map fun chunk => ⟨jobId, sortKey, isStderr, chunk⟩, horder.append_right _, ?_, ?_⟩
    · rw [List.pairwise_append, List.pairwise_map]
      refine ⟨hsorted, List.pairwise_of_forall fun _ _ => Int32.le_refl _, fun l hl r hr => ?_⟩
      obtain ⟨chunk, -, rfl⟩ := List.mem_map.mp hr
      exact hle _ (hsubset ((hknown jobId).queued l (horder.mem_iff.mp hl)))
    · rw [List.map_append, List.map_map, List.append_assoc]
      rfl
  flush {jobId pieces written} hflush := by
    rintro ⟨order, horder, hsorted, rfl⟩
    rw [sortedOf_eq hsorts (hflushes jobId hflush) horder hsorted]
    exact ⟨[], .nil, .nil, (List.append_nil _).symm⟩
  print x := by
    rintro ⟨order, horder, hsorted, rfl⟩
    rw [horder.eq_nil, List.map_nil, List.append_nil]
    exact ⟨[], .nil, .nil, (List.append_nil _).symm⟩

theorem reach_inOrder (hsorts : Sorts qsort) (h : Reach (terminal qsort) FlushesInOrder s tr)
    (hkeys : KeysIncrease tr) (j : Nat) :
    KeysKnown j s tr ∧ Accounts InOrder j s tr := by
  suffices hall : KeysIncrease tr → ∀ j, KeysKnown j s tr ∧ Accounts InOrder j s tr from hall hkeys j
  refine reach_moves (P := fun s tr => KeysIncrease tr → ∀ j, KeysKnown j s tr ∧ Accounts InOrder j s tr) ?_ ?_ h
  · intro _ j
    refine ⟨⟨fun line hline => ?_, fun sortKey isStderr data hphase => ?_⟩, [], rfl, [], .nil, .nil, rfl⟩
    · cases hline
    · cases hphase
  · intro s tr a s' es hreach hp hallowed hmoves hincrease j
    obtain ⟨hbefore, hes⟩ := along_append.mp hincrease
    rw [List.nil_append] at hes
    have hpartition := reach_partition hreach
    have howned := reach_owned hreach
    obtain ⟨hknown, haccounts⟩ := hp hbefore j
    have hfollows := follows_inOrder hsorts hallowed (fun j => (hp hbefore j).1) hmoves hes
    exact ⟨moves_keysKnown hmoves hpartition howned hes hknown,
      moves_account hmoves hpartition howned hfollows haccounts⟩

/-- The output of every job is in order, in every run in which the buffers can be told apart by their keys when
they are flushed: what is written is the beginning of what the job has emitted, and all of it when its exit
returns. -/
theorem output_in_order (hsorts : Sorts qsort) (h : Reach (terminal qsort) FlushesInOrder s tr)
    (hkeys : KeysIncrease tr) (jobId : Nat) :
    bytesOf (writes jobId tr) <+: bytesOf (emits jobId tr) ∧
      ∀ before after, tr = before ++ .exited jobId :: after → bytesOf (writes jobId before) = bytesOf
      (emits jobId before) := by
  constructor
  · obtain ⟨pieces, hbytes, order, -, -, rfl⟩ := (reach_inOrder hsorts h hkeys jobId).2
    rw [hbytes, bytesOf_append, List.append_assoc]
    exact List.prefix_append _ _
  · intro before after htr
    have hbefore : KeysIncrease before := by
      rw [KeysIncrease, htr] at hkeys
      exact (along_append.mp hkeys).1
    refine reach_exited (P := fun jobId tr => KeysIncrease tr → bytesOf (writes jobId tr) = bytesOf (emits jobId tr))
      ?_ h htr hbefore
    intro s tr jobId hreach hphase hkeys
    obtain ⟨pieces, hbytes, order, horder, -, rfl⟩ :=
      exited_accounts (reach_owned hreach) hphase (reach_inOrder hsorts hreach hkeys jobId).2
    rw [hbytes, horder.eq_nil, List.map_nil, List.append_nil]

/-- A comparison, on the elements of an array. -/
def Below (compare : LinebufPtr → LinebufPtr → Int32) (array : List LinebufPtr) (l r : { b // b ∈ array }) :
    Prop := compare l r ≤ 0

instance (compare : LinebufPtr → LinebufPtr → Int32) (array : List LinebufPtr) : DecidableRel (Below compare array) :=
  fun l r => inferInstanceAs (Decidable (compare l r ≤ 0))

theorem sorts_insertionSort : Sorts insertionSort where
  permutes := permutes_insertionSort
  sorted compare array h := by
    have htotal : Std.Total (Below compare array) := by
      refine ⟨fun l r => ?_⟩
      by_cases hle : compare l r ≤ 0
      · exact .inl hle
      · exact .inr (Int32.le_of_lt (h.swap l l.2 r r.2 (Int32.not_le.mp hle)))
    have htrans : IsTrans _ (Below compare array) := ⟨fun l m r => h.trans l l.2 m m.2 r r.2⟩
    have hsorted := List.pairwise_insertionSort (Below compare array) array.attach
    have hmap : (array.attach.insertionSort (Below compare array)).map Subtype.val = insertionSort compare array := by
      rw [List.map_insertionSort (Below compare array) (fun l r => compare l r ≤ 0) Subtype.val array.attach
        fun _ _ _ _ => Iff.rfl,
        List.attach_map_subtype_val]
      rfl
    rw [← hmap, List.pairwise_map]
    exact hsorted

instance (queue : List LineBuffer) : Decidable (Distinguished queue) := inferInstanceAs (Decidable (queue.Pairwise _))

instance (tr : List TerminalEvent) : Decidable (KeysIncrease tr) := inferInstanceAs (Decidable (Along Increases [] tr))

theorem flushesInOrder_of_distinguished (h : Distinguished (s.lines.queuedOf a.jobId)) : FlushesInOrder s a := by
  intro jobId hflushes
  cases hflushes with
  | emit hcall hdata hnone => exact hcall.jobId_eq ▸ h
  | exit hexit htty => exact hexit.jobId_eq ▸ h

/-- The exit of another job has changed the places of two buffers in the queue. -/
theorem output_in_order_swapped :
    ∃ s tr, Reach (terminal insertionSort) FlushesInOrder s tr ∧ writes 1 tr = [(false, [97]), (false, [98])] ∧
    bytesOf (writes 1 tr) <+: bytesOf (emits 1 tr) := by
  have hexec : (exec ((terminal insertionSort).restrict fun s a => decide (Distinguished (s.lines.queuedOf a.jobId)))
      [.emit 0 0 false [120] 0, .print 0, .emit 2 0 false [99] 0, .emit 1 0 false [97] 0, .emit 1 1 false [98] 0,
      .exit 0 0, .broadcast 0, .exit 2 0, .broadcast 2, .exit 1 0, .broadcast 1] ((terminal insertionSort).init, [])).map
      (fun c : State × List TerminalEvent => decide
        (KeysIncrease c.2 ∧ writes 1 c.2 = [(false, [97]), (false, [98])])) = some true := by
    decide +kernel
  obtain ⟨s, tr, hreach, hview⟩ := exists_reach_of_exec (fun _ _ _ => trivial) hexec
  obtain ⟨hkeys, hwrites⟩ := of_decide_eq_true hview
  have hreach := hreach.of_restrict fun s a h => flushesInOrder_of_distinguished (of_decide_eq_true h)
  exact ⟨s, tr, hreach, hwrites, (output_in_order sorts_insertionSort hreach hkeys 1).1⟩

/-- What `ExecuteProcess` emits. -/
def FromExecUnix : TerminalEvent → Prop
  | .emit _ sortKey _ data => (sortKey = -200 ∨ sortKey = -199 ∨ 0 ≤ sortKey) ∧ data.length ≤ 16383
  | _ => True

instance : ∀ e, Decidable (FromExecUnix e)
  | .emit _ sortKey _ data => inferInstanceAs
  (Decidable ((sortKey = -200 ∨ sortKey = -199 ∨ 0 ≤ sortKey) ∧ data.length ≤ 16383))
  | .take _ => inferInstanceAs (Decidable True)
  | .write _ _ _ => inferInstanceAs (Decidable True)
  | .release _ => inferInstanceAs (Decidable True)
  | .exited _ => inferInstanceAs (Decidable True)

/-- While another job owns the TTY, a job shows its annotation and fails: the message about the failure is
written first. -/
theorem failure_before_annotation :
    ¬∀ (qsort : Qsort) (s : State) (tr : List TerminalEvent), Sorts qsort → Reach (terminal qsort) anything s tr →
    KeysIncrease tr → (∀ e ∈ tr, FromExecUnix e) → ∀ jobId, bytesOf (writes jobId tr) <+: bytesOf (emits jobId tr) ∧
      ∀ before after, tr = before ++ .exited jobId :: after → bytesOf (writes jobId before) = bytesOf
      (emits jobId before) := by
  intro hall
  have hexec : (exec (terminal insertionSort)
    [.emit 0 0 false [120] 0, .print 0, .emit 1 (-200) false [97] 0, .emit 1 Int32.maxValue false [98] 0,
      .exit 0 0, .broadcast 0, .exit 1 0, .broadcast 1] ((terminal insertionSort).init, [])).map
      (fun c : State × List TerminalEvent => decide
        (KeysIncrease c.2 ∧ (∀ e ∈ c.2, FromExecUnix e) ∧ ¬bytesOf (writes 1 c.2) <+: bytesOf (emits 1 c.2))) = some true := by
    decide +kernel
  obtain ⟨s, tr, hreach, hview⟩ := exists_reach_of_exec (fun _ _ _ => trivial) hexec
  obtain ⟨hkeys, hexecUnix, hout⟩ := of_decide_eq_true hview
  exact hout (hall insertionSort s tr sorts_insertionSort hreach hkeys hexecUnix 1).1

end Tundra.Terminal
