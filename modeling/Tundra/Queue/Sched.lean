import Tundra.Queue.NodeInv
import Mathlib.Data.Finset.Card

/-!
# How a pass proceeds

What relates the nodes to each other: a node that has left `kBlocked` has its dependencies completed, a node
that waits has one that is not, the earlier passes are done and the later ones untouched, and the counters of
the queue count what they are named for. The counters and the waiting nodes look at a completed node as still
open while the thread that completed it has not let go of it.
-/

namespace Tundra.Spec

open Classical in
/-- The nodes of the current pass that are not completed, or completed by a thread that still has to count them. -/
noncomputable def openNodes (tbl : NodeTable) (a : State) : Finset Nat :=
  (Finset.range tbl.maxNodes).filter fun i => some (tbl.pass i) = a.currentPassIndex ∧
    (¬ a.Completed i ∨ ∃ t, a.Held t i)

open Classical in
noncomputable def failedNodes (tbl : NodeTable) (a : State) : Finset Nat :=
  (Finset.range tbl.maxNodes).filter fun i =>
    some (tbl.pass i) = a.currentPassIndex ∧ a.Completed i ∧ (a.nodes i).buildResult ≠ 0

/-- A node no thread, no list and no dependency has touched. -/
def State.Untouched (a : State) (i : Nat) : Prop :=
  (a.nodes i).queued = false ∧ (a.nodes i).active = false ∧ (a.nodes i).progress = .initial

structure Sched (tbl : NodeTable) (a : State) : Prop where
  ready : ∀ i < tbl.maxNodes, (a.nodes i).progress ≠ .initial →
    ((a.nodes i).progress = .blocked → (a.nodes i).queued = true ∨ (a.nodes i).active = true) → a.Ready tbl i
  early : ∀ p, a.currentPassIndex = some p → ∀ i < tbl.maxNodes, tbl.pass i < p → a.Completed i ∧
    (a.nodes i).buildResult = 0
  late : ∀ i < tbl.maxNodes, (∀ p, a.currentPassIndex = some p → p < tbl.pass i) → a.Untouched i
  begun : ∀ p, a.currentPassIndex = some p → ∀ i < tbl.maxNodes, tbl.pass i = p → ¬ a.Untouched i
  waits : ∀ i < tbl.maxNodes, (a.nodes i).queued = false → (a.nodes i).active = false →
    (a.nodes i).progress = .blocked →
    ¬ a.Ready tbl i ∨ ∃ t d, a.thread t = .advance d ∧ a.Completed d ∧ d ∈ tbl.deps i
  pending : a.pendingNodeCount = (openNodes tbl a).card
  failed : a.failedNodeCount = (failedNodes tbl a).card
  open_result : ∀ i < tbl.maxNodes, ¬ a.Completed i → (a.nodes i).buildResult = 0
  held_pass : ∀ t i, a.Held t i → some (tbl.pass i) = a.currentPassIndex

variable {tbl : NodeTable} {cfg : Config} {a a' : State} {i j t u p : Nat}

theorem mem_openNodes : i ∈ openNodes tbl a ↔
    i < tbl.maxNodes ∧ some (tbl.pass i) = a.currentPassIndex ∧ (¬ a.Completed i ∨ ∃ t, a.Held t i) := by
  simp [openNodes]

theorem mem_failedNodes : i ∈ failedNodes tbl a ↔
    i < tbl.maxNodes ∧ some (tbl.pass i) = a.currentPassIndex ∧ a.Completed i ∧ (a.nodes i).buildResult ≠ 0 := by
  simp [failedNodes]

/-- A step that leaves the nodes alone, lets every thread keep its node and stops no thread that has a completed
node in its hands. -/
theorem Sched.same (h : Sched tbl a) (hnodes : a'.nodes = a.nodes) (hpass : a'.currentPassIndex = a.currentPassIndex)
    (hpending : a'.pendingNodeCount = a.pendingNodeCount) (hfailed : a'.failedNodeCount = a.failedNodeCount)
    (hheld : ∀ t i, a'.Held t i ↔ a.Held t i)
    (hadvance : ∀ t d, a.thread t = .advance d → a.Completed d → a'.thread t = .advance d) : Sched tbl a' := by
  have hcompleted : ∀ i, a'.Completed i ↔ a.Completed i := fun i => by simp only [State.Completed, hnodes]
  have hready : ∀ i, a'.Ready tbl i ↔ a.Ready tbl i := fun i => by simp only [State.Ready, hcompleted]
  constructor
  · simp only [hnodes, hready]
    exact h.ready
  · simp only [hnodes, hpass, hcompleted]
    exact h.early
  · simp only [hpass, State.Untouched, hnodes]
    exact h.late
  · simp only [hpass, State.Untouched, hnodes]
    exact h.begun
  · intro i hi hq ha hp
    rw [hnodes] at hq ha hp
    rcases h.waits i hi hq ha hp with hw | ⟨t, d, ht, hd, hdep⟩
    · exact .inl (by rwa [hready])
    · exact .inr ⟨t, d, hadvance t d ht hd, (hcompleted d).mpr hd, hdep⟩
  · have : openNodes tbl a' = openNodes tbl a := by
      ext i
      simp only [mem_openNodes, hpass, hcompleted, hheld]
    rw [hpending, this]
    exact h.pending
  · have : failedNodes tbl a' = failedNodes tbl a := by
      ext i
      simp only [mem_failedNodes, hpass, hcompleted, hnodes]
    rw [hfailed, this]
    exact h.failed
  · simp only [hnodes, hcompleted]
    exact h.open_result
  · simp only [hheld, hpass]
    exact h.held_pass

/-- A node that is somewhere belongs to a pass that has begun. -/
theorem Sched.pass_le (h : Sched tbl a) (hi : i < tbl.maxNodes) (htouched : ¬ a.Untouched i) :
    ∃ p, a.currentPassIndex = some p ∧ tbl.pass i ≤ p := by
  by_contra hnone
  push Not at hnone
  exact htouched (h.late i hi hnone)

/-- A node that is somewhere and not completed belongs to the current pass. -/
theorem Sched.pass_eq (h : Sched tbl a) (hi : i < tbl.maxNodes) (htouched : ¬ a.Untouched i) (hopen : ¬ a.Completed i) :
    some (tbl.pass i) = a.currentPassIndex := by
  obtain ⟨p, hp, hle⟩ := h.pass_le hi htouched
  rcases Nat.lt_or_eq_of_le hle with hlt | heq
  · exact absurd (h.early p hp i hi hlt).1 hopen
  · rw [hp, heq]

/-- A step that changes one node which was not completed, and stops no thread that has a completed node in its hands. -/
theorem Sched.change (h : Sched tbl a) (hi : i < tbl.maxNodes) (htouched : ¬ a.Untouched i)
    (hbefore : ¬ a.Completed i) (hnodes : ∀ j, j ≠ i → a'.nodes j = a.nodes j)
    (hpass : a'.currentPassIndex = a.currentPassIndex) (hpending : a'.pendingNodeCount = a.pendingNodeCount)
    (hfailed : a'.failedNodeCount = a.failedNodeCount ∧ (¬ a'.Completed i ∨ (a'.nodes i).buildResult = 0) ∨
    a'.failedNodeCount = a.failedNodeCount + 1 ∧ a'.Completed i ∧ (a'.nodes i).buildResult ≠ 0)
    (hheld : ∀ j, j ≠ i → ∀ t, a'.Held t j ↔ a.Held t j)
    (hadvance : ∀ t d, a.thread t = .advance d → a.Completed d → a'.thread t = .advance d)
    (hready : (a'.nodes i).progress ≠ .initial →
    ((a'.nodes i).progress = .blocked → (a'.nodes i).queued = true ∨ (a'.nodes i).active = true) → a.Ready tbl i)
    (hafter : ¬ a'.Untouched i)
    (hwaits : (a'.nodes i).queued = false → (a'.nodes i).active = false → (a'.nodes i).progress = .blocked →
    ¬ a.Ready tbl i)
    (hdone : a'.Completed i → ∃ t, a'.thread t = .advance i)
    (hresult : ¬ a'.Completed i → (a'.nodes i).buildResult = 0) : Sched tbl a' := by
  have hcompleted : ∀ j, j ≠ i → (a'.Completed j ↔ a.Completed j) := fun j hj => by
    simp only [State.Completed, hnodes j hj]
  have hmono : ∀ j, a.Completed j → a'.Completed j := by
    intro j hj
    by_cases hij : j = i
    · exact absurd (hij ▸ hj) hbefore
    · exact (hcompleted j hij).mpr hj
  have hreadyMono : ∀ j, a.Ready tbl j → a'.Ready tbl j := fun j hj d hd => hmono d (hj d hd)
  -- a node that becomes ready through this step does so because of `i`, which a thread then has in its hands
  have hreadyNew : ∀ j, ¬ a.Ready tbl j → a'.Ready tbl j → i ∈ tbl.deps j ∧ a'.Completed i := by
    intro j hnot hj
    simp only [State.Ready, not_forall] at hnot
    obtain ⟨d, hd, hopen⟩ := hnot
    by_cases hdi : d = i
    · subst hdi
      exact ⟨hd, hj d hd⟩
    · exact absurd ((hcompleted d hdi).mp (hj d hd)) hopen
  have hcurrent := h.pass_eq hi htouched hbefore
  constructor
  · intro j hj hp hb
    by_cases hij : j = i
    · subst hij
      exact hreadyMono j (hready hp hb)
    · rw [hnodes j hij] at hp hb
      exact hreadyMono j (h.ready j hj hp hb)
  · intro p hp j hj hlt
    rw [hpass] at hp
    obtain ⟨hc, hr⟩ := h.early p hp j hj hlt
    have hij : j ≠ i := fun heq => hbefore (heq ▸ hc)
    rw [hcompleted j hij, hnodes j hij]
    exact ⟨hc, hr⟩
  · intro j hj hlate
    rw [hpass] at hlate
    have hij : j ≠ i := by
      rintro rfl
      exact htouched (h.late j hj hlate)
    simpa only [State.Untouched, hnodes j hij] using h.late j hj hlate
  · intro p hp j hj heq
    by_cases hij : j = i
    · exact hij ▸ hafter
    · simpa only [State.Untouched, hnodes j hij] using h.begun p (hpass ▸ hp) j hj heq
  · intro j hj hq ha hp
    by_cases hr : a'.Ready tbl j
    · right
      have hnot : ¬ a.Ready tbl j ∨ ∃ t d, a.thread t = .advance d ∧ a.Completed d ∧ d ∈ tbl.deps j := by
        by_cases hij : j = i
        · subst hij
          exact .inl (hwaits hq ha hp)
        · rw [hnodes j hij] at hq ha hp
          exact h.waits j hj hq ha hp
      rcases hnot with hnot | ⟨t, d, ht, hd, hdep⟩
      · obtain ⟨hdep, hci⟩ := hreadyNew j hnot hr
        obtain ⟨t, ht⟩ := hdone hci
        exact ⟨t, i, ht, hci, hdep⟩
      · exact ⟨t, d, hadvance t d ht hd, hmono d hd, hdep⟩
    · exact .inl hr
  · have hopenSet : openNodes tbl a' = openNodes tbl a := by
      ext j
      rw [mem_openNodes, mem_openNodes, hpass]
      by_cases hij : j = i
      · subst hij
        have hstill : ¬ a'.Completed j ∨ ∃ t, a'.Held t j := by
          by_cases hc : a'.Completed j
          · obtain ⟨t, ht⟩ := hdone hc
            exact .inr ⟨t, by rw [State.Held, ht]; rfl⟩
          · exact .inl hc
        simp [hstill, hbefore]
      · simp only [hcompleted j hij, hheld j hij]
    rw [hpending, hopenSet]
    exact h.pending
  · rcases hfailed with ⟨hcount, hkeep⟩ | ⟨hcount, hc, hr⟩
    · have hset : failedNodes tbl a' = failedNodes tbl a := by
        ext j
        rw [mem_failedNodes, mem_failedNodes, hpass]
        by_cases hij : j = i
        · subst hij
          simp only [hbefore, false_and, and_false, iff_false, not_and]
          intro _ _ hc hr
          rcases hkeep with hk | hk
          · exact hk hc
          · exact hr hk
        · simp only [hcompleted j hij, hnodes j hij]
      rw [hcount, hset]
      exact h.failed
    · have hset : failedNodes tbl a' = insert i (failedNodes tbl a) := by
        ext j
        rw [Finset.mem_insert, mem_failedNodes, mem_failedNodes, hpass]
        by_cases hij : j = i
        · subst hij
          simp [hi, hcurrent, hc, hr]
        · simp only [hcompleted j hij, hnodes j hij, hij, false_or]
      have hnotMem : i ∉ failedNodes tbl a := fun hmem => hbefore (mem_failedNodes.mp hmem).2.2.1
      rw [hcount, hset, Finset.card_insert_of_notMem hnotMem, h.failed]
      push_cast
      rfl
  · intro j hj hc
    by_cases hij : j = i
    · exact hij ▸ hresult (hij ▸ hc)
    · rw [hcompleted j hij] at hc
      rw [hnodes j hij]
      exact h.open_result j hj hc
  · intro u j hu
    rw [hpass]
    by_cases hij : j = i
    · exact hij ▸ hcurrent
    · exact h.held_pass u j ((hheld j hij u).mp hu)

/-- A thread counts its completed node and lets the waiters that are ready into the ring. -/
theorem Sched.complete {ws : List Nat} (h : Sched tbl a) (hinv : NodeInv tbl cfg a) (hpc : a.thread t = .advance i)
    (hprogress : (a.nodes i).progress = .completed)
    (hws : ∀ w, w ∈ ws ↔ w ∈ tbl.waiters i ∧ a.Wakes tbl w) :
    Sched tbl (({ a with pendingNodeCount := a.pendingNodeCount - 1 }.pushAll ws).setThread t .loop) := by
  have hheld : a.Held t i := by rw [State.Held, hpc]; rfl
  have hi := hinv.held_lt t i hheld
  set b : State := ({ a with pendingNodeCount := a.pendingNodeCount - 1 }.pushAll ws).setThread t .loop with hb
  have hsame : ∀ j, (b.nodes j).progress = (a.nodes j).progress ∧ (b.nodes j).buildResult = (a.nodes j).buildResult ∧
      (b.nodes j).active = (a.nodes j).active := by
    intro j
    by_cases hj : j ∈ ws <;> simp [hb, State.pushAll, State.queueAll, hj]
  have hcompleted : ∀ j, b.Completed j ↔ a.Completed j := fun j => by rw [State.Completed, (hsame j).1, State.Completed]
  have hready : ∀ j, b.Ready tbl j ↔ a.Ready tbl j := fun j => by simp only [State.Ready, hcompleted]
  have hqueued : ∀ j, (b.nodes j).queued = true ↔ j ∈ ws ∨ (a.nodes j).queued = true := by
    intro j
    by_cases hj : j ∈ ws <;> simp [hb, State.pushAll, State.queueAll, hj]
  have hthread : ∀ u, u ≠ t → b.thread u = a.thread u := fun u hu => by simp [hb, State.pushAll, hu]
  have hheldNew : ∀ u j, b.Held u j ↔ a.Held u j ∧ u ≠ t := by
    intro u j
    by_cases hut : u = t
    · simp [State.Held, hb, State.pushAll, hut, ThreadPc.node?]
    · simp [State.Held, hthread u hut, hut]
  have huntouched : ∀ j, b.Untouched j ↔ a.Untouched j ∧ j ∉ ws := by
    intro j
    have hq := hqueued j
    simp only [State.Untouched, (hsame j).1, (hsame j).2.2, ← Bool.not_eq_true, hq]
    tauto
  have htouched : ∀ w ∈ ws, ¬ a.Untouched w := by
    intro w hw
    obtain ⟨hwait, hpass, -⟩ := (hws w).mp hw
    exact h.begun _ hpass.symm w ((NodeTable.mem_waiters_iff hi).mp hwait).1 rfl
  constructor
  · intro j hj hp hblocked
    rw [hready]
    by_cases hw : j ∈ ws
    · exact ((hws j).mp hw).2.2.1
    · rw [(hsame j).1] at hp hblocked
      rw [(hsame j).2.2, hqueued] at hblocked
      exact h.ready j hj hp (by simpa [hw] using hblocked)
  · intro p hp j hj hlt
    rw [hcompleted, (hsame j).2.1]
    exact h.early p hp j hj hlt
  · intro j hj hlate
    refine (huntouched j).mpr ⟨h.late j hj hlate, fun hw => ?_⟩
    exact absurd (hlate _ ((hws j).mp hw).2.1.symm) (lt_irrefl _)
  · intro p hp j hj heq hj'
    exact h.begun p hp j hj heq ((huntouched j).mp hj').1
  · intro j hj hq ha hp
    rw [(hsame j).2.2] at ha
    rw [(hsame j).1] at hp
    have hq' : j ∉ ws ∧ (a.nodes j).queued = false := by
      rw [← Bool.not_eq_true, hqueued] at hq
      simpa using hq
    rw [hready]
    rcases h.waits j hj hq'.2 ha hp with hnot | ⟨u, d, hu, hd, hdep⟩
    · exact .inl hnot
    · by_cases hut : u = t
      · subst hut
        obtain rfl : i = d := ThreadPc.advance.inj (hpc.symm.trans hu)
        have hcurrent := h.pass_eq hj (by simp [State.Untouched, hp]) (by simp [State.Completed, hp])
        left
        intro hr
        exact hq'.1 ((hws j).mpr ⟨(NodeTable.mem_waiters_iff hi).mpr ⟨hj, hdep⟩, hcurrent, hr, hq'.2, ha⟩)
      · exact .inr ⟨u, d, by rw [hthread u hut, hu], (hcompleted d).mpr hd, hdep⟩
  · have hset : openNodes tbl b = (openNodes tbl a).erase i := by
      ext j
      rw [Finset.mem_erase, mem_openNodes, mem_openNodes, hcompleted]
      simp only [hheldNew]
      by_cases hij : j = i
      · subst hij
        have hdone : a.Completed j := hprogress
        simp only [hdone, not_true_eq_false, false_or, ne_eq, false_and, iff_false, not_and, not_exists, not_not]
        intro _ _ u hu
        exact (hinv.node j hi).held_unique u t hu hheld
      · have : (∃ u, a.Held u j ∧ u ≠ t) ↔ ∃ u, a.Held u j := by
          constructor
          · rintro ⟨u, hu, -⟩
            exact ⟨u, hu⟩
          · rintro ⟨u, hu⟩
            refine ⟨u, hu, ?_⟩
            rintro rfl
            exact hij (Option.some.inj (hu.symm.trans hheld))
        simp [this, hij, hb, State.pushAll]
    have hmem : i ∈ openNodes tbl a := mem_openNodes.mpr ⟨hi, h.held_pass t i hheld, .inr ⟨t, hheld⟩⟩
    have hpos := Finset.card_pos.mpr ⟨i, hmem⟩
    rw [hset, Finset.card_erase_of_mem hmem, Nat.cast_sub hpos, ← h.pending]
    rfl
  · have hset : failedNodes tbl b = failedNodes tbl a := by
      ext j
      rw [mem_failedNodes, mem_failedNodes, hcompleted, (hsame j).2.1]
      rfl
    rw [hset]
    exact h.failed
  · intro j hj hc
    rw [hcompleted] at hc
    rw [(hsame j).2.1]
    exact h.open_result j hj hc
  · intro u j hu
    exact h.held_pass u j ((hheldNew u j).mp hu).1

theorem mem_passRange (hp : p < tbl.passCount) :
    j ∈ (List.range (tbl.passNodeCount p)).map (tbl.passStart p + ·) ↔ j < tbl.maxNodes ∧ tbl.pass j = p := by
  have hend : tbl.passStart (p + 1) ≤ tbl.maxNodes := NodeTable.passStart_le_maxNodes hp
  have hsucc : tbl.passStart (p + 1) = tbl.passStart p + tbl.passNodeCount p := NodeTable.passStart_succ p
  constructor
  · intro hj
    obtain ⟨k, hk, rfl⟩ := List.mem_map.mp hj
    have hlt := List.mem_range.mp hk
    have hmax : tbl.passStart p + k < tbl.maxNodes := by omega
    exact ⟨hmax, (NodeTable.pass_eq_iff hmax).mpr ⟨by omega, by omega⟩⟩
  · rintro ⟨hmax, hpass⟩
    obtain ⟨hlo, hhi⟩ := (NodeTable.pass_eq_iff hmax).mp hpass
    exact List.mem_map.mpr ⟨j - tbl.passStart p, List.mem_range.mpr (by omega), by omega⟩

theorem nodup_passRange (tbl : NodeTable) (p : Nat) :
    ((List.range (tbl.passNodeCount p)).map (tbl.passStart p + ·)).Nodup :=
  List.nodup_range.map fun _ _ h => Nat.add_left_cancel h

/-- A pass begins when the earlier ones are done and nobody works. -/
theorem Sched.beginPass (h : Sched tbl a) (hp : p < tbl.passCount)
    (hbefore : ∀ q, a.currentPassIndex = some q → q < p)
    (hall : ∀ i < tbl.maxNodes, tbl.pass i < p → a.Completed i ∧ (a.nodes i).buildResult = 0)
    (hnobody : ∀ t i, ¬ a.Held t i) : Sched tbl (a.beginPass tbl p) := by
  have huntouched : ∀ j < tbl.maxNodes, p ≤ tbl.pass j → a.Untouched j :=
    fun j hj hle => h.late j hj fun q hq => lt_of_lt_of_le (hbefore q hq) hle
  set b := a.beginPass tbl p with hb
  have hin : ∀ j < tbl.maxNodes, tbl.pass j = p → b.nodes j = { a.nodes j with queued := true } := by
    intro j hj hpass
    simp only [hb, State.beginPass, State.queueAll, (mem_passRange hp).mpr ⟨hj, hpass⟩, if_true]
  have hout : ∀ j, ¬ (j < tbl.maxNodes ∧ tbl.pass j = p) → b.nodes j = a.nodes j := by
    intro j hj
    have hnot := mt (mem_passRange hp).mp hj
    simp only [hb, State.beginPass, State.queueAll, hnot, if_false]
  have hcompleted : ∀ j, b.Completed j ↔ a.Completed j := by
    intro j
    by_cases hj : j < tbl.maxNodes ∧ tbl.pass j = p
    · simp only [State.Completed, hin j hj.1 hj.2]
    · simp only [State.Completed, hout j hj]
  have hready : ∀ j, b.Ready tbl j ↔ a.Ready tbl j := fun j => by simp only [State.Ready, hcompleted]
  have hopen : ∀ j < tbl.maxNodes, tbl.pass j = p → ¬ a.Completed j := by
    intro j hj hpass hc
    have := (huntouched j hj hpass.ge).2.2
    simp [State.Completed, this] at hc
  have hcur : b.currentPassIndex = some p := rfl
  constructor
  · intro j hj hprogress hblocked
    rw [hready]
    by_cases hpass : tbl.pass j = p
    · rw [hin j hj hpass] at hprogress
      exact absurd (huntouched j hj hpass.ge).2.2 hprogress
    · rw [hout j (by simp [hpass])] at hprogress hblocked
      exact h.ready j hj hprogress hblocked
  · intro q hq j hj hlt
    obtain rfl := Option.some.inj (hcur.symm.trans hq)
    rw [hcompleted, hout j (by omega)]
    exact hall j hj hlt
  · intro j hj hlate
    have hlt := hlate p hcur
    rw [State.Untouched, hout j (by omega)]
    exact huntouched j hj hlt.le
  · intro q hq j hj hpass hj'
    obtain rfl := Option.some.inj (hcur.symm.trans hq)
    simp [State.Untouched, hin j hj hpass] at hj'
  · intro j hj hq ha hprogress
    by_cases hpass : tbl.pass j = p
    · simp [hin j hj hpass] at hq
    · rw [hout j (by simp [hpass])] at hprogress
      rcases Nat.lt_or_ge (tbl.pass j) p with hlt | hge
      · have := (hall j hj hlt).1
        simp [State.Completed, hprogress] at this
      · have := (huntouched j hj hge).2.2
        simp [hprogress] at this
  · have hset : openNodes tbl b = ((List.range (tbl.passNodeCount p)).map (tbl.passStart p + ·)).toFinset := by
      ext j
      rw [mem_openNodes, List.mem_toFinset, mem_passRange hp, hcur, Option.some.injEq, hcompleted]
      constructor
      · rintro ⟨hj, hpass, -⟩
        exact ⟨hj, hpass⟩
      · rintro ⟨hj, hpass⟩
        exact ⟨hj, hpass, .inl (hopen j hj hpass)⟩
    rw [hset, List.toFinset_card_of_nodup (nodup_passRange tbl p), List.length_map, List.length_range]
    rfl
  · have hset : failedNodes tbl b = ∅ := by
      ext j
      simp only [mem_failedNodes, hcur, Option.some.injEq, hcompleted, Finset.notMem_empty, iff_false]
      rintro ⟨hj, hpass, hc, -⟩
      exact hopen j hj hpass hc
    rw [hset, Finset.card_empty]
    rfl
  · intro j hj hc
    rw [hcompleted] at hc
    have := h.open_result j hj hc
    by_cases hpass : tbl.pass j = p
    · rw [hin j hj hpass]
      exact this
    · rw [hout j (by simp [hpass])]
      exact this
  · intro u j hu
    exact absurd hu (hnobody u j)

end Tundra.Spec
