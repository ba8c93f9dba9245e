import Tundra.DagGenerator.Document
import Mathlib.Data.Set.Function

/-!
# The order of the nodes

`ComputeNodeGuids` sorts the nodes by their guids. A table it accepts has no two equal guids, so `remap_table`
is a permutation of the nodes.
-/

namespace Tundra

/-- Sorted guids of which no two neighbours are equal are strictly ascending. -/
theorem pairwise_digest_lt {guids : List TempNodeGuid} (hsorted : guids.Pairwise fun l r => l.digest ≤ r.digest)
    (hne : ¬(guids.zip guids.tail).any fun (l, r) => l.digest = r.digest) :
    guids.Pairwise fun l r => l.digest < r.digest := by
  induction guids with
  | nil => exact .nil
  | cons guid guids ih =>
      cases guids with
      | nil => exact List.pairwise_singleton _ _
      | cons next guids =>
          obtain ⟨hle, hrest⟩ := List.pairwise_cons.mp hsorted
          simp only [List.tail_cons, List.zip_cons_cons, List.any_cons, Bool.or_eq_true, not_or,
            decide_eq_true_eq] at hne
          have htail := ih hrest hne.2
          have hnext : guid.digest < next.digest := lt_of_le_of_ne (hle next List.mem_cons_self) hne.1
          refine List.pairwise_cons.mpr ⟨fun other hother => ?_, htail⟩
          rcases List.mem_cons.mp hother with rfl | hother
          · exact hnext
          · exact hnext.trans ((List.pairwise_cons.mp htail).1 other hother)

theorem require_eq_ok {α : Type} {x : Option α} {a : α} : require x = .ok a ↔ x = some a := by
  cases x <;> simp [require]

theorem readNodeGuid_eq_ok {entry : JsonValue × Nat} {guid : TempNodeGuid} (h : readNodeGuid entry = .ok guid) :
    ∃ nobj, entry.1.asObject = some nobj ∧ guid = ⟨nodeDigest nobj, entry.2⟩ := by
  obtain ⟨nobj, hobj, h⟩ := Checked.bind_eq_ok.mp h
  dsimp only at h
  split_ifs at h
  exact ⟨nobj, require_eq_ok.mp hobj, (Except.ok.inj h).symm⟩

theorem readNodeGuid_digests {nodes : List JsonValue} {guids : List TempNodeGuid}
    (h : nodes.zipIdx.mapM readNodeGuid = .ok guids) :
    guids.map TempNodeGuid.digest = (nodes.filterMap JsonValue.asObject).map nodeDigest := by
  have hdigests : (nodes.zipIdx.map fun entry => entry.1.asObject.map nodeDigest) = guids.map
    fun guid => some guid.digest :=
    Checked.map_eq_map (Checked.mapM_eq_ok.mp h) fun entry _ guid hguid => by
      obtain ⟨nobj, hobj, rfl⟩ := readNodeGuid_eq_ok hguid
      rw [hobj, Option.map_some]
  have hvalues : nodes.zipIdx.map (fun entry => entry.1.asObject.map nodeDigest) = nodes.map
    fun value => value.asObject.map nodeDigest := by
    rw [← List.zipIdx_map_fst 0 nodes, List.map_map, List.zipIdx_map_fst]
    rfl
  have hreduce := congrArg (List.filterMap id) (hvalues.symm.trans hdigests)
  rw [List.map_filterMap]
  simpa [List.filterMap_map, Function.comp_def, List.filterMap_eq_map'] using hreduce.symm

/-- Guids that are all different do not have equal neighbours. -/
theorem any_digest_eq_false {guids : List TempNodeGuid} (h : (guids.map TempNodeGuid.digest).Nodup) :
    ¬(guids.zip guids.tail).any fun (l, r) => l.digest = r.digest := by
  induction guids with
  | nil => decide
  | cons guid guids ih =>
      rw [List.map_cons, List.nodup_cons] at h
      cases guids with
      | nil => simp
      | cons next guids =>
          simp only [List.tail_cons, List.zip_cons_cons, List.any_cons, Bool.or_eq_true, not_or, decide_eq_true_eq]
          exact ⟨fun heq => h.1 (heq ▸ List.mem_cons_self), ih h.2⟩

/-- A guid table that `ComputeNodeGuids` makes from these nodes. -/
structure GuidTable (nodes : List JsonValue) (guidTable : List TempNodeGuid) : Prop where
  ascending : guidTable.Pairwise fun l r => l.digest < r.digest
  perm : (guidTable.map TempNodeGuid.node).Perm (List.range nodes.length)
  guids : ∀ guid ∈ guidTable, ∃ value nobj, nodes[guid.node]? = some value ∧ value.asObject = some nobj ∧
    guid.digest = nodeDigest nobj

theorem computeNodeGuids_eq_ok {nodes : List JsonValue} {guidTable : List TempNodeGuid}
    (h : computeNodeGuids nodes = .ok guidTable) :
    GuidTable nodes guidTable := by
  obtain ⟨guids, hguids, h⟩ := Checked.bind_eq_ok.mp h
  have hentries := Checked.mapM_eq_ok.mp hguids
  simp only at h
  split_ifs at h with hany
  obtain rfl := Except.ok.inj h
  have hperm : (sortGuids guids).Perm guids := List.perm_insertionSort _ guids
  refine ⟨pairwise_digest_lt (List.pairwise_insertionSort _ guids) hany, ?_, fun guid hguid => ?_⟩
  · have hnodes : nodes.zipIdx.map Prod.snd = guids.map TempNodeGuid.node :=
      Checked.map_eq_map hentries fun entry _ guid hguid => by
        obtain ⟨nobj, -, rfl⟩ := readNodeGuid_eq_ok hguid
        rfl
    rw [List.zipIdx_map_snd, ← List.range_eq_range'] at hnodes
    exact hnodes ▸ hperm.map _
  · obtain ⟨⟨value, index⟩, hentry, hread⟩ := Checked.exists_of_forall₂ hentries (hperm.mem_iff.mp hguid)
    obtain ⟨nobj, hobj, rfl⟩ := readNodeGuid_eq_ok hread
    exact ⟨value, nobj, List.mk_mem_zipIdx_iff_getElem?.mp hentry, hobj, rfl⟩

namespace GuidTable

variable {nodes : List JsonValue} {guidTable : List TempNodeGuid}

theorem length_eq (h : GuidTable nodes guidTable) : guidTable.length = nodes.length := by simpa using h.perm.length_eq

theorem bijOn_remapTable (h : GuidTable nodes guidTable) :
    Set.BijOn (remapTable guidTable) (Set.Iio nodes.length) (Set.Iio nodes.length) := by
  have hmem : ∀ i, i ∈ guidTable.map TempNodeGuid.node ↔ i < nodes.length := fun i => by
    rw [h.perm.mem_iff, List.mem_range]
  have hlength : (guidTable.map TempNodeGuid.node).length = nodes.length := by rw [List.length_map, h.length_eq]
  refine ⟨fun i hi => ?_, fun i hi j hj hij => ?_, fun i hi => ?_⟩
  · have hlt := List.idxOf_lt_length_of_mem ((hmem i).mpr hi)
    rwa [hlength] at hlt
  · exact (List.idxOf_inj ((hmem i).mpr hi)).mp hij
  · have hi : i < (guidTable.map TempNodeGuid.node).length := hlength ▸ hi
    have hnodup : (guidTable.map TempNodeGuid.node).Nodup := h.perm.nodup_iff.mpr List.nodup_range
    exact ⟨_, (hmem _).mp (List.getElem_mem hi), hnodup.idxOf_getElem i hi⟩

/-- The entry of a node is at its new place. -/
theorem getElem?_remapTable (h : GuidTable nodes guidTable) {i : Nat} (hi : i < nodes.length) :
    ∃ guid, guidTable[remapTable guidTable i]? = some guid ∧ guid.node = i := by
  have hmem : i ∈ guidTable.map TempNodeGuid.node := h.perm.mem_iff.mpr (List.mem_range.mpr hi)
  have hget := List.getElem?_idxOf hmem
  rw [List.getElem?_map, Option.map_eq_some_iff] at hget
  exact hget

end GuidTable

end Tundra
