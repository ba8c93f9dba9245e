import Tundra.DagGenerator.Remap

/-!
# The guid of a node

`ComputeNodeGuids` feeds the action, the inputs and the annotation of a node to a hash, one behind the other
without a separator. The stream keeps the bytes and loses where the parts begin and end.
-/

namespace Tundra

structure NodeParts where
  action : Option CString
  inputs : List CString
  annotation : Option CString
deriving DecidableEq

namespace NodeParts

def ofObject (nobj : JsonObject) : NodeParts where
  action := findStringValue nobj "Action"
  inputs := ((findArrayValue nobj "Inputs").getD []).filterMap JsonValue.asString
  annotation := findStringValue nobj "Annotation"

variable (parts : NodeParts)

/-- What `ComputeNodeGuids` feeds to the hash, piece by piece. -/
def hashedPieces : List (List UInt8) :=
  ((parts.action.toList.filter fun action => action.bytes ≠ []) ++ parts.inputs ++ parts.annotation.toList).map
    CString.bytes

def hashedBytes : List UInt8 := parts.hashedPieces.flatten

/-- The parts in one string. -/
def joined : List UInt8 := ((parts.action.toList ++ parts.inputs ++ parts.annotation.toList).map CString.bytes).flatten

/-- Which parts there are, and how long they are. -/
def lengths : Option Nat × List Nat × Option Nat :=
  (parts.action.map (·.bytes.length), parts.inputs.map (·.bytes.length), parts.annotation.map (·.bytes.length))

theorem flatten_action (action : Option CString) :
    ((action.toList.filter fun action => action.bytes ≠ []).map CString.bytes).flatten =
    (action.toList.map CString.bytes).flatten := by
  cases action with
  | none => rfl
  | some action =>
      rw [Option.toList_some, List.filter_cons, List.filter_nil]
      split_ifs with hempty
      · rfl
      · have hbytes : action.bytes = [] := by simpa using hempty
        rw [List.map_singleton, hbytes]
        rfl

theorem hashedBytes_eq : parts.hashedBytes = parts.joined := by
  simp only [hashedBytes, hashedPieces, joined, List.map_append, List.flatten_append, flatten_action]

variable {parts} {l r : NodeParts}

theorem option_eq {a b : Option CString} (hlength : a.map (·.bytes.length) = b.map (·.bytes.length))
    (hbytes : a.toList.map CString.bytes = b.toList.map CString.bytes) : a = b := by
  cases a <;> cases b
  · rfl
  · cases hlength
  · cases hlength
  · exact congrArg some (CString.ext_bytes (List.head_eq_of_cons_eq hbytes))

theorem length_eq_of_lengths {a b : Option CString} (h : a.map (·.bytes.length) = b.map (·.bytes.length)) :
    (a.toList.map CString.bytes).map List.length = (b.toList.map CString.bytes).map List.length := by
  have hmap := congrArg Option.toList h
  simpa [Option.toList_map, Function.comp_def] using hmap

/-- The same text cut into parts of the same lengths. -/
theorem eq_of_joined (hjoined : l.joined = r.joined) (hlengths : l.lengths = r.lengths) : l = r := by
  obtain ⟨action, inputs, annotation⟩ := l
  obtain ⟨action', inputs', annotation'⟩ := r
  simp only [lengths, Prod.mk.injEq] at hlengths
  obtain ⟨haction, hinputs, hannotation⟩ := hlengths
  have hactionLength := length_eq_of_lengths haction
  have hinputsLength : (inputs.map CString.bytes).map List.length = (inputs'.map CString.bytes).map List.length := by
    rw [List.map_map, List.map_map]
    exact hinputs
  have hannotationLength := length_eq_of_lengths hannotation
  have hpieces := List.eq_iff_flatten_eq.mpr ⟨hjoined, by
    simp only [List.map_append] at hactionLength hinputsLength hannotationLength ⊢
    rw [hactionLength, hinputsLength, hannotationLength]⟩
  simp only [List.map_append, List.append_assoc] at hpieces
  have hactionCount := congrArg List.length hactionLength
  have hinputsCount := congrArg List.length hinputsLength
  simp only [List.length_map] at hactionCount hinputsCount
  obtain ⟨hactions, hpieces⟩ := List.append_inj hpieces (by rw [List.length_map, List.length_map, hactionCount])
  obtain ⟨hinputs, hannotations⟩ := List.append_inj hpieces (by rw [List.length_map, List.length_map, hinputsCount])
  rw [option_eq haction hactions, List.map_injective_iff.mpr (fun _ _ => CString.ext_bytes) hinputs,
    option_eq hannotation hannotations]

/-- Different parts give different streams exactly if they are not the same text cut in another way. -/
theorem hashedBytes_ne_iff : (l ≠ r → l.hashedBytes ≠ r.hashedBytes) ↔ l.joined ≠ r.joined ∨ l.lengths = r.lengths := by
  rw [hashedBytes_eq, hashedBytes_eq]
  constructor
  · intro h
    by_cases heq : l = r
    · exact .inr (congrArg lengths heq)
    · exact .inl (h heq)
  · rintro (hjoined | hlengths) hne hstream
    · exact hjoined hstream
    · exact hne (eq_of_joined hstream hlengths)

end NodeParts

theorem nodeDigest_eq (nobj : JsonObject) : nodeDigest nobj = hashDigest (NodeParts.ofObject nobj).hashedBytes := by
  rw [NodeParts.hashedBytes, hashDigest, ← foldl_hashUpdate, NodeParts.hashedPieces, NodeParts.ofObject, nodeDigest]

theorem readNodeGuid_stream {entry : JsonValue × Nat} {guid : TempNodeGuid} (h : readNodeGuid entry = .ok guid) :
    ∃ nobj, entry.1.asObject = some nobj ∧ guid.digest = hashDigest (NodeParts.ofObject nobj).hashedBytes := by
  obtain ⟨nobj, hobj, rfl⟩ := readNodeGuid_eq_ok h
  exact ⟨nobj, hobj, nodeDigest_eq nobj⟩

def streamDigests (nodes : List JsonValue) : List HashDigest :=
  (nodes.filterMap JsonValue.asObject).map fun nobj => hashDigest (NodeParts.ofObject nobj).hashedBytes

/-- Nodes that are all accepted are turned down only if the streams of two of them have one digest. -/
theorem computeNodeGuids_duplicate {nodes : List JsonValue} {guids : List TempNodeGuid}
    (h : nodes.zipIdx.mapM readNodeGuid = .ok guids) (herror : computeNodeGuids nodes = .error .invalid) :
    ¬(streamDigests nodes).Nodup := by
  have hdigests : guids.map TempNodeGuid.digest = streamDigests nodes :=
    (readNodeGuid_digests h).trans (List.map_congr_left fun nobj _ => nodeDigest_eq nobj)
  intro hnodup
  rw [← hdigests] at hnodup
  have hsorted : ((sortGuids guids).map TempNodeGuid.digest).Nodup :=
    ((List.perm_insertionSort _ guids).map TempNodeGuid.digest).nodup_iff.mpr hnodup
  rw [computeNodeGuids, h] at herror
  change (if _ then _ else _) = _ at herror
  split_ifs at herror with hany
  · exact any_digest_eq_false hsorted hany
  · cases herror

/-- Two nodes are told apart by their streams exactly if they are not the same text cut into parts in two ways.
Accepted nodes are turned down only if the streams of two of them have one digest. -/
theorem node_identity {entry₁ entry₂ : JsonValue × Nat} {guid₁ guid₂ : TempNodeGuid}
    (h₁ : readNodeGuid entry₁ = .ok guid₁) (h₂ : readNodeGuid entry₂ = .ok guid₂) :
    (∃ nobj₁ nobj₂, entry₁.1.asObject = some nobj₁ ∧ entry₂.1.asObject = some nobj₂ ∧
      guid₁.digest = hashDigest (NodeParts.ofObject nobj₁).hashedBytes ∧ guid₂.digest = hashDigest
      (NodeParts.ofObject nobj₂).hashedBytes ∧
      ((NodeParts.ofObject nobj₁ ≠ NodeParts.ofObject nobj₂ →
          (NodeParts.ofObject nobj₁).hashedBytes ≠ (NodeParts.ofObject nobj₂).hashedBytes) ↔
        (NodeParts.ofObject nobj₁).joined ≠ (NodeParts.ofObject nobj₂).joined ∨
          (NodeParts.ofObject nobj₁).lengths = (NodeParts.ofObject nobj₂).lengths)) ∧
    ∀ nodes guids, nodes.zipIdx.mapM readNodeGuid = .ok guids → computeNodeGuids nodes = .error .invalid →
    ¬(streamDigests nodes).Nodup := by
  obtain ⟨nobj₁, hobj₁, hdigest₁⟩ := readNodeGuid_stream h₁
  obtain ⟨nobj₂, hobj₂, hdigest₂⟩ := readNodeGuid_stream h₂
  exact ⟨⟨nobj₁, nobj₂, hobj₁, hobj₂, hdigest₁, hdigest₂, NodeParts.hashedBytes_ne_iff⟩,
    fun _ _ => computeNodeGuids_duplicate⟩

def annotatedObject (action annotation : String) : JsonObject :=
  [(.lit "Action", .string (.lit action)), (.lit "Annotation", .string (.lit annotation))]

theorem readNodeGuid_annotatedObject (action annotation : String) (index : Nat)
    (haction : (CString.lit action).bytes ≠ [])
    (hfound : findStringValue (annotatedObject action annotation) "Action" = some (.lit action)) :
    readNodeGuid (.object (annotatedObject action annotation), index) =
    .ok ⟨nodeDigest (annotatedObject action annotation), index⟩ := by
  have hnone : ¬(((findStringValue (annotatedObject action annotation) "Action").getD .empty).bytes = [] ∧
      findArrayValue (annotatedObject action annotation) "Inputs" = none ∧
      findStringValue (annotatedObject action annotation) "Annotation" = none) := by
    rw [hfound]
    exact fun hall => haction hall.1
  exact if_neg hnone

/-- Two compilations of files that do not begin with the same letters. -/
theorem node_identity_compilations : NodeParts.ofObject (annotatedObject "cc a.c" "Cc a.o") ≠ NodeParts.ofObject
    (annotatedObject "cc b.c" "Cc b.o") ∧
    (NodeParts.ofObject (annotatedObject "cc a.c" "Cc a.o")).hashedBytes ≠
    (NodeParts.ofObject (annotatedObject "cc b.c" "Cc b.o")).hashedBytes := by
  have h₁ := readNodeGuid_annotatedObject "cc a.c" "Cc a.o" 0 (by decide +kernel) (by decide +kernel)
  have h₂ := readNodeGuid_annotatedObject "cc b.c" "Cc b.o" 1 (by decide +kernel) (by decide +kernel)
  obtain ⟨⟨nobj₁, nobj₂, hobj₁, hobj₂, -, -, hiff⟩, -⟩ := node_identity h₁ h₂
  cases hobj₁
  cases hobj₂
  have hdifferent : NodeParts.ofObject (annotatedObject "cc a.c" "Cc a.o") ≠
    NodeParts.ofObject (annotatedObject "cc b.c" "Cc b.o") := by decide +kernel
  exact ⟨hdifferent, hiff.mpr (.inr (by decide +kernel)) hdifferent⟩

/-- A letter that moves from the annotation to the action leaves the stream as it was, and the two nodes cannot
be in one build. -/
theorem node_identity_lost :
    ¬∀ (entry₁ entry₂ : JsonValue × Nat) (guid₁ guid₂ : TempNodeGuid) (nobj₁ nobj₂ : JsonObject),
    readNodeGuid entry₁ = .ok guid₁ → readNodeGuid entry₂ = .ok guid₂ → entry₁.1.asObject = some nobj₁ →
    entry₂.1.asObject = some nobj₂ →
      NodeParts.ofObject nobj₁ ≠ NodeParts.ofObject nobj₂ →
      (NodeParts.ofObject nobj₁).hashedBytes ≠ (NodeParts.ofObject nobj₂).hashedBytes := by
  intro h
  have h₁ := readNodeGuid_annotatedObject "a" "bc" 0 (by decide +kernel) (by decide +kernel)
  have h₂ := readNodeGuid_annotatedObject "ab" "c" 1 (by decide +kernel) (by decide +kernel)
  exact h _ _ _ _ _ _ h₁ h₂ rfl rfl (by decide +kernel) (by decide +kernel)

end Tundra
