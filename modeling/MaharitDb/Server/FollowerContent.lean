import MaharitDb.Lib.GraphValues
import MaharitDb.Server.GraphIntegrity
import MaharitDb.Server.SnapshotConverges

/-!
# What a follower stores

Whatever the values are, a follower that applies the log of its leader stores the nodes, edges and labels of
the leader, and every value as it is read back from its text.  Nothing is asked of the values: those whose
text reads back as something else differ, and only those.
-/

namespace Maharit

open UndoLog GuardedRun PropertyGraph RecordingGraph

/-- A value as a follower reads it. -/
def readBack (J : JsonText) (value : PropertyValue) : PropertyValue :=
  walStringToPropertyValue J (propertyValueToWalString J value)

/-! ## The calls of the leader on the content -/

/-- The operations on the content that a call stands for. -/
def callOps (g : ConcurrentGraph) : WriteCall → List (Op NodeId EdgeId String String PropertyValue)
  | .createNodeWithLabels labels => [.createNode g.nextNodeId {l | l ∈ labels}]
  | .createEdge fromNode toNode label =>
      if fromNode ∈ g.nodes ∧ toNode ∈ g.nodes then [.createEdge g.nextEdgeId label fromNode toNode] else []
  | .deleteNode id => if id ∈ g.nodes then [.deleteNode id] else []
  | .deleteEdge id => if id ∈ g.edges then [.deleteEdge id] else []
  | .setNodeProperty id key value => [.setNodeProp id key (some value)]
  | .removeNodeProperty id key =>
      if (GraphBackend.getNodeProperty g id key).isSome then [.setNodeProp id key none] else []
  | .addNodeLabel id label => if withNode g id fun n => !n.hasLabel label then [.addLabel id label] else []
  | .removeNodeLabel id label => if withNode g id fun n => n.hasLabel label then [.removeLabel id label] else []
  | .setEdgeProperty id key value => [.setEdgeProp id key (some value)]
  | .removeEdgeProperty id key =>
      if ((g.edges.lookup id).bind (·.getProperty key)).isSome then [.setEdgeProp id key none] else []
  | .restoreNode id labels => [.createNode id {l | l ∈ labels}]
  | .restoreEdge id fromNode toNode label =>
      if fromNode ∈ g.nodes ∧ toNode ∈ g.nodes then [.createEdge id label fromNode toNode] else []

section

variable {J : JsonText} {g R : ConcurrentGraph} {c : WriteCall}

lemma content_storedEdge {fromNode toNode : NodeId} (hends : fromNode ∈ g.nodes ∧ toNode ∈ g.nodes) (id : EdgeId)
    (label : String) : (Op.createEdge id label fromNode toNode).apply g.content =
      g.content.putEdge id ⟨label, fromNode, toNode, fun _ => none⟩ := by
  simp only [Op.apply, ConcurrentGraph.content_nodes_isSome]
  rw [if_pos hends]

/-- A call does its operations. -/
lemma content_apply (hg : g.Consistent) (hc : c.NonEmptyLabel) :
    (c.apply g).content = (callOps g c).foldl (fun G op => op.apply G) g.content := by
  rcases c with labels | ⟨fromNode, toNode, label⟩ | id | id | ⟨id, key, value⟩ | ⟨id, key⟩ | ⟨id, label⟩ |
    ⟨id, label⟩ | ⟨id, key, value⟩ | ⟨id, key⟩ | ⟨id, labels⟩ | ⟨id, fromNode, toNode, label⟩
  case createNodeWithLabels => exact ConcurrentGraph.content_createNodeWithLabels g labels
  case createEdge =>
    change (g.createEdge fromNode toNode label).1.content = _
    simp only [callOps, ConcurrentGraph.createEdge]
    by_cases hends : fromNode ∈ g.nodes ∧ toNode ∈ g.nodes
    · simp only [hends, not_true, if_false, and_self, if_true, List.foldl_cons, List.foldl_nil]
      rw [content_storedEdge hends]
      exact ConcurrentGraph.content_insertEdge _ _ _ _ _
    · rw [if_neg hends]
      by_cases hfrom : fromNode ∈ g.nodes
      · have hto : toNode ∉ g.nodes := fun hto => hends ⟨hfrom, hto⟩
        simp [hfrom, hto]
      · simp [hfrom]
  case deleteNode =>
    change (g.deleteNode id).1.content = _
    by_cases hid : id ∈ g.nodes
    · simp only [callOps, hid, if_true]
      exact hg.content_deleteNode id
    · simp [callOps, hid, ConcurrentGraph.deleteNode, AList.lookup_eq_none.mpr hid]
  case deleteEdge =>
    change (g.deleteEdge id).1.content = _
    by_cases hid : id ∈ g.edges
    · simp only [callOps, hid, if_true]
      exact ConcurrentGraph.content_deleteEdge g id
    · simp [callOps, hid, ConcurrentGraph.deleteEdge, AList.lookup_eq_none.mpr hid]
  case setNodeProperty => exact ConcurrentGraph.content_setNodeProperty g id key value
  case removeNodeProperty =>
    change (g.removeNodeProperty id key).1.content = _
    simp only [callOps]
    split
    · exact ConcurrentGraph.content_removeNodeProperty g id key
    · rename_i habsent
      rw [g.removeNodeProperty_of_absent (by simpa using habsent)]
      rfl
  case addNodeLabel =>
    change (g.addNodeLabel id label).content = _
    simp only [callOps]
    split
    · exact ConcurrentGraph.content_addNodeLabel g id hc
    · rename_i hold
      rw [g.addNodeLabel_of_not_withNode hold]
      rfl
  case removeNodeLabel =>
    change (g.removeNodeLabel id label).content = _
    simp only [callOps]
    split
    · exact ConcurrentGraph.content_removeNodeLabel g id label
    · rename_i hlacked
      rw [g.removeNodeLabel_of_not_withNode hlacked]
      rfl
  case setEdgeProperty => exact ConcurrentGraph.content_setEdgeProperty g id key value
  case removeEdgeProperty =>
    change (g.removeEdgeProperty id key).1.content = _
    simp only [callOps]
    split
    · exact ConcurrentGraph.content_removeEdgeProperty g id key
    · rename_i habsent
      rw [g.removeEdgeProperty_of_absent (by simpa using habsent)]
      rfl
  case restoreNode => exact ConcurrentGraph.content_createNodeWithIdAndLabels g id labels
  case restoreEdge =>
    change (g.createEdgeWithId id fromNode toNode label).1.content = _
    rw [ConcurrentGraph.content_createEdgeWithId]
    simp only [callOps]
    split
    · rfl
    · rename_i hends
      simp only [Op.apply, ConcurrentGraph.content_nodes_isSome]
      rw [if_neg hends]
      rfl

/-- The entries of a call stand for its operations, with the values that are read back. -/
lemma op_walEntries (J : JsonText) (g : ConcurrentGraph) (c : WriteCall) :
    (walEntries J g c).map (WalEntryData.op J) = (callOps g c).map (Op.mapValues (readBack J)) := by
  rcases c with labels | ⟨fromNode, toNode, label⟩ | id | id | ⟨id, key, value⟩ | ⟨id, key⟩ | ⟨id, label⟩ |
    ⟨id, label⟩ | ⟨id, key, value⟩ | ⟨id, key⟩ | ⟨id, labels⟩ | ⟨id, fromNode, toNode, label⟩
  all_goals
    simp only [walEntries, callOps]
    first
      | rfl
      | (split <;> rfl)

/-! ## The follower -/

/-- The call that a follower makes for an entry. -/
def entryCall (J : JsonText) : WalEntryData → WriteCall
  | .createNode nodeId labels => .restoreNode nodeId labels
  | .deleteNode nodeId => .deleteNode nodeId
  | .createEdge edgeId fromNode toNode label => .restoreEdge edgeId fromNode toNode label
  | .deleteEdge edgeId => .deleteEdge edgeId
  | .setProperty targetId isNode key value =>
      if isNode then .setNodeProperty targetId key (walStringToPropertyValue J value)
      else .setEdgeProperty targetId key (walStringToPropertyValue J value)
  | .removeProperty targetId isNode key =>
      if isNode then .removeNodeProperty targetId key else .removeEdgeProperty targetId key
  | .addLabel nodeId label => .addNodeLabel nodeId label
  | .removeLabel nodeId label => .removeNodeLabel nodeId label

lemma applyWalEntry_eq_apply (J : JsonText) (R : ConcurrentGraph) (x : WalEntryData) :
    applyWalEntry J R x = (entryCall J x).apply R := by
  rcases x with ⟨id, labels⟩ | id | ⟨id, fromNode, toNode, label⟩ | id | ⟨id, isNode, key, value⟩ |
    ⟨id, isNode, key⟩ | ⟨id, label⟩ | ⟨id, label⟩
  case setProperty => rcases isNode <;> rfl
  case removeProperty => rcases isNode <;> rfl
  all_goals rfl

/-- The call of a follower is fresh where the call of the leader was. -/
lemma fresh_entryCall (hc : c.Fresh g) {x : WalEntryData} (hx : x ∈ walEntries J g c)
    (hnodes : ∀ id, id ∈ R.nodes ↔ id ∈ g.nodes) (hedges : ∀ id, id ∈ R.edges ↔ id ∈ g.edges) :
    (entryCall J x).Fresh R := by
  obtain ⟨hlabel, hfresh⟩ := hc
  rcases c with labels | ⟨fromNode, toNode, label⟩ | id | id | ⟨id, key, value⟩ | ⟨id, key⟩ | ⟨id, label⟩ |
    ⟨id, label⟩ | ⟨id, key, value⟩ | ⟨id, key⟩ | ⟨id, labels⟩ | ⟨id, fromNode, toNode, label⟩
  case createNodeWithLabels =>
    obtain rfl := List.mem_singleton.mp hx
    exact ⟨trivial, fun hid => hfresh ((hnodes _).mp hid)⟩
  case createEdge =>
    simp only [walEntries, List.mem_ite_nil_right, List.mem_singleton] at hx
    obtain ⟨hends, rfl⟩ := hx
    exact ⟨trivial, fun hid => hfresh hends.1 hends.2 ((hedges _).mp hid)⟩
  case restoreNode =>
    obtain rfl := List.mem_singleton.mp hx
    exact ⟨trivial, fun hid => hfresh ((hnodes _).mp hid)⟩
  case restoreEdge =>
    simp only [walEntries, List.mem_ite_nil_right, List.mem_singleton] at hx
    obtain ⟨-, rfl⟩ := hx
    exact ⟨trivial, fun hid => hfresh ((hedges _).mp hid)⟩
  case setNodeProperty | setEdgeProperty =>
    obtain rfl := List.mem_singleton.mp hx
    exact ⟨trivial, trivial⟩
  all_goals
    simp only [walEntries, List.mem_ite_nil_right, List.mem_singleton] at hx
    obtain ⟨-, rfl⟩ := hx
    first
      | exact ⟨trivial, trivial⟩
      | exact ⟨hlabel, trivial⟩

/-- An entry does on the content of a follower what it stands for. -/
lemma applyWalEntry_content (hR : R.Consistent) {x : WalEntryData} (hx : (entryCall J x).Fresh R) :
    (applyWalEntry J R x).Consistent ∧ (applyWalEntry J R x).content = (x.op J).apply R.content := by
  refine ⟨?_, (hR.linked.apply J ?_ ?_).2⟩
  · rw [applyWalEntry_eq_apply]
    exact hR.apply hx.1 hx.2
  · -- the edge is not there yet
    rintro e a b l rfl d hd
    exact absurd ((HashMap.mem_iff_exists _ _).mpr ⟨d, hd⟩) hx.2
  · rintro n l rfl
    exact hx.1

/-- One call of the leader. -/
lemma follower_call (hg : g.Consistent) (hc : c.Fresh g) (hR : R.Consistent)
    (hcontent : R.content = g.content.mapValues (readBack J)) :
    ((walEntries J g c).foldl (applyWalEntry J) R).Consistent ∧
      ((walEntries J g c).foldl (applyWalEntry J) R).content = (c.apply g).content.mapValues (readBack J) := by
  have hnodes : ∀ id, id ∈ R.nodes ↔ id ∈ g.nodes := by
    intro id
    rw [← ConcurrentGraph.content_nodes_isSome, hcontent, mapValues_nodes_isSome, ConcurrentGraph.content_nodes_isSome]
  have hedges : ∀ id, id ∈ R.edges ↔ id ∈ g.edges := by
    intro id
    rw [← ConcurrentGraph.content_edges_isSome, hcontent, mapValues_edges_isSome, ConcurrentGraph.content_edges_isSome]
  have hleader : (c.apply g).content.mapValues (readBack J) =
      ((walEntries J g c).map (WalEntryData.op J)).foldl (fun G op => op.apply G) R.content := by
    rw [content_apply hg hc.1, mapValues_foldl, op_walEntries, hcontent]
  rw [hleader]
  have hfresh : ∀ x ∈ walEntries J g c, (entryCall J x).Fresh R := fun x hx => fresh_entryCall hc hx hnodes hedges
  match hentries : walEntries J g c, length_walEntries_le J g c with
  | [], _ => exact ⟨hR, rfl⟩
  | [x], _ => exact applyWalEntry_content hR (hfresh x (by simp [hentries]))

/-- A run of the leader. -/
theorem follower_run (J : JsonText) (hg : g.Consistent) {calls : List WriteCall}
    (hcalls : Along WriteCall.apply WriteCall.Fresh g calls) (hR : R.Consistent)
    (hcontent : R.content = g.content.mapValues (readBack J)) :
    ((runRecords WriteCall.apply (walEntries J) g calls).foldl (applyWalEntry J) R).Consistent ∧
      ((runRecords WriteCall.apply (walEntries J) g calls).foldl (applyWalEntry J) R).content =
        (WriteCall.run g calls).content.mapValues (readBack J) := by
  induction calls generalizing g R with
  | nil => exact ⟨hR, hcontent⟩
  | cons c calls ih =>
    obtain ⟨hconsistent, hstep⟩ := follower_call hg hcalls.1 hR hcontent
    rw [runRecords, List.foldl_append]
    exact ih (hg.apply hcalls.1.1 hcalls.1.2) hcalls.2 hconsistent hstep

end

end Maharit
