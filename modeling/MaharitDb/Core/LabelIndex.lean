import MaharitDb.Core.GraphBackend
import MaharitDb.Lib.GuardedRun
import MaharitDb.Lib.SetMap

/-!
# The label index

The index of labels (`maharit-core/src/index.rs`): for nodes and for edges a map from the labels to the ids and a map
back.  `Describes` says that all four maps describe the same labels of nodes and edges.  Every call but one keeps
this: an edge that is added again under another label stays entered under the old one.
-/

namespace Maharit

open GuardedRun

/-- The index. -/
structure LabelIndex where
  nodeLabels : HashMap String (HashSet NodeId)
  nodeToLabels : HashMap NodeId (HashSet String)
  edgeLabels : HashMap String (HashSet EdgeId)
  edgeToLabel : HashMap EdgeId String

namespace LabelIndex

/-- The empty index. -/
def new : LabelIndex := ⟨∅, ∅, ∅, ∅⟩

/-! ## Nodes -/

/-- One round of the loop of `add_node_labels`. -/
def addNodeLabel (ix : LabelIndex) (id : NodeId) (label : String) : LabelIndex :=
  if label.isEmpty then ix
  else
    { ix with
      nodeLabels := HashMap.modifyDefault ix.nodeLabels label (HashSet.add · id)
      nodeToLabels := HashMap.modifyDefault ix.nodeToLabels id (HashSet.add · label) }

/-- Enter a node under several labels. -/
def addNodeLabels (ix : LabelIndex) (id : NodeId) (labels : List String) : LabelIndex :=
  labels.foldl (fun ix label => ix.addNodeLabel id label) ix

/-- Enter a node under one label. -/
def addNode (ix : LabelIndex) (id : NodeId) (label : String) : LabelIndex :=
  if label.isEmpty then ix else ix.addNodeLabels id [label]

/-- Take a node out of the index. -/
def removeNode (ix : LabelIndex) (id : NodeId) : LabelIndex :=
  match ix.nodeToLabels.lookup id with
  | none => ix
  | some labels =>
      { ix with
        nodeLabels := labels.toList.foldl (fun m label => HashMap.removeMember m label id) ix.nodeLabels
        nodeToLabels := ix.nodeToLabels.erase id }

/-- Take a node out of one label. -/
def removeNodeLabel (ix : LabelIndex) (id : NodeId) (label : String) : LabelIndex :=
  { ix with
    nodeLabels := HashMap.removeMember ix.nodeLabels label id
    nodeToLabels := HashMap.removeMember ix.nodeToLabels id label }

/-- Give a node a label in place of all it has; the first of the old labels is returned. -/
def updateNodeLabel (ix : LabelIndex) (id : NodeId) (newLabel : String) : LabelIndex × Option String :=
  let oldFirst := (HashMap.getDefault ix.nodeToLabels id).toList.head?
  let ix := ix.removeNode id
  if newLabel.isEmpty then (ix, oldFirst)
  else
    ({ ix with
        nodeLabels := HashMap.modifyDefault ix.nodeLabels newLabel (HashSet.add · id)
        nodeToLabels := ix.nodeToLabels.insert id (HashSet.add ∅ newLabel) }, oldFirst)

/-- The labels of a node. -/
def getNodeLabels (ix : LabelIndex) (id : NodeId) : List String := (HashMap.getDefault ix.nodeToLabels id).toList

/-- The nodes under a label. -/
def getNodesByLabel (ix : LabelIndex) (label : String) : List NodeId :=
  (HashMap.getDefault ix.nodeLabels label).toList

/-! ## Edges -/

/-- Enter an edge under its label. -/
def addEdge (ix : LabelIndex) (id : EdgeId) (label : String) : LabelIndex :=
  if label.isEmpty then ix
  else
    { ix with
      edgeLabels := HashMap.modifyDefault ix.edgeLabels label (HashSet.add · id)
      edgeToLabel := ix.edgeToLabel.insert id label }

/-- Take an edge out of the index. -/
def removeEdge (ix : LabelIndex) (id : EdgeId) : LabelIndex :=
  match ix.edgeToLabel.lookup id with
  | none => ix
  | some label =>
      { ix with
        edgeLabels := HashMap.removeMember ix.edgeLabels label id
        edgeToLabel := ix.edgeToLabel.erase id }

/-- The edges under a label. -/
def getEdgesByType (ix : LabelIndex) (edgeType : String) : List EdgeId :=
  (HashMap.getDefault ix.edgeLabels edgeType).toList

end LabelIndex

/-! ## The labels that are carried -/

/-- The labels of the nodes, and of each edge the one it has. -/
@[ext] structure CarriedLabels where
  nodes : NodeId → Set String
  edges : EdgeId → Option String

/-- A call on the index. -/
inductive LabelCall where
  | addNode (id : NodeId) (label : String)
  | addNodeLabels (id : NodeId) (labels : List String)
  | removeNode (id : NodeId)
  | removeNodeLabel (id : NodeId) (label : String)
  | updateNodeLabel (id : NodeId) (newLabel : String)
  | addEdge (id : EdgeId) (label : String)
  | removeEdge (id : EdgeId)
  deriving DecidableEq, Repr

namespace LabelCall

/-- The index after a call. -/
def apply (ix : LabelIndex) : LabelCall → LabelIndex
  | addNode id label => ix.addNode id label
  | addNodeLabels id labels => ix.addNodeLabels id labels
  | removeNode id => ix.removeNode id
  | removeNodeLabel id label => ix.removeNodeLabel id label
  | updateNodeLabel id newLabel => (ix.updateNodeLabel id newLabel).1
  | addEdge id label => ix.addEdge id label
  | removeEdge id => ix.removeEdge id

/-- The labels that nodes and edges carry after a call: a node can have several, an edge has the last one. -/
def carry (c : CarriedLabels) : LabelCall → CarriedLabels
  | addNode id label => { c with nodes := Function.update c.nodes id (c.nodes id ∪ ({label} \ {""})) }
  | addNodeLabels id labels =>
      { c with nodes := Function.update c.nodes id (c.nodes id ∪ ({label | label ∈ labels} \ {""})) }
  | removeNode id => { c with nodes := Function.update c.nodes id ∅ }
  | removeNodeLabel id label => { c with nodes := Function.update c.nodes id (c.nodes id \ {label}) }
  | updateNodeLabel id newLabel => { c with nodes := Function.update c.nodes id ({newLabel} \ {""}) }
  | addEdge id label => if label = "" then c else { c with edges := Function.update c.edges id (some label) }
  | removeEdge id => { c with edges := Function.update c.edges id none }

/-- The index with the labels that are carried, after a call. -/
def step (s : LabelIndex × CarriedLabels) (call : LabelCall) : LabelIndex × CarriedLabels :=
  (call.apply s.1, call.carry s.2)

/-- The call gives no edge that has a label another one. -/
def Keeps (s : LabelIndex × CarriedLabels) : LabelCall → Prop
  | addEdge id label => label ≠ "" → ∀ old, s.2.edges id = some old → old = label
  | _ => True

end LabelCall

namespace LabelIndex

/-- The forward and the reverse maps describe these labels. -/
structure Describes (ix : LabelIndex) (c : CarriedLabels) : Prop where
  nodesByLabel : ∀ label id, id ∈ ix.getNodesByLabel label ↔ label ∈ c.nodes id
  labelsOfNode : ∀ id label, label ∈ ix.getNodeLabels id ↔ label ∈ c.nodes id
  edgesByType : ∀ label id, id ∈ ix.getEdgesByType label ↔ c.edges id = some label
  labelOfEdge : ∀ id, ix.edgeToLabel.lookup id = c.edges id

/-- The start: nothing is entered and nothing is carried. -/
def start : LabelIndex × CarriedLabels := (new, ⟨fun _ => ∅, fun _ => none⟩)

variable {ix : LabelIndex} {c : CarriedLabels}

lemma describes_start : start.1.Describes start.2 where
  nodesByLabel label id := by simp [start, new, getNodesByLabel]
  labelsOfNode id label := by simp [start, new, getNodeLabels]
  edgesByType label id := by simp [start, new, getEdgesByType]
  labelOfEdge id := by simp [start, new]

/-! ## The calls on nodes -/

/-- The labels after a node got some more. -/
lemma mem_update_union (f : NodeId → Set String) (id id' : NodeId) (new : Set String) (label : String) :
    label ∈ Function.update f id (f id ∪ new) id' ↔ label ∈ f id' ∨ id' = id ∧ label ∈ new := by
  by_cases hid : id' = id
  · subst hid
    simp
  · simp [Function.update_of_ne hid, hid]

lemma Describes.addNodeLabel (h : ix.Describes c) (id : NodeId) (label : String) :
    (ix.addNodeLabel id label).Describes
      { c with nodes := Function.update c.nodes id (c.nodes id ∪ ({label} \ {""})) } := by
  unfold LabelIndex.addNodeLabel
  split
  · rename_i hempty
    have hlabel : label = "" := String.isEmpty_iff.mp hempty
    have hsame : Function.update c.nodes id (c.nodes id ∪ ({label} \ {""})) = c.nodes := by
      rw [hlabel]
      simp
    rw [hsame]
    exact h
  · rename_i hempty
    have hlabel : label ≠ "" := fun heq => hempty (String.isEmpty_iff.mpr heq)
    have hnew : ({label} \ {""} : Set String) = {label} := by
      simpa using hlabel.symm
    rw [hnew]
    refine ⟨fun label' id' => ?_, fun id' label' => ?_, h.edgesByType, h.labelOfEdge⟩
    · have hbefore : id' ∈ HashMap.getDefault ix.nodeLabels label' ↔ _ := h.nodesByLabel label' id'
      rw [mem_update_union, Set.mem_singleton_iff, getNodesByLabel, HashSet.mem_toList,
        HashSet.mem_modifyDefault_add, hbefore]
      tauto
    · have hbefore : label' ∈ HashMap.getDefault ix.nodeToLabels id' ↔ _ := h.labelsOfNode id' label'
      rw [mem_update_union, Set.mem_singleton_iff, getNodeLabels, HashSet.mem_toList,
        HashSet.mem_modifyDefault_add, hbefore]
      tauto

lemma Describes.addNodeLabels (h : ix.Describes c) (id : NodeId) (labels : List String) :
    (ix.addNodeLabels id labels).Describes
      { c with nodes := Function.update c.nodes id (c.nodes id ∪ ({label | label ∈ labels} \ {""})) } := by
  unfold LabelIndex.addNodeLabels
  induction labels generalizing ix c with
  | nil => simpa using h
  | cons label labels ih =>
    have hstep := ih (h.addNodeLabel id label)
    have hsame : ∀ id', Function.update (Function.update c.nodes id (c.nodes id ∪ ({label} \ {""}))) id
        (Function.update c.nodes id (c.nodes id ∪ ({label} \ {""})) id ∪ ({label | label ∈ labels} \ {""})) id' =
        Function.update c.nodes id (c.nodes id ∪ ({l | l ∈ label :: labels} \ {""})) id' := by
      intro id'
      ext l
      simp only [mem_update_union, Set.mem_sdiff, Set.mem_singleton_iff, Set.mem_setOf_eq, List.mem_cons]
      tauto
    rw [funext hsame] at hstep
    exact hstep

lemma Describes.addNode (h : ix.Describes c) (id : NodeId) (label : String) :
    (ix.addNode id label).Describes
      { c with nodes := Function.update c.nodes id (c.nodes id ∪ ({label} \ {""})) } := by
  have hadd := h.addNodeLabel id label
  unfold LabelIndex.addNode
  split
  · rename_i hempty
    rwa [LabelIndex.addNodeLabel, if_pos hempty] at hadd
  · exact hadd

/-- The labels after a node lost some. -/
lemma mem_update_sdiff (f : NodeId → Set String) (id id' : NodeId) (old : Set String) (label : String) :
    label ∈ Function.update f id (f id \ old) id' ↔ label ∈ f id' ∧ ¬(id' = id ∧ label ∈ old) := by
  by_cases hid : id' = id
  · subst hid
    simp
  · simp [Function.update_of_ne hid, hid]

lemma Describes.removeNodeLabel (h : ix.Describes c) (id : NodeId) (label : String) :
    (ix.removeNodeLabel id label).Describes { c with nodes := Function.update c.nodes id (c.nodes id \ {label}) } := by
  refine ⟨fun label' id' => ?_, fun id' label' => ?_, h.edgesByType, h.labelOfEdge⟩
  · have hbefore : id' ∈ HashMap.getDefault ix.nodeLabels label' ↔ _ := h.nodesByLabel label' id'
    rw [mem_update_sdiff, Set.mem_singleton_iff, LabelIndex.removeNodeLabel, getNodesByLabel, HashSet.mem_toList,
      HashMap.mem_removeMember, hbefore]
    tauto
  · have hbefore : label' ∈ HashMap.getDefault ix.nodeToLabels id' ↔ _ := h.labelsOfNode id' label'
    rw [mem_update_sdiff, Set.mem_singleton_iff, LabelIndex.removeNodeLabel, getNodeLabels, HashSet.mem_toList,
      HashMap.mem_removeMember, hbefore]

lemma Describes.removeNode (h : ix.Describes c) (id : NodeId) :
    (ix.removeNode id).Describes { c with nodes := Function.update c.nodes id ∅ } := by
  have hempty : Function.update c.nodes id ∅ = Function.update c.nodes id (c.nodes id \ c.nodes id) := by
    rw [sdiff_self]
    rfl
  rw [hempty]
  unfold LabelIndex.removeNode
  cases hlabels : ix.nodeToLabels.lookup id with
  | none =>
    have hnone : c.nodes id = ∅ := by
      ext label
      rw [← h.labelsOfNode id label]
      simp [getNodeLabels, HashMap.getDefault, hlabels]
    have hsame : Function.update c.nodes id (c.nodes id \ c.nodes id) = c.nodes := by
      rw [sdiff_self, ← Function.update_eq_self id c.nodes]
      simp [hnone]
    rw [hsame]
    exact h
  | some labels =>
    have hmem : ∀ label, label ∈ labels.toList ↔ label ∈ c.nodes id := by
      intro label
      rw [← h.labelsOfNode id label]
      simp [getNodeLabels, HashMap.getDefault, hlabels]
    refine ⟨fun label' id' => ?_, fun id' label' => ?_, h.edgesByType, h.labelOfEdge⟩
    · have hbefore : id' ∈ HashMap.getDefault ix.nodeLabels label' ↔ _ := h.nodesByLabel label' id'
      rw [mem_update_sdiff, getNodesByLabel, HashSet.mem_toList, HashMap.mem_foldl_removeMember, hbefore, hmem]
      tauto
    · have hbefore : label' ∈ HashMap.getDefault ix.nodeToLabels id' ↔ _ := h.labelsOfNode id' label'
      rw [mem_update_sdiff, getNodeLabels, HashSet.mem_toList, HashMap.getDefault_erase]
      by_cases hid : id' = id
      · subst hid
        simp
      · simp [hid, hbefore]

lemma Describes.updateNodeLabel (h : ix.Describes c) (id : NodeId) (newLabel : String) :
    (ix.updateNodeLabel id newLabel).1.Describes
      { c with nodes := Function.update c.nodes id ({newLabel} \ {""}) } := by
  have hremoved := h.removeNode id
  unfold LabelIndex.updateNodeLabel
  simp only
  split
  · rename_i hempty
    have hlabel : newLabel = "" := String.isEmpty_iff.mp hempty
    have hnew : ({newLabel} \ {""} : Set String) = ∅ := by simp [hlabel]
    rw [hnew]
    exact hremoved
  · rename_i hempty
    have hlabel : newLabel ≠ "" := fun heq => hempty (String.isEmpty_iff.mpr heq)
    have hnew : ({newLabel} \ {""} : Set String) = {newLabel} := by
      simpa using hlabel.symm
    rw [hnew]
    refine ⟨fun label' id' => ?_, fun id' label' => ?_, hremoved.edgesByType, hremoved.labelOfEdge⟩
    · have hbefore : id' ∈ HashMap.getDefault (ix.removeNode id).nodeLabels label' ↔ _ :=
        hremoved.nodesByLabel label' id'
      rw [getNodesByLabel, HashSet.mem_toList, HashSet.mem_modifyDefault_add, hbefore]
      by_cases hid : id' = id
      · subst hid
        simp
      · simp [Function.update_of_ne hid, hid]
    · have hbefore : label' ∈ HashMap.getDefault (ix.removeNode id).nodeToLabels id' ↔ _ :=
        hremoved.labelsOfNode id' label'
      rw [getNodeLabels, HashSet.mem_toList, HashMap.getDefault_insert]
      by_cases hid : id' = id
      · subst hid
        simp
      · simp [Function.update_of_ne hid, hid, hbefore]

/-! ## The calls on edges -/

lemma Describes.addEdge (h : ix.Describes c) (id : EdgeId) (label : String)
    (hkeep : label ≠ "" → ∀ old, c.edges id = some old → old = label) :
    (ix.addEdge id label).Describes (LabelCall.carry c (.addEdge id label)) := by
  simp only [LabelIndex.addEdge, LabelCall.carry]
  by_cases hempty : label = ""
  · rw [if_pos hempty, if_pos (String.isEmpty_iff.mpr hempty)]
    exact h
  · rw [if_neg hempty, if_neg fun heq => hempty (String.isEmpty_iff.mp heq)]
    refine ⟨h.nodesByLabel, h.labelsOfNode, fun label' id' => ?_, fun id' => ?_⟩
    · have hbefore : id' ∈ HashMap.getDefault ix.edgeLabels label' ↔ _ := h.edgesByType label' id'
      rw [getEdgesByType, HashSet.mem_toList, HashSet.mem_modifyDefault_add, hbefore]
      by_cases hid : id' = id
      · subst hid
        simp only [Function.update_self, Option.some.injEq, and_true]
        constructor
        · rintro (rfl | hold)
          · rfl
          · exact (hkeep hempty label' hold).symm
        · exact fun heq => Or.inl heq.symm
      · simp [Function.update_of_ne hid, hid]
    · rw [HashMap.lookup_insert_ite, h.labelOfEdge id']
      by_cases hid : id' = id
      · subst hid
        simp
      · simp [Function.update_of_ne hid, hid]

lemma Describes.removeEdge (h : ix.Describes c) (id : EdgeId) :
    (ix.removeEdge id).Describes { c with edges := Function.update c.edges id none } := by
  unfold LabelIndex.removeEdge
  have hlabel := h.labelOfEdge id
  cases hlookup : ix.edgeToLabel.lookup id with
  | none =>
    have hsame : Function.update c.edges id none = c.edges := by
      rw [← hlookup, hlabel, Function.update_eq_self]
    rw [hsame]
    exact h
  | some label =>
    rw [hlookup] at hlabel
    refine ⟨h.nodesByLabel, h.labelsOfNode, fun label' id' => ?_, fun id' => ?_⟩
    · have hbefore : id' ∈ HashMap.getDefault ix.edgeLabels label' ↔ _ := h.edgesByType label' id'
      rw [getEdgesByType, HashSet.mem_toList, HashMap.mem_removeMember, hbefore]
      by_cases hid : id' = id
      · subst hid
        simp only [← hlabel, Option.some.injEq, and_true, Function.update_self, reduceCtorEq, iff_false, not_and,
          not_not]
        exact Eq.symm
      · simp [Function.update_of_ne hid, hid]
    · rw [HashMap.lookup_erase_ite, h.labelOfEdge id']
      by_cases hid : id' = id
      · subst hid
        simp
      · simp [Function.update_of_ne hid, hid]

/-! ## Runs -/

lemma Describes.apply (h : ix.Describes c) (call : LabelCall) (hkeep : call.Keeps (ix, c)) :
    (call.apply ix).Describes (call.carry c) := by
  cases call with
  | addNode id label => exact h.addNode id label
  | addNodeLabels id labels => exact h.addNodeLabels id labels
  | removeNode id => exact h.removeNode id
  | removeNodeLabel id label => exact h.removeNodeLabel id label
  | updateNodeLabel id newLabel => exact h.updateNodeLabel id newLabel
  | addEdge id label => exact h.addEdge id label hkeep
  | removeEdge id => exact h.removeEdge id

/-- An edge that gets another label is still entered under the old one. -/
lemma Describes.keeps_of_apply (h : ix.Describes c) (call : LabelCall)
    (happly : (call.apply ix).Describes (call.carry c)) : call.Keeps (ix, c) := by
  cases call with
  | addEdge id label =>
    intro hlabel old hold
    have hmem : id ∈ (ix.addEdge id label).getEdgesByType old := by
      have hbefore : id ∈ HashMap.getDefault ix.edgeLabels old := (h.edgesByType old id).mpr hold
      rw [LabelIndex.addEdge, if_neg fun heq => hlabel (String.isEmpty_iff.mp heq), getEdgesByType,
        HashSet.mem_toList, HashSet.mem_modifyDefault_add]
      exact Or.inr hbefore
    have hcarried := (happly.edgesByType old id).mp hmem
    simp only [LabelCall.carry, if_neg hlabel, Function.update_self] at hcarried
    exact (Option.some.inj hcarried).symm
  | _ => trivial

end LabelIndex

open LabelIndex in
/-- The maps describe the labels that are carried after every sequence of calls exactly when no call of it gives an
edge that has a label another one. -/
theorem labelIndex_describes_iff (calls : List LabelCall) :
    (∀ pre, pre <+: calls → (pre.foldl LabelCall.step start).1.Describes (pre.foldl LabelCall.step start).2) ↔
      Along LabelCall.step LabelCall.Keeps start calls := by
  have hkeep : ∀ (s : LabelIndex × CarriedLabels) (call : LabelCall), s.1.Describes s.2 → call.Keeps s →
      (LabelCall.step s call).1.Describes (LabelCall.step s call).2 := fun s call hs hguard => hs.apply call hguard
  have hexact : ∀ (s : LabelIndex × CarriedLabels) (call : LabelCall), s.1.Describes s.2 →
      (LabelCall.step s call).1.Describes (LabelCall.step s call).2 → call.Keeps s :=
    fun s call hs hgood => hs.keeps_of_apply call hgood
  exact forall_prefix_iff_along (fun s hs => hs) hkeep hexact describes_start

open LabelIndex in
/-- An edge that was entered as `A` and then as `B` is found under both. -/
theorem not_labelIndex_describes :
    ¬ ∀ calls : List LabelCall, (calls.foldl LabelCall.step start).1.Describes (calls.foldl LabelCall.step start).2 := by
  intro hall
  have h := hall [.addEdge 0 "A", .addEdge 0 "B"]
  have hfound := (h.edgesByType "A" 0).mp (by decide)
  have hcarried : (some "B" : Option String) = some "A" := hfound
  exact absurd hcarried (by decide)

end Maharit
