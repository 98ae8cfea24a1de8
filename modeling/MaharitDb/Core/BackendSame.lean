import MaharitDb.Lib.GraphRenaming
import MaharitDb.Core.BackendLaws

/-!
# Answers up to renaming

The calls of the backend interface with their answers, and when two answers are the same up to a
renaming of the ids.  Two graphs with the same content up to renaming, each coherent in itself, give
the same answers to every reading call.
-/

namespace Maharit

/-- A call of the backend interface over ids of some kind. -/
inductive BackendCall (ι : Type) where
  | getNode (id : ι)
  | nodeHasAllLabels (id : ι) (labels : List String)
  | getNodeProperty (id : ι) (key : String)
  | nodesByLabel (label : String)
  | getEdge (id : ι)
  | nodeIds
  | allNodes
  | edgeIds
  | allEdges
  | outgoingEdges (id : ι)
  | incomingEdges (id : ι)
  | hasIncidentEdges (id : ι)
  | nodeCount
  | edgeCount
  | containsNode (id : ι)
  | createNodeWithLabels (labels : List String)
  | createEdge (fromNode toNode : ι) (label : String)
  | deleteNode (id : ι)
  | deleteEdge (id : ι)
  | setNodeProperty (id : ι) (key : String) (value : PropertyValue)
  | removeNodeProperty (id : ι) (key : String)
  | addNodeLabel (id : ι) (label : String)
  | removeNodeLabel (id : ι) (label : String)
  | setEdgeProperty (id : ι) (key : String) (value : PropertyValue)
  | removeEdgeProperty (id : ι) (key : String)
  | restoreNode (id : ι) (labels : List String)
  | restoreEdge (id fromNode toNode : ι) (label : String)

/-- What a call returns. -/
inductive Answer where
  | done
  | flag (b : Bool)
  | count (k : ℕ)
  | value (v : Option PropertyValue)
  | node (n : Option Node)
  | edge (e : Option Edge)
  | nodeId (id : NodeId)
  | edgeId (r : Except GraphError EdgeId)
  | result (r : Except GraphError Unit)
  | nodeIds (ids : List NodeId)
  | edgeIds (ids : List EdgeId)
  | nodes (ns : List Node)
  | edges (es : List Edge)

namespace BackendCall

/-- Exchange the ids of a call. -/
def map {ι κ : Type} (f : ι → κ) : BackendCall ι → BackendCall κ
  | getNode id => getNode (f id)
  | nodeHasAllLabels id labels => nodeHasAllLabels (f id) labels
  | getNodeProperty id key => getNodeProperty (f id) key
  | nodesByLabel label => nodesByLabel label
  | getEdge id => getEdge (f id)
  | nodeIds => nodeIds
  | allNodes => allNodes
  | edgeIds => edgeIds
  | allEdges => allEdges
  | outgoingEdges id => outgoingEdges (f id)
  | incomingEdges id => incomingEdges (f id)
  | hasIncidentEdges id => hasIncidentEdges (f id)
  | nodeCount => nodeCount
  | edgeCount => edgeCount
  | containsNode id => containsNode (f id)
  | createNodeWithLabels labels => createNodeWithLabels labels
  | createEdge fromNode toNode label => createEdge (f fromNode) (f toNode) label
  | deleteNode id => deleteNode (f id)
  | deleteEdge id => deleteEdge (f id)
  | setNodeProperty id key value => setNodeProperty (f id) key value
  | removeNodeProperty id key => removeNodeProperty (f id) key
  | addNodeLabel id label => addNodeLabel (f id) label
  | removeNodeLabel id label => removeNodeLabel (f id) label
  | setEdgeProperty id key value => setEdgeProperty (f id) key value
  | removeEdgeProperty id key => removeEdgeProperty (f id) key
  | restoreNode id labels => restoreNode (f id) labels
  | restoreEdge id fromNode toNode label => restoreEdge (f id) (f fromNode) (f toNode) label

/-- The node ids a call names. -/
def nodeRefs {ι : Type} : BackendCall ι → List ι
  | getNode id | nodeHasAllLabels id _ | getNodeProperty id _ | outgoingEdges id | incomingEdges id
  | hasIncidentEdges id | containsNode id | deleteNode id | setNodeProperty id _ _
  | removeNodeProperty id _ | addNodeLabel id _ | removeNodeLabel id _ | restoreNode id _ => [id]
  | createEdge fromNode toNode _ | restoreEdge _ fromNode toNode _ => [fromNode, toNode]
  | _ => []

/-- The edge ids a call names. -/
def edgeRefs {ι : Type} : BackendCall ι → List ι
  | getEdge id | deleteEdge id | setEdgeProperty id _ _ | removeEdgeProperty id _
  | restoreEdge id _ _ _ => [id]
  | _ => []

/-- The state after a call, and its answer. -/
def exec {σ : Type} [GraphBackend σ] (s : σ) : BackendCall UInt64 → σ × Answer
  | getNode id => (s, .node (GraphBackend.getNode s id))
  | nodeHasAllLabels id labels => (s, .flag (GraphBackend.nodeHasAllLabels s id labels))
  | getNodeProperty id key => (s, .value (GraphBackend.getNodeProperty s id key))
  | nodesByLabel label => (s, .nodeIds (GraphBackend.nodesByLabel s label))
  | getEdge id => (s, .edge (GraphBackend.getEdge s id))
  | nodeIds => (s, .nodeIds (GraphBackend.nodeIds s))
  | allNodes => (s, .nodes (GraphBackend.allNodes s))
  | edgeIds => (s, .edgeIds (GraphBackend.edgeIds s))
  | allEdges => (s, .edges (GraphBackend.allEdges s))
  | outgoingEdges id => (s, .edges (GraphBackend.outgoingEdges s id))
  | incomingEdges id => (s, .edges (GraphBackend.incomingEdges s id))
  | hasIncidentEdges id => (s, .flag (GraphBackend.hasIncidentEdges s id))
  | nodeCount => (s, .count (GraphBackend.nodeCount s))
  | edgeCount => (s, .count (GraphBackend.edgeCount s))
  | containsNode id => (s, .flag (GraphBackend.containsNode s id))
  | createNodeWithLabels labels => (GraphBackend.createNodeWithLabels s labels).map id .nodeId
  | createEdge fromNode toNode label => (GraphBackend.createEdge s fromNode toNode label).map id .edgeId
  | deleteNode id => (GraphBackend.deleteNode s id).map (fun s => s) .node
  | deleteEdge id => (GraphBackend.deleteEdge s id).map (fun s => s) .edge
  | setNodeProperty id key value => (GraphBackend.setNodeProperty s id key value, .done)
  | removeNodeProperty id key => (GraphBackend.removeNodeProperty s id key).map (fun s => s) .value
  | addNodeLabel id label => (GraphBackend.addNodeLabel s id label, .done)
  | removeNodeLabel id label => (GraphBackend.removeNodeLabel s id label, .done)
  | setEdgeProperty id key value => (GraphBackend.setEdgeProperty s id key value, .done)
  | removeEdgeProperty id key => (GraphBackend.removeEdgeProperty s id key).map (fun s => s) .value
  | restoreNode id labels => (GraphBackend.restoreNode s id labels, .done)
  | restoreEdge id fromNode toNode label =>
      (GraphBackend.restoreEdge s id fromNode toNode label).map (fun s => s) .result

end BackendCall

section Same

variable (ν : NodeId → NodeId → Prop) (ε : EdgeId → EdgeId → Prop)

/-- The same node up to renaming: its label set and its properties agree. -/
structure SameNode (n n' : Node) : Prop where
  id : ν n.id n'.id
  content : n.content = n'.content

/-- The same edge up to renaming. -/
structure SameEdge (e e' : Edge) : Prop where
  id : ε e.id e'.id
  content : e.content.Renamed ν e'.content

/-- The same error up to renaming. -/
inductive SameError : GraphError → GraphError → Prop
  | nodeNotFound {a b : NodeId} (h : ν a b) : SameError (.nodeNotFound a) (.nodeNotFound b)
  | edgeNotFound {a b : EdgeId} (h : ε a b) : SameError (.edgeNotFound a) (.edgeNotFound b)

/-- The same outcome of a fallible call. -/
inductive SameResult {α β : Type} (R : α → β → Prop) : Except GraphError α → Except GraphError β → Prop
  | ok {a : α} {b : β} (h : R a b) : SameResult R (.ok a) (.ok b)
  | error {x y : GraphError} (h : SameError ν ε x y) : SameResult R (.error x) (.error y)

/-- The same answer up to renaming; the order of a listing does not count. -/
inductive SameAnswer : Answer → Answer → Prop
  | done : SameAnswer .done .done
  | flag (b : Bool) : SameAnswer (.flag b) (.flag b)
  | count (k : ℕ) : SameAnswer (.count k) (.count k)
  | value (v : Option PropertyValue) : SameAnswer (.value v) (.value v)
  | node {n n' : Option Node} (h : Option.Rel (SameNode ν) n n') : SameAnswer (.node n) (.node n')
  | edge {e e' : Option Edge} (h : Option.Rel (SameEdge ν ε) e e') : SameAnswer (.edge e) (.edge e')
  | nodeId {a b : NodeId} (h : ν a b) : SameAnswer (.nodeId a) (.nodeId b)
  | edgeId {r r' : Except GraphError EdgeId} (h : SameResult ν ε ε r r') :
      SameAnswer (.edgeId r) (.edgeId r')
  | result {r r' : Except GraphError Unit} (h : SameResult ν ε (· = ·) r r') :
      SameAnswer (.result r) (.result r')
  | nodeIds {l l' : List NodeId} (h : Multiset.Rel ν l l') : SameAnswer (.nodeIds l) (.nodeIds l')
  | edgeIds {l l' : List EdgeId} (h : Multiset.Rel ε l l') : SameAnswer (.edgeIds l) (.edgeIds l')
  | nodes {l l' : List Node} (h : Multiset.Rel (SameNode ν) l l') : SameAnswer (.nodes l) (.nodes l')
  | edges {l l' : List Edge} (h : Multiset.Rel (SameEdge ν ε) l l') :
      SameAnswer (.edges l) (.edges l')

end Same

/-- The content of a graph behind the interface. -/
def GraphBackend.content {σ : Type} [GraphBackend σ] (s : σ) : GraphContent where
  nodes := fun id => (GraphBackend.getNode s id).map Node.content
  edges := fun id => (GraphBackend.getEdge s id).map Edge.content

/-! ## Reading calls -/

section Read

open GraphBackend PropertyGraph

variable {σ σ' : Type} [GraphBackend σ] [GraphBackend σ'] {s : σ} {s' : σ'}
  {ν : NodeId → NodeId → Prop} {ε : EdgeId → EdgeId → Prop}

/-- Two graphs that store the same up to renaming and describe what they store. -/
structure SameGraph (ν : NodeId → NodeId → Prop) (ε : EdgeId → EdgeId → Prop) (s : σ) (s' : σ') : Prop where
  renamed : Renamed ν ε (content s) (content s')
  left : Listed s
  right : Listed s'

namespace SameGraph

lemma node (h : SameGraph ν ε s s') {a b : NodeId} (hab : ν a b) :
    Option.Rel (SameNode ν) (getNode s a) (getNode s' b) := by
  have heq : (getNode s a).map Node.content = (getNode s' b).map Node.content := h.renamed.nodes a b hab
  cases hn : getNode s a with
  | none =>
    rw [hn] at heq
    rw [Option.map_eq_none_iff.mp heq.symm]
    exact .none
  | some n =>
    rw [hn] at heq
    obtain ⟨n', hn', hcontent⟩ := Option.map_eq_some_iff.mp heq.symm
    rw [hn']
    refine .some ⟨?_, hcontent.symm⟩
    rw [h.left.node_id a n hn, h.right.node_id b n' hn']
    exact hab

lemma edge (h : SameGraph ν ε s s') {a b : EdgeId} (hab : ε a b) :
    Option.Rel (SameEdge ν ε) (getEdge s a) (getEdge s' b) := by
  have hrel : Option.Rel (EdgeData.Renamed ν) ((getEdge s a).map Edge.content)
      ((getEdge s' b).map Edge.content) := h.renamed.edges a b hab
  cases he : getEdge s a with
  | none =>
    cases he' : getEdge s' b with
    | none => exact .none
    | some e' =>
      rw [he, he'] at hrel
      cases hrel
  | some e =>
    cases he' : getEdge s' b with
    | none =>
      rw [he, he'] at hrel
      cases hrel
    | some e' =>
      rw [he, he'] at hrel
      cases hrel with
      | some hrel =>
        refine .some ⟨?_, hrel⟩
        rw [h.left.edge_id a e he, h.right.edge_id b e' he']
        exact hab

/-- A stored node has a counterpart. -/
lemma exists_node_right (h : SameGraph ν ε s s') {a : NodeId} {n : Node} (hn : getNode s a = some n) :
    ∃ b n', ν a b ∧ getNode s' b = some n' ∧ SameNode ν n n' := by
  obtain ⟨b, hab⟩ := h.renamed.node_left a (by simp [content, hn])
  have hrel := h.node hab
  rw [hn] at hrel
  obtain ⟨n', hn', hrel⟩ := optionRel_some_left hrel
  exact ⟨b, n', hab, hn', hrel⟩

lemma exists_node_left (h : SameGraph ν ε s s') {b : NodeId} {n' : Node} (hn' : getNode s' b = some n') :
    ∃ a n, ν a b ∧ getNode s a = some n ∧ SameNode ν n n' := by
  obtain ⟨a, hab⟩ := h.renamed.node_right b (by simp [content, hn'])
  have hrel := h.node hab
  rw [hn'] at hrel
  obtain ⟨n, hn, hrel⟩ := optionRel_some_right hrel
  exact ⟨a, n, hab, hn, hrel⟩

lemma exists_edge_right (h : SameGraph ν ε s s') {a : EdgeId} {e : Edge} (he : getEdge s a = some e) :
    ∃ b e', ε a b ∧ getEdge s' b = some e' ∧ SameEdge ν ε e e' := by
  obtain ⟨b, hab⟩ := h.renamed.edge_left a (by simp [content, he])
  have hrel := h.edge hab
  rw [he] at hrel
  obtain ⟨e', he', hrel⟩ := optionRel_some_left hrel
  exact ⟨b, e', hab, he', hrel⟩

lemma exists_edge_left (h : SameGraph ν ε s s') {b : EdgeId} {e' : Edge} (he' : getEdge s' b = some e') :
    ∃ a e, ε a b ∧ getEdge s a = some e ∧ SameEdge ν ε e e' := by
  obtain ⟨a, hab⟩ := h.renamed.edge_right b (by simp [content, he'])
  have hrel := h.edge hab
  rw [he'] at hrel
  obtain ⟨e, he, hrel⟩ := optionRel_some_right hrel
  exact ⟨a, e, hab, he, hrel⟩

/-- Lists of node ids that list corresponding nodes. -/
lemma rel_nodeIds (h : SameGraph ν ε s s') {l l' : List NodeId} (hl : l.Nodup) (hl' : l'.Nodup)
    {P : NodeData String String PropertyValue → Prop}
    (hmem : ∀ a, a ∈ l ↔ ∃ n, getNode s a = some n ∧ P n.content)
    (hmem' : ∀ b, b ∈ l' ↔ ∃ n, getNode s' b = some n ∧ P n.content) :
    Multiset.Rel ν (l : Multiset NodeId) (l' : Multiset NodeId) := by
  refine multisetRel_of_nodup hl hl' ?_ ?_ (fun _ _ _ _ _ _ hy hz => h.renamed.nodeUnique.2 hy hz)
    (fun _ _ _ _ _ _ hy hz => h.renamed.nodeUnique.1 hy hz)
  · intro a ha
    obtain ⟨n, hn, hP⟩ := (hmem a).mp ha
    obtain ⟨b, n', hab, hn', hsame⟩ := h.exists_node_right hn
    exact ⟨b, (hmem' b).mpr ⟨n', hn', hsame.content ▸ hP⟩, hab⟩
  · intro b hb
    obtain ⟨n', hn', hP⟩ := (hmem' b).mp hb
    obtain ⟨a, n, hab, hn, hsame⟩ := h.exists_node_left hn'
    exact ⟨a, (hmem a).mpr ⟨n, hn, hsame.content ▸ hP⟩, hab⟩

lemma rel_edgeIds (h : SameGraph ν ε s s') :
    Multiset.Rel ε (edgeIds s : Multiset EdgeId) (edgeIds s' : Multiset EdgeId) := by
  refine multisetRel_of_nodup h.left.nodup_edgeIds h.right.nodup_edgeIds ?_ ?_
    (fun _ _ _ _ _ _ hy hz => h.renamed.edgeUnique.2 hy hz)
    (fun _ _ _ _ _ _ hy hz => h.renamed.edgeUnique.1 hy hz)
  · intro a ha
    obtain ⟨e, he⟩ := (h.left.mem_edgeIds a).mp ha
    obtain ⟨b, e', hab, he', -⟩ := h.exists_edge_right he
    exact ⟨b, (h.right.mem_edgeIds b).mpr ⟨e', he'⟩, hab⟩
  · intro b hb
    obtain ⟨e', he'⟩ := (h.right.mem_edgeIds b).mp hb
    obtain ⟨a, e, hab, he, -⟩ := h.exists_edge_left he'
    exact ⟨a, (h.left.mem_edgeIds a).mpr ⟨e, he⟩, hab⟩

lemma rel_allNodes (h : SameGraph ν ε s s') :
    Multiset.Rel (SameNode ν) (allNodes s : Multiset Node) (allNodes s' : Multiset Node) := by
  refine multisetRel_of_nodup h.left.nodup_allNodes h.right.nodup_allNodes ?_ ?_ ?_ ?_
  · intro n hn
    obtain ⟨b, n', -, hn', hsame⟩ := h.exists_node_right ((h.left.mem_allNodes n).mp hn)
    refine ⟨n', (h.right.mem_allNodes n').mpr ?_, hsame⟩
    rw [h.right.node_id b n' hn', hn']
  · intro n' hn'
    obtain ⟨a, n, -, hn, hsame⟩ := h.exists_node_left ((h.right.mem_allNodes n').mp hn')
    refine ⟨n, (h.left.mem_allNodes n).mpr ?_, hsame⟩
    rw [h.left.node_id a n hn, hn]
  · intro n _ m hm m' hm' hs hs'
    have hid := h.renamed.nodeUnique.2 hs.id hs'.id
    have hget := (h.right.mem_allNodes m).mp hm
    rw [hid, (h.right.mem_allNodes m').mp hm'] at hget
    exact (Option.some.inj hget).symm
  · intro n hn m hm n' _ hs hs'
    have hid := h.renamed.nodeUnique.1 hs.id hs'.id
    have hget := (h.left.mem_allNodes n).mp hn
    rw [hid, (h.left.mem_allNodes m).mp hm] at hget
    exact (Option.some.inj hget).symm

/-- Lists of edges that list corresponding edges. -/
lemma rel_edges (h : SameGraph ν ε s s') {l l' : List Edge} (hl : l.Nodup) (hl' : l'.Nodup)
    {P : Edge → Prop} {P' : Edge → Prop} (hP : ∀ e e', SameEdge ν ε e e' → (P e ↔ P' e'))
    (hmem : ∀ e, e ∈ l ↔ getEdge s e.id = some e ∧ P e)
    (hmem' : ∀ e, e ∈ l' ↔ getEdge s' e.id = some e ∧ P' e) :
    Multiset.Rel (SameEdge ν ε) (l : Multiset Edge) (l' : Multiset Edge) := by
  refine multisetRel_of_nodup hl hl' ?_ ?_ ?_ ?_
  · intro e he
    obtain ⟨hget, hPe⟩ := (hmem e).mp he
    obtain ⟨b, e', -, he', hsame⟩ := h.exists_edge_right hget
    refine ⟨e', (hmem' e').mpr ⟨?_, (hP e e' hsame).mp hPe⟩, hsame⟩
    rw [h.right.edge_id b e' he', he']
  · intro e' he'
    obtain ⟨hget, hPe⟩ := (hmem' e').mp he'
    obtain ⟨a, e, -, he, hsame⟩ := h.exists_edge_left hget
    refine ⟨e, (hmem e).mpr ⟨?_, (hP e e' hsame).mpr hPe⟩, hsame⟩
    rw [h.left.edge_id a e he, he]
  · intro e _ c hc c' hc' hs hs'
    have hid := h.renamed.edgeUnique.2 hs.id hs'.id
    have hget := ((hmem' c).mp hc).1
    rw [hid, ((hmem' c').mp hc').1] at hget
    exact (Option.some.inj hget).symm
  · intro e he c hc e' _ hs hs'
    have hid := h.renamed.edgeUnique.1 hs.id hs'.id
    have hget := ((hmem e).mp he).1
    rw [hid, ((hmem c).mp hc).1] at hget
    exact (Option.some.inj hget).symm

lemma rel_outgoingEdges (h : SameGraph ν ε s s') {a b : NodeId} (hab : ν a b) :
    Multiset.Rel (SameEdge ν ε) (outgoingEdges s a : Multiset Edge) (outgoingEdges s' b : Multiset Edge) := by
  refine h.rel_edges (h.left.nodup_outgoingEdges a) (h.right.nodup_outgoingEdges b) ?_
    (h.left.mem_outgoingEdges a) (h.right.mem_outgoingEdges b)
  intro e e' hsame
  constructor
  · rintro rfl
    exact h.renamed.nodeUnique.2 hsame.content.src hab
  · rintro rfl
    exact h.renamed.nodeUnique.1 hsame.content.src hab

lemma rel_incomingEdges (h : SameGraph ν ε s s') {a b : NodeId} (hab : ν a b) :
    Multiset.Rel (SameEdge ν ε) (incomingEdges s a : Multiset Edge) (incomingEdges s' b : Multiset Edge) := by
  refine h.rel_edges (h.left.nodup_incomingEdges a) (h.right.nodup_incomingEdges b) ?_
    (h.left.mem_incomingEdges a) (h.right.mem_incomingEdges b)
  intro e e' hsame
  constructor
  · rintro rfl
    exact h.renamed.nodeUnique.2 hsame.content.dst hab
  · rintro rfl
    exact h.renamed.nodeUnique.1 hsame.content.dst hab

lemma containsNode_eq (h : SameGraph ν ε s s') {a b : NodeId} (hab : ν a b) :
    containsNode s a = containsNode s' b := by
  rw [Bool.eq_iff_iff, h.left.containsNode, h.right.containsNode]
  have hrel := h.node hab
  generalize getNode s a = o at hrel
  generalize getNode s' b = o' at hrel
  cases hrel <;> simp

lemma nodeHasAllLabels_eq (h : SameGraph ν ε s s') {a b : NodeId} (hab : ν a b) (labels : List String) :
    nodeHasAllLabels s a labels = nodeHasAllLabels s' b labels := by
  rw [Bool.eq_iff_iff, h.left.nodeHasAllLabels, h.right.nodeHasAllLabels]
  have hrel := h.node hab
  generalize getNode s a = o at hrel
  generalize getNode s' b = o' at hrel
  cases hrel with
  | none => simp
  | @some n n' hsame =>
    have hlabels : ∀ l, l ∈ n.labels ↔ l ∈ n'.labels := fun l =>
      Set.ext_iff.mp (congrArg NodeData.labels hsame.content) l
    simp [hlabels]

lemma getNodeProperty_eq (h : SameGraph ν ε s s') {a b : NodeId} (hab : ν a b) (key : String) :
    getNodeProperty s a key = getNodeProperty s' b key := by
  rw [h.left.getNodeProperty, h.right.getNodeProperty]
  have hrel := h.node hab
  generalize getNode s a = o at hrel
  generalize getNode s' b = o' at hrel
  cases hrel with
  | none => rfl
  | some hsame => exact congrFun (congrArg NodeData.props hsame.content) key

lemma edgeProperty_eq (h : SameGraph ν ε s s') {a b : EdgeId} (hab : ε a b) (key : String) :
    (getEdge s a).bind (·.getProperty key) = (getEdge s' b).bind (·.getProperty key) := by
  have hrel := h.edge hab
  generalize getEdge s a = o at hrel
  generalize getEdge s' b = o' at hrel
  cases hrel with
  | none => rfl
  | some hsame => exact congrFun hsame.content.props key

lemma hasIncidentEdges_eq (h : SameGraph ν ε s s') {a b : NodeId} (hab : ν a b) :
    hasIncidentEdges s a = hasIncidentEdges s' b := by
  have hnil : ∀ {l l' : List Edge}, Multiset.Rel (SameEdge ν ε) (l : Multiset Edge) (l' : Multiset Edge) →
      ((∃ e, e ∈ l) ↔ ∃ e, e ∈ l') := by
    intro l l' hrel
    have hcard := Multiset.card_eq_card_of_rel hrel
    rw [Multiset.coe_card, Multiset.coe_card] at hcard
    rw [← List.length_pos_iff_exists_mem, ← List.length_pos_iff_exists_mem, hcard]
  rw [Bool.eq_iff_iff, h.left.hasIncidentEdges, h.right.hasIncidentEdges, exists_or, exists_or,
    hnil (h.rel_outgoingEdges hab), hnil (h.rel_incomingEdges hab)]

lemma rel_allNodeIds (h : SameGraph ν ε s s') :
    Multiset.Rel ν (nodeIds s : Multiset NodeId) (nodeIds s' : Multiset NodeId) := by
  refine h.rel_nodeIds (P := fun _ => True) h.left.nodup_nodeIds h.right.nodup_nodeIds ?_ ?_
  · intro a
    simpa using h.left.mem_nodeIds a
  · intro b
    simpa using h.right.mem_nodeIds b

lemma nodeCount_eq (h : SameGraph ν ε s s') : nodeCount s = nodeCount s' := by
  have hcard := Multiset.card_eq_card_of_rel h.rel_allNodeIds
  rwa [Multiset.coe_card, Multiset.coe_card, ← h.left.nodeCount, ← h.right.nodeCount] at hcard

lemma edgeCount_eq (h : SameGraph ν ε s s') : edgeCount s = edgeCount s' := by
  have hcard := Multiset.card_eq_card_of_rel h.rel_edgeIds
  rwa [Multiset.coe_card, Multiset.coe_card, ← h.left.edgeCount, ← h.right.edgeCount] at hcard

lemma rel_allEdges (h : SameGraph ν ε s s') :
    Multiset.Rel (SameEdge ν ε) (allEdges s : Multiset Edge) (allEdges s' : Multiset Edge) := by
  refine h.rel_edges (P := fun _ => True) h.left.nodup_allEdges h.right.nodup_allEdges
    (fun _ _ _ => Iff.rfl) ?_ ?_
  · intro e
    simpa using h.left.mem_allEdges e
  · intro e
    simpa using h.right.mem_allEdges e

lemma rel_nodesByLabel (h : SameGraph ν ε s s') (l : String) :
    Multiset.Rel ν (nodesByLabel s l : Multiset NodeId) (nodesByLabel s' l : Multiset NodeId) :=
  h.rel_nodeIds (P := fun d => l ∈ d.labels) (h.left.nodup_nodesByLabel l) (h.right.nodup_nodesByLabel l)
    (fun a => h.left.mem_nodesByLabel a l) (fun b => h.right.mem_nodesByLabel b l)

end SameGraph

end Read

end Maharit
