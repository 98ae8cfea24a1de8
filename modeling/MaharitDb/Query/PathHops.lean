import MaharitDb.Query.PathMeaning

/-!
# The hops the executor takes

The executor goes along a path hop by hop, for all rows at once.  That is a layered search whose hops
are the ones that fit, apart from the inline properties of relationships, which it does not look at;
the nodes with an inline property that is a date, a time or a duration are passed over, and an
undirected relationship that is a self-loop is listed twice.
-/

namespace Maharit

open LayeredSearch

/-! ## Hidden variables -/

lemma isVisible_iff {name : String} :
    IsVisible name ↔ ¬ anonVarPrefix.toList <+: name.toList := by
  rw [IsVisible, ← Bool.not_eq_true, not_iff_not]
  exact String.startsWith_string_iff

lemma not_isVisible_anonVar (n : ℕ) : ¬ IsVisible (anonVar n) := by
  rw [isVisible_iff, not_not, anonVar, String.toList_append]
  exact List.prefix_append _ _

lemma anonVar_inj {m n : ℕ} (h : anonVar m = anonVar n) : m = n := by
  have happ := congrArg String.toList h
  simp only [anonVar, String.toList_append, List.append_cancel_left_eq,
    Nat.toString_eq_ofList_toDigits, String.toList_ofList] at happ
  have hread : ∀ k, Nat.ofDigitChars 10 (Nat.toDigits 10 k) 0 = k :=
    fun k => Nat.ofDigitChars_toDigits (by decide) (by decide)
  rw [← hread m, happ, hread n]

lemma lookup_dropHidden {name : String} (b : Bindings) (hname : IsVisible name) :
    (dropHidden b).lookup name = b.lookup name := by
  rw [dropHidden, HashMap.lookup_retainKeys, if_pos]
  simpa [IsVisible] using hname

lemma Bindings.Spelled.dropHidden_eq {b : Bindings} (hb : b.Spelled) : dropHidden b = b := by
  refine AList.ext (List.filter_eq_self.mpr fun e he => ?_)
  have hmem : e.1 ∈ b := List.mem_keys_of_mem he
  have hvisible : IsVisible e.1 := hb e.1 hmem
  simpa [IsVisible] using hvisible

lemma Bindings.Spelled.lookup_anonVar {b : Bindings} (hb : b.Spelled) (n : ℕ) :
    b.lookup (anonVar n) = none :=
  AList.lookup_eq_none.mpr fun hmem => not_isVisible_anonVar n (hb _ hmem)

/-- A bound variable reads as its value. -/
lemma lookup_bindVar (b : Bindings) (var : Option String) (value : BindingValue) (name : String) :
    (bindVar b var value).lookup name = if var = some name then some value else b.lookup name := by
  cases var with
  | none => simp [bindVar]
  | some v => simp [bindVar, HashMap.lookup_insert_ite, eq_comm]

/-! ## Nodes -/

/-- A date, a time or a duration. -/
def PropertyValue.isTemporal : PropertyValue → Bool
  | .date _ | .dateTime _ | .duration _ _ _ => true
  | _ => false

lemma F64.closeTo_comm (a b : F64) : a.closeTo b = b.closeTo a := by
  have habs : (a.scaled - b.scaled).natAbs = (b.scaled - a.scaled).natAbs := by omega
  simp only [closeTo, habs, Bool.and_comm a.isFinite]

/-- Inline properties compare as `=` does, but for dates, times and durations, which never match. -/
lemma propertyValueMatches_iff {actual : PropertyValue} {expected : Value} :
    propertyValueMatches actual expected = true ↔
      valuesEqual (.ofProperty actual) expected = true ∧ actual.isTemporal = false := by
  cases actual <;> cases expected <;>
    simp [propertyValueMatches, valuesEqual, Value.ofProperty, PropertyValue.isTemporal,
      F64.closeTo_comm]

section Correct

variable {σ : Type} [GraphBackend σ] (S : PathSearch σ) (x : Executor σ) (ev : Evaluator)

/-- No inline property of the pattern is a date, a time or a duration on the node. -/
def NoTemporal (p : NodePattern Expression) (id : NodeId) : Prop :=
  ∀ property ∈ p.properties, ∀ actual, GraphBackend.getNodeProperty x.graph id property.1 = some actual →
    actual.isTemporal = false

variable {x ev}

/-- One inline property passes the test. -/
lemma nodeHasProperty_eq_true {id : NodeId} {b : Bindings} {property : String × Expression} :
    nodeHasProperty x ev id b property = .ok true ↔
      ∃ actual expected, GraphBackend.getNodeProperty x.graph id property.1 = some actual ∧
        ev b property.2 = .ok expected ∧ propertyValueMatches actual expected = true := by
  unfold nodeHasProperty
  cases GraphBackend.getNodeProperty x.graph id property.1 with
  | none => simp
  | some actual => simp [Except.map_eq_ok]

/-- All inline properties pass the test. -/
lemma allM_nodeHasProperty (hg : GraphBackend.Coherent x.graph) {id : NodeId} {n : Node}
    (hn : GraphBackend.getNode x.graph id = some n) {p : NodePattern Expression} {b : Bindings} :
    Except.allM (nodeHasProperty x ev id b) p.properties = .ok true ↔
      HasProperties ev b n.getProperty p.properties ∧ NoTemporal x p id := by
  have hget : ∀ key, GraphBackend.getNodeProperty x.graph id key = n.getProperty key := by
    intro key
    rw [hg.getNodeProperty, hn, Option.bind_some]
  simp only [Except.allM_eq_true, nodeHasProperty_eq_true, hget, HasProperties, NoTemporal,
    propertyValueMatches_iff]
  constructor
  · intro h
    refine ⟨fun property hmem => ?_, fun property hmem actual hactual => ?_⟩
    · obtain ⟨actual, expected, hactual, hev, heq, -⟩ := h property hmem
      exact ⟨actual, expected, hactual, hev, heq⟩
    · obtain ⟨actual', expected, hactual', -, -, htemporal⟩ := h property hmem
      rw [Option.some.inj (hactual.symm.trans hactual')]
      exact htemporal
  · rintro ⟨hprops, htemporal⟩ property hmem
    obtain ⟨actual, expected, hactual, hev, heq⟩ := hprops property hmem
    exact ⟨actual, expected, hactual, hev, heq, htemporal property hmem actual hactual⟩

lemma denotes_node {b : Bindings} {var : Option String} {id : NodeId} :
    Denotes b var (.node id) ↔
      ((var.bind b.lookup).any fun bound => bound.asNode ≠ some id) = false := by
  unfold Denotes
  cases var.bind b.lookup with
  | none => simp
  | some bound => cases bound <;> simp [BindingValue.asNode]

/-- A node passes the test when it fits and has no temporal inline property. -/
theorem nodeMatchesPattern_eq_true (hg : GraphBackend.Coherent x.graph) {id : NodeId}
    {p : NodePattern Expression} {b : Bindings} :
    nodeMatchesPattern x ev id p b = .ok true ↔ NodeFits x ev b p id ∧ NoTemporal x p id := by
  unfold nodeMatchesPattern
  by_cases hbound : ((p.var.bind b.lookup).any fun bound => bound.asNode ≠ some id) = true
  · have hnot : ¬ Denotes b p.var (.node id) := by
      rw [denotes_node, hbound]
      simp
    rw [if_pos hbound]
    exact iff_of_false (by simp) fun h => hnot h.1.denotes
  rw [if_neg hbound]
  have hdenotes : Denotes b p.var (.node id) := denotes_node.mpr (Bool.eq_false_iff.mpr hbound)
  cases hnode : GraphBackend.getNode x.graph id with
  | none =>
    have hnot : ¬ NodeFits x ev b p id := by
      rintro ⟨-, n, hn, -⟩
      rw [hnode] at hn
      cases hn
    have hlabels : GraphBackend.nodeHasAllLabels x.graph id p.labels = false := by
      rw [← Bool.not_eq_true, hg.nodeHasAllLabels]
      simp [hnode]
    have hcontains : GraphBackend.containsNode x.graph id = false := by
      rw [← Bool.not_eq_true, hg.containsNode]
      simp [hnode]
    refine iff_of_false ?_ fun h => hnot h.1
    by_cases hempty : p.labels = []
    · cases hprops : p.properties with
      | nil => simp [hempty, hcontains]
      | cons property properties =>
        have hfirst : nodeHasProperty x ev id b property = .ok false := by
          simp [nodeHasProperty, hg.getNodeProperty, hnode]
        simp [hempty, Except.allM, hfirst, Except.bind]
    · simp [hempty, hlabels]
  | some n =>
    have hcontains : GraphBackend.containsNode x.graph id = true := (hg.containsNode id).mpr ⟨n, hnode⟩
    have hfits : NodeFits x ev b p id ↔
        (∀ l ∈ p.labels, l ∈ n.labels) ∧ HasProperties ev b n.getProperty p.properties := by
      constructor
      · rintro ⟨-, n', hn', h⟩
        rwa [Option.some.inj (hnode.symm.trans hn')]
      · exact fun h => ⟨hdenotes, n, hnode, h⟩
    rw [hfits, and_assoc, ← allM_nodeHasProperty hg hnode]
    have hlabels : GraphBackend.nodeHasAllLabels x.graph id p.labels = true ↔
        ∀ l ∈ p.labels, l ∈ n.labels := by
      rw [hg.nodeHasAllLabels]
      simp [hnode]
    by_cases hall : ∀ l ∈ p.labels, l ∈ n.labels
    · rw [hlabels.mpr hall, hcontains]
      simp only [Bool.not_true, Bool.false_eq_true, and_false, if_false]
      exact (and_iff_right hall).symm
    · have hne : p.labels ≠ [] := by
        rintro hnil
        simp [hnil] at hall
      have hfalse : GraphBackend.nodeHasAllLabels x.graph id p.labels = false := by
        rwa [← Bool.not_eq_true, hlabels]
      simp [hne, hfalse, hall]

/-- The test reads the variable of a pattern only through what it is bound to. -/
lemma nodeMatchesPattern_var {id : NodeId} {p : NodePattern Expression} {b : Bindings}
    {var : Option String} (hvar : var.bind b.lookup = p.var.bind b.lookup) :
    nodeMatchesPattern x ev id { p with var := var } b = nodeMatchesPattern x ev id p b := by
  simp only [nodeMatchesPattern, hvar]

/-! ## Hops -/

/-- The edges tried are the live edges at the node, and they lead to the node joined. -/
lemma mem_getEdgesByDirection (hg : GraphBackend.Coherent x.graph) {n m : NodeId} {e : Edge}
    {direction : EdgeDirection} :
    e ∈ getEdgesByDirection x.graph n direction ∧ getNextNode n e direction = m ↔
      GraphBackend.getEdge x.graph e.id = some e ∧ Joined direction n e m := by
  cases direction with
  | outgoing =>
    simp [getEdgesByDirection, getNextNode, Joined, hg.mem_outgoingEdges, and_assoc]
  | incoming =>
    simp [getEdgesByDirection, getNextNode, Joined, hg.mem_incomingEdges, and_assoc]
  | both =>
    simp only [getEdgesByDirection, getNextNode, Joined, List.mem_append, hg.mem_outgoingEdges,
      hg.mem_incomingEdges]
    by_cases hfrom : e.fromNode = n
    · simp only [hfrom, if_true, and_true, true_and]
      constructor
      · rintro ⟨hlive | ⟨hlive, -⟩, hto⟩
        · exact ⟨hlive, .inl hto⟩
        · exact ⟨hlive, .inl hto⟩
      · rintro ⟨hlive, hto | ⟨hto, hnm⟩⟩
        · exact ⟨.inl hlive, hto⟩
        · exact ⟨.inl hlive, hto.trans hnm⟩
    · simp only [hfrom, if_false, and_false, false_and, false_or, and_assoc]

lemma edgeMatches_iff {p : EdgePattern Expression} {b : Bindings} {e : Edge}
    (hlive : GraphBackend.getEdge x.graph e.id = some e) :
    edgeMatches p b e = true ↔ EdgeFits x b p e := by
  have htype : (p.edgeType.all fun t => e.label == t) = true ↔ ∀ t ∈ p.edgeType, e.label = t := by
    cases p.edgeType with
    | none => simp
    | some t => simp
  rw [edgeMatches, Bool.and_eq_true, htype]
  constructor
  · rintro ⟨ht, hvar⟩
    refine ⟨hlive, ht, fun bound hbound => ?_⟩
    rw [Option.mem_def.mp hbound] at hvar
    cases bound <;> simp_all
  · rintro ⟨-, ht, hvar⟩
    refine ⟨ht, ?_⟩
    cases hbound : p.var.bind b.lookup with
    | none => rfl
    | some bound => simp [hvar bound hbound]

/-- A test that succeeded and passed. -/
def passes : Except ExecuteError Bool → Bool
  | .ok ok => ok
  | .error _ => false

lemma passes_iff {t : Except ExecuteError Bool} : passes t = true ↔ t = .ok true := by
  cases t <;> simp [passes]

variable (x ev)

/-- The hop over an edge is taken. -/
def takesHop (segment : PathSegment Expression) (s : Reached) (h : Hop) : Bool :=
  edgeMatches segment.edge s.scope h.edge &&
    passes (nodeMatchesPattern x ev h.node segment.node s.scope)

/-- The hops the executor takes. -/
def hopsTaken (segment : PathSegment Expression) (s : Reached) : List Hop :=
  ((getEdgesByDirection x.graph s.node segment.edge.direction).map fun e =>
    ⟨e, getNextNode s.node e segment.edge.direction⟩).filter (takesHop x ev segment s)

/-- A hop to a node without temporal inline properties. -/
def NoTemporalHop (segment : PathSegment Expression) (_ : Reached) (h : Hop) : Prop :=
  NoTemporal x segment.node h.node

/-- A self-loop taken where the pattern gives no direction. -/
def UndirectedLoop (segment : PathSegment Expression) (h : Hop) : Prop :=
  segment.edge.direction = .both ∧ h.edge.fromNode = h.edge.toNode

variable {x ev}

lemma mem_hopsTaken (hg : GraphBackend.Coherent x.graph) {segment : PathSegment Expression}
    {s : Reached} {h : Hop} :
    h ∈ hopsTaken x ev segment s ↔ HopFits x ev segment s h ∧ NoTemporalHop x segment s h := by
  obtain ⟨e, m⟩ := h
  have hcandidate : (⟨e, m⟩ : Hop) ∈ (getEdgesByDirection x.graph s.node segment.edge.direction).map
      (fun e => (⟨e, getNextNode s.node e segment.edge.direction⟩ : Hop)) ↔
      GraphBackend.getEdge x.graph e.id = some e ∧ Joined segment.edge.direction s.node e m := by
    rw [← mem_getEdgesByDirection hg, List.mem_map]
    constructor
    · rintro ⟨e', he', heq⟩
      obtain ⟨rfl, rfl⟩ := Hop.mk.inj heq
      exact ⟨he', rfl⟩
    · rintro ⟨he, rfl⟩
      exact ⟨e, he, rfl⟩
  rw [hopsTaken, List.mem_filter, hcandidate, takesHop, Bool.and_eq_true, passes_iff,
    nodeMatchesPattern_eq_true hg]
  constructor
  · rintro ⟨⟨hlive, hjoined⟩, hedge, hnode, htemporal⟩
    exact ⟨⟨(edgeMatches_iff hlive).mp hedge, hjoined, hnode⟩, htemporal⟩
  · rintro ⟨⟨hedge, hjoined, hnode⟩, htemporal⟩
    exact ⟨⟨hedge.live, hjoined⟩, (edgeMatches_iff hedge.live).mpr hedge, hnode, htemporal⟩

/-- The hops of one direction are listed once. -/
lemma nodup_map_hop {edges : List Edge} (hnodup : edges.Nodup) (f : Edge → NodeId) :
    (edges.map fun e => (⟨e, f e⟩ : Hop)).Nodup :=
  hnodup.map fun _ _ heq => (Hop.mk.inj heq).1

/-- A hop is listed once, but for an undirected self-loop. -/
lemma count_hopsTaken [DecidableEq Hop] (hg : GraphBackend.Coherent x.graph)
    {segment : PathSegment Expression} {s : Reached} {h : Hop} (hmem : h ∈ hopsTaken x ev segment s) :
    (hopsTaken x ev segment s).count h = 1 ↔ ¬ UndirectedLoop segment h := by
  obtain ⟨hcandidate, htakes⟩ := List.mem_filter.mp hmem
  have hjoined : Joined segment.edge.direction s.node h.edge h.node :=
    ((mem_hopsTaken hg).mp hmem).1.joined
  have hlive : GraphBackend.getEdge x.graph h.edge.id = some h.edge :=
    ((mem_hopsTaken hg).mp hmem).1.edge.live
  rw [hopsTaken, List.count_filter htakes]
  cases hdir : segment.edge.direction with
  | outgoing =>
    have hnodup := nodup_map_hop (hg.nodup_outgoingEdges s.node)
      fun e => getNextNode s.node e .outgoing
    rw [hdir] at hcandidate
    have hone := List.count_eq_one_of_mem hnodup hcandidate
    exact iff_of_true hone fun hloop => by simp [UndirectedLoop, hdir] at hloop
  | incoming =>
    have hnodup := nodup_map_hop (hg.nodup_incomingEdges s.node)
      fun e => getNextNode s.node e .incoming
    rw [hdir] at hcandidate
    have hone := List.count_eq_one_of_mem hnodup hcandidate
    exact iff_of_true hone fun hloop => by simp [UndirectedLoop, hdir] at hloop
  | both =>
    rw [hdir] at hcandidate hjoined
    have hout := nodup_map_hop (hg.nodup_outgoingEdges s.node) fun e => getNextNode s.node e .both
    have hin := nodup_map_hop (hg.nodup_incomingEdges s.node) fun e => getNextNode s.node e .both
    have hnext : getNextNode s.node h.edge .both = h.node :=
      ((mem_getEdgesByDirection hg).mpr ⟨hlive, hjoined⟩).2
    have hmap : ∀ edges : List Edge,
        h ∈ edges.map (fun e => (⟨e, getNextNode s.node e .both⟩ : Hop)) ↔ h.edge ∈ edges := by
      intro edges
      rw [List.mem_map]
      constructor
      · rintro ⟨e, he, rfl⟩
        exact he
      · intro he
        exact ⟨h.edge, he, by rw [hnext]⟩
    rw [getEdgesByDirection, List.map_append, List.count_append, hout.count, hin.count]
    simp only [hmap, hg.mem_outgoingEdges, hg.mem_incomingEdges, hlive, true_and, UndirectedLoop, hdir]
    -- An edge at the node is listed as outgoing, as incoming, or as both.
    rcases hjoined with ⟨hfrom, hto⟩ | ⟨hto, hfrom⟩
    · by_cases hloop : h.edge.toNode = s.node
      · simp [hfrom, hloop]
      · simp [hfrom, hloop, Ne.symm hloop]
    · by_cases hloop : h.edge.fromNode = s.node
      · simp [hto, hloop]
      · simp [hto, hloop]

/-! ## Naming -/

section Naming

variable {n : ℕ} {var : Option String}

lemma le_nameVar (n : ℕ) (var : Option String) : n ≤ (nameVar n var).1 := by
  cases var <;> simp [nameVar]

/-- A hidden variable not used yet is not bound, so naming does not change what is bound. -/
lemma bind_nameVar {b : Bindings} (hfresh : ∀ j, n < j → b.lookup (anonVar j) = none) :
    (nameVar n var).2.bind b.lookup = var.bind b.lookup := by
  cases var with
  | none => simp [nameVar, hfresh (n + 1) (Nat.lt_succ_self n)]
  | some v => rfl

/-- The hidden variables still to come are not used. -/
lemma nameVar_ne_anonVar (hvar : ∀ v ∈ var, IsVisible v) {j : ℕ} (hj : (nameVar n var).1 < j) :
    (nameVar n var).2 ≠ some (anonVar j) := by
  cases var with
  | none =>
    intro heq
    have hinj : n + 1 = j := anonVar_inj (Option.some.inj heq)
    exact absurd hj (by simp [nameVar, hinj])
  | some v =>
    intro heq
    have hv : v = anonVar j := Option.some.inj heq
    exact not_isVisible_anonVar j (hv ▸ hvar v rfl)

lemma nameVar_eq_some (n : ℕ) (var : Option String) : ∃ v, (nameVar n var).2 = some v := by
  cases var with
  | none => exact ⟨_, rfl⟩
  | some v => exact ⟨v, rfl⟩

variable {bindEdges : Bool} {segment : PathSegment Expression}

lemma le_nameSegment (bindEdges : Bool) (n : ℕ) (segment : PathSegment Expression) :
    (nameVar n segment.node.var).1 ≤ (nameSegment bindEdges n segment).1 := by
  cases bindEdges with
  | false => exact le_rfl
  | true => exact le_nameVar _ _

lemma bind_nameSegment_edge {b : Bindings} (hfresh : ∀ j, n < j → b.lookup (anonVar j) = none) :
    (nameSegment bindEdges n segment).2.edge.var.bind b.lookup = segment.edge.var.bind b.lookup := by
  cases bindEdges with
  | false => rfl
  | true =>
    refine bind_nameVar fun j hj => hfresh j ?_
    exact lt_of_le_of_lt (le_nameVar n segment.node.var) hj

lemma nameSegment_edge_ne_anonVar (hvar : ∀ v ∈ segment.edge.var, IsVisible v) {j : ℕ}
    (hj : (nameSegment bindEdges n segment).1 < j) :
    (nameSegment bindEdges n segment).2.edge.var ≠ some (anonVar j) := by
  cases bindEdges with
  | false =>
    intro heq
    exact not_isVisible_anonVar j (hvar _ heq)
  | true => exact nameVar_ne_anonVar hvar hj

end Naming

/-! ## One hop -/

/-- What the executor keeps to while it goes along a path. -/
structure Reached.Sound (s : Reached) : Prop where
  /-- The hidden variables still to come are not bound. -/
  fresh : ∀ j, s.count < j → s.scope.lookup (anonVar j) = none
  /-- The variable of the last node is not bound to another node. -/
  var : ∃ v, s.var = some v ∧ ∀ id, s.scope.lookup v = some (.node id) → id = s.node

lemma Reached.Sound.next {s : Reached} (hs : s.Sound) {bindEdges : Bool}
    {segment : PathSegment Expression} (hnode : ∀ v ∈ segment.node.var, IsVisible v)
    (hedge : ∀ v ∈ segment.edge.var, IsVisible v) (h : Hop) : (s.next bindEdges segment h).Sound where
  fresh j hj := by
    have hnode' : (nameVar s.count segment.node.var).1 < j :=
      lt_of_le_of_lt (le_nameSegment bindEdges s.count segment) hj
    have hcount : s.count < j := lt_of_le_of_lt (le_nameVar _ _) hnode'
    have hne := nameSegment_edge_ne_anonVar hedge hj
    have hne' := nameVar_ne_anonVar hnode hnode'
    simp only [Reached.next, bindHop, lookup_bindVar, if_neg hne]
    exact (if_neg hne').trans (hs.fresh j hcount)
  var := by
    obtain ⟨v, hv⟩ := nameVar_eq_some s.count segment.node.var
    have hvar : (nameSegment bindEdges s.count segment).2.node.var = some v := hv
    refine ⟨v, hvar, fun id hid => ?_⟩
    simp only [Reached.next, bindHop, lookup_bindVar] at hid
    rw [if_pos hvar] at hid
    split at hid
    · cases hid
    · exact (BindingValue.node.inj (Option.some.inj hid)).symm

variable (x ev)

/-- A hop can be tried: the variable of the last node still denotes it, and the inline properties
of the next node can be evaluated at every node the relationship leads to. -/
structure HopDefined (segment : PathSegment Expression) (s : Reached) : Prop where
  denotes : s.var.bind s.scope.lookup = some (.node s.node)
  evaluates : ∀ e m, EdgeFits x s.scope segment.edge e → Joined segment.edge.direction s.node e m →
    ∃ ok, nodeMatchesPattern x ev m segment.node s.scope = .ok ok

variable {x ev}

/-- One hop of the executor over an edge. -/
lemma matchHop_eq_ok {bindEdges : Bool} {segment : PathSegment Expression} {s : Reached}
    (hs : s.Sound) {e : Edge} {rows : List Bindings} :
    matchHop x ev (nameSegment bindEdges s.count segment).2 s.scope s.node e = .ok rows ↔
      (edgeMatches segment.edge s.scope e = true → ∃ ok, nodeMatchesPattern x ev
        (getNextNode s.node e segment.edge.direction) segment.node s.scope = .ok ok) ∧
      rows = if takesHop x ev segment s ⟨e, getNextNode s.node e segment.edge.direction⟩ then
        [(s.next bindEdges segment ⟨e, getNextNode s.node e segment.edge.direction⟩).scope] else [] := by
  have hedge : edgeMatches (nameSegment bindEdges s.count segment).2.edge s.scope e =
      edgeMatches segment.edge s.scope e := by
    rw [edgeMatches, bind_nameSegment_edge hs.fresh]
    rfl
  have hnode : ∀ m, nodeMatchesPattern x ev m (nameSegment bindEdges s.count segment).2.node s.scope =
      nodeMatchesPattern x ev m segment.node s.scope := fun m =>
    nodeMatchesPattern_var (bind_nameVar hs.fresh)
  have hdir : (nameSegment bindEdges s.count segment).2.edge.direction = segment.edge.direction := rfl
  simp only [matchHop, hedge, hnode, hdir, takesHop]
  by_cases hmatch : edgeMatches segment.edge s.scope e = true
  · have hcases : ∀ t : Except ExecuteError Bool, (∃ err, t = .error err) ∨ ∃ ok, t = .ok ok := by
      intro t
      cases t <;> simp
    rcases hcases (nodeMatchesPattern x ev (getNextNode s.node e segment.edge.direction) segment.node
      s.scope) with ⟨err, htest⟩ | ⟨ok, htest⟩
    · simp [Except.map, hmatch, htest]
    · cases ok <;> simp [Except.map, passes, Reached.next, bindHop, hmatch, htest, eq_comm]
  · simp [hmatch, eq_comm]

/-- One hop of the executor. -/
theorem matchSingleHop_eq_ok (hg : GraphBackend.Coherent x.graph) {bindEdges : Bool}
    {segment : PathSegment Expression} {prev : NodePattern Expression} {s : Reached} (hs : s.Sound)
    (hprev : prev.var = s.var) {rows : List Bindings} :
    matchSingleHop x ev (nameSegment bindEdges s.count segment).2 prev s.scope = .ok rows ↔
      HopDefined x ev segment s ∧
        rows = (hopsTaken x ev segment s).map fun h => (s.next bindEdges segment h).scope := by
  obtain ⟨v, hv, hsame⟩ := hs.var
  have hdir : (nameSegment bindEdges s.count segment).2.edge.direction = segment.edge.direction := rfl
  rw [matchSingleHop, hprev, hv]
  simp only [hdir]
  by_cases hbound : s.scope.lookup v = some (.node s.node)
  · have hdenotes : s.var.bind s.scope.lookup = some (.node s.node) := by rw [hv, Option.bind_some, hbound]
    simp only [hbound, Option.bind_some, BindingValue.asNode]
    rw [Except.collect_eq_ok]
    simp only [matchHop_eq_ok hs]
    have hrows : ∀ edges : List Edge, (edges.flatMap fun e =>
        if takesHop x ev segment s ⟨e, getNextNode s.node e segment.edge.direction⟩ then
          [(s.next bindEdges segment ⟨e, getNextNode s.node e segment.edge.direction⟩).scope] else []) =
        ((edges.map fun e => ⟨e, getNextNode s.node e segment.edge.direction⟩).filter
          (takesHop x ev segment s)).map fun h => (s.next bindEdges segment h).scope := by
      intro edges
      induction edges with
      | nil => rfl
      | cons e edges ih =>
        rw [List.flatMap_cons, ih, List.map_cons, List.filter_cons]
        split <;> simp
    constructor
    · rintro ⟨g, hg', rfl⟩
      refine ⟨⟨hdenotes, fun e m hfits hjoined => ?_⟩, ?_⟩
      · obtain ⟨hmem, rfl⟩ := (mem_getEdgesByDirection hg).mpr ⟨hfits.live, hjoined⟩
        exact (hg' e hmem).1 ((edgeMatches_iff hfits.live).mpr hfits)
      · rw [hopsTaken, ← hrows]
        exact List.flatMap_congr fun e hmem => (hg' e hmem).2
    · rintro ⟨hdefined, rfl⟩
      refine ⟨_, fun e hmem => ⟨fun hmatch => ?_, rfl⟩, (hrows _).symm⟩
      obtain ⟨hlive, hjoined⟩ := (mem_getEdgesByDirection hg).mp ⟨hmem, rfl⟩
      exact hdefined.evaluates e _ ((edgeMatches_iff hlive).mp hmatch) hjoined
  · have hnone : (s.scope.lookup v).bind (·.asNode) = none := by
      cases hlookup : s.scope.lookup v with
      | none => rfl
      | some bound =>
        cases bound with
        | node id => exact absurd (hlookup.trans (by rw [hsame id hlookup])) hbound
        | edge id => rfl
        | path nodes edges => rfl
        | scalar value => rfl
    simp only [hnone, reduceCtorEq, false_iff, not_and]
    intro hdefined
    have hdenotes := hdefined.denotes
    rw [hv, Option.bind_some] at hdenotes
    exact absurd hdenotes hbound

/-! ## All hops -/

/-- Single hops treat the rows one by one. -/
lemma rowwise_matchSegments {segments : List (PathSegment Expression)}
    (hsingle : ∀ segment ∈ segments, segment.edge.lengthRange = none) (prev : NodePattern Expression) :
    Except.Rowwise (matchSegments S x ev none segments prev) := by
  induction segments generalizing prev with
  | nil => exact Except.Rowwise.ok
  | cons segment segments ih =>
    have hfirst : matchSegment S x ev segment prev = Except.collect (matchSingleHop x ev segment prev) := by
      funext bs
      rw [matchSegment, hsingle segment List.mem_cons_self]
    simp only [matchSegments, hfirst]
    exact (Except.Rowwise.collect _).bind
      (ih (fun s hs => hsingle s (List.mem_cons_of_mem _ hs)) segment.node)

lemma lengthRange_nameSegments {bindEdges : Bool} {n : ℕ} {segments : List (PathSegment Expression)}
    (hsingle : ∀ segment ∈ segments, segment.edge.lengthRange = none) :
    ∀ segment ∈ nameSegments bindEdges n segments, segment.edge.lengthRange = none := by
  induction segments generalizing n with
  | nil => simp [nameSegments]
  | cons segment segments ih =>
    intro s hs
    rcases List.mem_cons.mp hs with rfl | hs
    · exact hsingle segment List.mem_cons_self
    · exact ih (fun s hs => hsingle s (List.mem_cons_of_mem _ hs)) s hs

/-- The hops of the executor are a layered search. -/
theorem matchSegments_eq_ok (hg : GraphBackend.Coherent x.graph) {bindEdges : Bool}
    {segments : List (PathSegment Expression)}
    (hsingle : ∀ segment ∈ segments, segment.edge.lengthRange = none)
    (hnodes : ∀ segment ∈ segments, ∀ v ∈ segment.node.var, IsVisible v)
    (hedges : ∀ segment ∈ segments, ∀ v ∈ segment.edge.var, IsVisible v) {s : Reached} (hs : s.Sound)
    {prev : NodePattern Expression} (hprev : prev.var = s.var) {rows : List Bindings} :
    matchSegments S x ev none (nameSegments bindEdges s.count segments) prev [s.scope] = .ok rows ↔
      Throughout (Reached.next bindEdges) (hopsTaken x ev) (HopDefined x ev) segments s ∧
        rows = (search (Reached.next bindEdges) (hopsTaken x ev) segments s).map fun hops =>
          (stateAfter (Reached.next bindEdges) segments s hops).scope := by
  induction segments generalizing s prev rows with
  | nil => simp [nameSegments, matchSegments, Throughout, search, stateAfter, eq_comm]
  | cons segment segments ih =>
    have hrest := fun s' hs' => hsingle s' (List.mem_cons_of_mem _ hs')
    have hnode := hnodes segment List.mem_cons_self
    have hedge := hedges segment List.mem_cons_self
    have hlength : (nameSegment bindEdges s.count segment).2.edge.lengthRange = none :=
      hsingle segment List.mem_cons_self
    have hstep : ∀ h, ∀ rows,
        matchSegments S x ev none
            (nameSegments bindEdges (nameSegment bindEdges s.count segment).1 segments)
            (nameSegment bindEdges s.count segment).2.node [(s.next bindEdges segment h).scope] =
          .ok rows ↔ _ := fun h rows =>
      ih hrest (fun s' hs' => hnodes s' (List.mem_cons_of_mem _ hs'))
        (fun s' hs' => hedges s' (List.mem_cons_of_mem _ hs')) (hs.next hnode hedge h) rfl
    rw [nameSegments, matchSegments, Except.bind_eq_ok]
    simp only [matchSegment, hlength, Except.collect_singleton, matchSingleHop_eq_ok hg hs hprev]
    simp only [(rowwise_matchSegments S (lengthRange_nameSegments hrest) _).eq_ok_iff]
    constructor
    · rintro ⟨_, ⟨hdefined, rfl⟩, hrows⟩
      rw [Except.collect_map, Except.collect_eq_ok] at hrows
      obtain ⟨g, hg', rfl⟩ := hrows
      refine ⟨⟨hdefined, fun h hmem => ((hstep h _).mp (hg' h hmem)).1⟩, ?_⟩
      rw [search, List.map_flatMap]
      refine List.flatMap_congr fun h hmem => ?_
      rw [((hstep h _).mp (hg' h hmem)).2, List.map_map]
      rfl
    · rintro ⟨⟨hdefined, hthroughout⟩, rfl⟩
      refine ⟨_, ⟨hdefined, rfl⟩, ?_⟩
      rw [Except.collect_map, Except.collect_eq_ok]
      refine ⟨_, fun h hmem => (hstep h _).mpr ⟨hthroughout h hmem, rfl⟩, ?_⟩
      rw [search, List.map_flatMap]
      refine List.flatMap_congr fun h hmem => ?_
      rw [List.map_map]
      rfl

end Correct

end Maharit
