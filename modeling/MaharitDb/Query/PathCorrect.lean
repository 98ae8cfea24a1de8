import MaharitDb.Query.PathHops

/-!
# Path patterns and their meaning

What `match_path_pattern` returns for a path pattern, compared with the meaning of the pattern.
-/

namespace Maharit

open LayeredSearch

/-! ## Candidates for the start -/

section Candidates

variable {σ : Type} [GraphBackend σ] (S : PathSearch σ) (x : Executor σ) (ev : Evaluator)

variable {x} in
/-- The candidates are listed once. -/
lemma nodup_nodeCandidates (hg : GraphBackend.Coherent x.graph) (p : NodePattern Expression) :
    (nodeCandidates x p).Nodup := by
  have hscan : (scanCandidates x p).Nodup := by
    unfold scanCandidates
    cases hrange : rangeIndexCandidates x p with
    | none =>
      cases p.labels.head? with
      | none => exact hg.nodup_nodeIds
      | some label => exact hg.nodup_nodesByLabel label
    | some ids =>
      unfold rangeIndexCandidates at hrange
      split at hrange
      · obtain ⟨hint, -, hids⟩ := List.exists_of_findSome?_eq_some hrange
        split at hids
        · cases hids
        · obtain ⟨f, -, hids⟩ := Option.bind_eq_some_iff.mp hids
          split at hids <;>
            first
              | exact (Option.some.inj hids) ▸ List.nodup_dedup _
              | cases hids
      · cases hrange
  unfold nodeCandidates
  cases hindex : indexLookup x p with
  | none => exact hscan
  | some ids =>
    unfold indexLookup at hindex
    split at hindex
    · cases hindex
    · obtain ⟨property, -, hids⟩ := List.exists_of_findSome?_eq_some hindex
      split at hids
      · split at hids
        · exact (Option.some.inj hids) ▸ HashSet.nodup_toList _
        · cases hids
      · cases hids

/-- The nodes tried at the start: the one the variable is bound to, or the candidates. -/
def startCandidates (p : PathPattern Expression) (b : Bindings) : List NodeId :=
  match p.start.var.bind b.lookup with
  | some bound => bound.asNode.toList
  | none => nodeCandidates x (nameAnonymous p).start

/-- The start nodes the executor takes. -/
def startsTaken (p : PathPattern Expression) (b : Bindings) : List NodeId :=
  (startCandidates x p b).filter fun id => passes (nodeMatchesPattern x ev id p.start b)

variable {x ev}

lemma mem_startsTaken (hg : GraphBackend.Coherent x.graph) {p : PathPattern Expression}
    {b : Bindings} {id : NodeId} :
    id ∈ startsTaken x ev p b ↔
      id ∈ startCandidates x p b ∧ NodeFits x ev b p.start id ∧ NoTemporal x p.start id := by
  rw [startsTaken, List.mem_filter, passes_iff, nodeMatchesPattern_eq_true hg]

lemma nodup_startsTaken (hg : GraphBackend.Coherent x.graph) (p : PathPattern Expression)
    (b : Bindings) : (startsTaken x ev p b).Nodup := by
  refine List.Nodup.filter _ ?_
  unfold startCandidates
  cases p.start.var.bind b.lookup with
  | none => exact nodup_nodeCandidates hg _
  | some bound => cases bound <;> simp [BindingValue.asNode]

/-- The start of the search from a row. -/
lemma sound_first {p : PathPattern Expression} (hp : ∀ v ∈ p.start.var, IsVisible v) {b : Bindings}
    (hb : b.Spelled) {id : NodeId} (hdenotes : Denotes b p.start.var (.node id)) :
    (Reached.first p b id).Sound where
  fresh j hj := by
    have hne := nameVar_ne_anonVar hp hj
    unfold Reached.first
    cases hbound : p.start.var.bind b.lookup with
    | some bound => exact hb.lookup_anonVar j
    | none => exact (lookup_bindVar _ _ _ _).trans ((if_neg hne).trans (hb.lookup_anonVar j))
  var := by
    obtain ⟨v, hv⟩ := nameVar_eq_some 0 p.start.var
    refine ⟨v, hv, fun id' hid' => ?_⟩
    unfold Reached.first at hid' ⊢
    cases hbound : p.start.var.bind b.lookup with
    | some bound =>
      simp only [hbound] at hid'
      obtain ⟨v', hv', -⟩ := Option.bind_eq_some_iff.mp hbound
      have hvv : v' = v := by
        rw [hv'] at hv
        exact Option.some.inj hv
      subst hvv
      have hmem : BindingValue.node id' ∈ p.start.var.bind b.lookup := by
        rw [hv', Option.bind_some]
        exact hid'
      exact BindingValue.node.inj (hdenotes _ hmem)
    | none =>
      simp only [hbound, lookup_bindVar, if_pos hv] at hid'
      exact (BindingValue.node.inj (Option.some.inj hid')).symm

/-- Matching the start pattern. -/
lemma matchNode_eq_ok {p : PathPattern Expression} {b : Bindings} (hb : b.Spelled)
    {rows : List Bindings} :
    matchNode x ev (nameAnonymous p).start b = .ok rows ↔
      (∀ id ∈ startCandidates x p b, ∃ ok, nodeMatchesPattern x ev id p.start b = .ok ok) ∧
        rows = (startsTaken x ev p b).map fun id => (Reached.first p b id).scope := by
  have hvar : (nameVar 0 p.start.var).2.bind b.lookup = p.start.var.bind b.lookup :=
    bind_nameVar fun j _ => hb.lookup_anonVar j
  have htest : ∀ id, nodeMatchesPattern x ev id (nameAnonymous p).start b =
      nodeMatchesPattern x ev id p.start b := fun id => nodeMatchesPattern_var hvar
  have hvar' : (nameAnonymous p).start.var.bind b.lookup = p.start.var.bind b.lookup := hvar
  unfold matchNode startsTaken startCandidates Reached.first
  simp only [hvar', htest]
  cases hbound : p.start.var.bind b.lookup with
  | some bound =>
    cases bound with
    | node id =>
      simp only [BindingValue.asNode, Option.toList_some, List.mem_singleton, forall_eq]
      have hcomm : ∀ l : List Bindings, l = rows ↔ rows = l := fun l => eq_comm
      cases hid : nodeMatchesPattern x ev id p.start b with
      | error err => simp [Except.map]
      | ok ok => cases ok <;> simp [Except.map, passes, hid, hcomm]
    | edge id => simp [BindingValue.asNode, eq_comm]
    | path nodes edges => simp [BindingValue.asNode, eq_comm]
    | scalar value => simp [BindingValue.asNode, eq_comm]
  | none =>
    simp only
    rw [Except.map_eq_ok]
    constructor
    · rintro ⟨ids, hkeep, rfl⟩
      obtain ⟨test, htest', rfl⟩ := Except.keep_eq_ok.mp hkeep
      refine ⟨fun id hid => ⟨_, htest' id hid⟩, ?_⟩
      have hfilter : (nodeCandidates x (nameAnonymous p).start).filter test =
          (nodeCandidates x (nameAnonymous p).start).filter
            fun id => passes (nodeMatchesPattern x ev id p.start b) :=
        List.filter_congr fun id hid => by simp [htest' id hid, passes]
      rw [hfilter]
      rfl
    · rintro ⟨hok, rfl⟩
      refine ⟨_, Except.keep_eq_ok.mpr ⟨_, fun id hid => ?_, rfl⟩, rfl⟩
      obtain ⟨ok, hok'⟩ := hok id hid
      simp [hok', passes]

end Candidates

/-! ## The assignments found -/

section Found

variable {σ : Type} [GraphBackend σ] (S : PathSearch σ) (x : Executor σ) (ev : Evaluator)

/-- The assignments the executor finds, as often as it finds them. -/
def found (p : PathPattern Expression) (b : Bindings) : List Assignment :=
  (startsTaken x ev p b).flatMap fun id =>
    (search (Reached.next p.var.isSome) (hopsTaken x ev) p.segments (.first p b id)).map
      (Assignment.mk id)

/-- The executor can see the assignment: it starts at a candidate, and no inline node property is a
date, a time or a duration. -/
structure Assignment.Seen (p : PathPattern Expression) (b : Bindings) (a : Assignment) : Prop where
  listed : a.start ∈ startCandidates x p b
  start : NoTemporal x p.start a.start
  hops : a.AllHops p b (NoTemporalHop x)

/-- No undirected relationship of the pattern is assigned a self-loop. -/
def Assignment.NoUndirectedLoop (p : PathPattern Expression) (b : Bindings) (a : Assignment) : Prop :=
  a.AllHops p b fun segment _ h => ¬ UndirectedLoop segment h

variable {x ev}

/-- The assignments found are those that fit, apart from what the executor does not look at. -/
theorem mem_found (hg : GraphBackend.Coherent x.graph) {p : PathPattern Expression} {b : Bindings}
    {a : Assignment} : a ∈ found x ev p b ↔ a.Fits x ev p b ∧ a.Seen x p b := by
  obtain ⟨id, hops⟩ := a
  have hpath : hops ∈ search (Reached.next p.var.isSome) (hopsTaken x ev) p.segments (.first p b id) ↔
      IsPath (Reached.next p.var.isSome) (HopFits x ev) p.segments (.first p b id) hops ∧
        IsPath (Reached.next p.var.isSome) (NoTemporalHop x) p.segments (.first p b id) hops := by
    rw [mem_search, ← isPath_and]
    constructor
    · exact fun h => h.imp fun _ _ _ hmem => (mem_hopsTaken hg).mp hmem
    · exact fun h => h.imp fun _ _ _ hfits => (mem_hopsTaken hg).mpr hfits
  simp only [found, List.mem_flatMap, List.mem_map]
  constructor
  · rintro ⟨id', hid', hops', hops'_mem, heq⟩
    obtain ⟨rfl, rfl⟩ := Assignment.mk.inj heq
    obtain ⟨hlisted, hfits, htemporal⟩ := (mem_startsTaken hg).mp hid'
    obtain ⟨hfits', htemporal'⟩ := hpath.mp hops'_mem
    exact ⟨⟨hfits, hfits'⟩, ⟨hlisted, htemporal, htemporal'⟩⟩
  · rintro ⟨⟨hfits, hfits'⟩, ⟨hlisted, htemporal, htemporal'⟩⟩
    exact ⟨id, (mem_startsTaken hg).mpr ⟨hlisted, hfits, htemporal⟩, hops,
      hpath.mpr ⟨hfits', htemporal'⟩, rfl⟩

/-- Each assignment is found once exactly when no undirected self-loop is among them. -/
theorem nodup_found (hg : GraphBackend.Coherent x.graph) {p : PathPattern Expression} {b : Bindings} :
    (found x ev p b).Nodup ↔ ∀ a ∈ found x ev p b, a.NoUndirectedLoop p b := by
  classical
  have hsearch : ∀ id,
      (search (Reached.next p.var.isSome) (hopsTaken x ev) p.segments (.first p b id)).Nodup ↔
        ∀ hops ∈ search (Reached.next p.var.isSome) (hopsTaken x ev) p.segments (.first p b id),
          (Assignment.mk id hops).NoUndirectedLoop p b := by
    intro id
    simp only [nodup_search, mem_search]
    refine forall₂_congr fun hops hpath => ?_
    constructor
    · intro hone
      refine (isPath_and.mpr ⟨hpath, hone⟩).imp fun segment s h hmem => ?_
      exact (count_hopsTaken hg hmem.1).mp hmem.2
    · intro hloop
      refine (isPath_and.mpr ⟨hpath, hloop⟩).imp fun segment s h hmem => ?_
      exact (count_hopsTaken hg hmem.1).mpr hmem.2
  have hmk : ∀ id, Function.Injective (Assignment.mk id) := fun id _ _ heq => (Assignment.mk.inj heq).2
  rw [found, List.nodup_flatMap]
  constructor
  · rintro ⟨hnodup, -⟩ a hmem
    obtain ⟨id, hid, ha⟩ := List.mem_flatMap.mp hmem
    obtain ⟨hops, hhops, rfl⟩ := List.mem_map.mp ha
    exact (hsearch id).mp ((List.nodup_map_iff (hmk id)).mp (hnodup id hid)) hops hhops
  · intro hloop
    refine ⟨fun id hid => (List.nodup_map_iff (hmk id)).mpr ((hsearch id).mpr fun hops hhops => ?_), ?_⟩
    · exact hloop _ (List.mem_flatMap.mpr ⟨id, hid, List.mem_map_of_mem hhops⟩)
    · refine (nodup_startsTaken hg p b).imp fun {id id'} hne => ?_
      intro a ha ha'
      obtain ⟨_, -, rfl⟩ := List.mem_map.mp ha
      obtain ⟨_, -, heq⟩ := List.mem_map.mp ha'
      exact hne (Assignment.mk.inj heq).1.symm

/-! ## The path variable -/

/-- A scope keeps the bindings of another one. -/
def Bindings.Extends (b' b : Bindings) : Prop := ∀ v w, b.lookup v = some w → b'.lookup v = some w

/-- A hop that fits keeps the bindings. -/
lemma extends_next {bindEdges : Bool} {segment : PathSegment Expression} {s : Reached} (hs : s.Sound)
    {h : Hop} (hfits : HopFits x ev segment s h) :
    (s.next bindEdges segment h).scope.Extends s.scope := by
  intro v w hw
  have hbound : ∀ var : Option String, var = some v → w ∈ var.bind s.scope.lookup := by
    rintro _ rfl
    exact hw
  simp only [Reached.next, bindHop, lookup_bindVar]
  split
  · next hedge =>
    have hmem := hbound _ hedge
    rw [bind_nameSegment_edge hs.fresh] at hmem
    rw [hfits.edge.denotes w hmem]
  · split
    · next hnode =>
      have hmem := hbound (nameVar s.count segment.node.var).2 hnode
      rw [bind_nameVar hs.fresh] at hmem
      rw [hfits.node.denotes w hmem]
    · exact hw

section Hops

variable {bindEdges : Bool} {segments : List (PathSegment Expression)}
  (hnodes : ∀ segment ∈ segments, ∀ v ∈ segment.node.var, IsVisible v)
  (hedges : ∀ segment ∈ segments, ∀ v ∈ segment.edge.var, IsVisible v)

include hnodes hedges

/-- Hops that fit keep the bindings. -/
lemma extends_stateAfter {s : Reached} (hs : s.Sound) {hops : List Hop}
    (hfits : IsPath (Reached.next bindEdges) (HopFits x ev) segments s hops) :
    (stateAfter (Reached.next bindEdges) segments s hops).scope.Extends s.scope := by
  induction segments generalizing s hops with
  | nil =>
    cases hops with
    | nil => exact fun _ _ hw => hw
    | cons h hops => exact hfits.elim
  | cons segment segments ih =>
    cases hops with
    | nil => exact hfits.elim
    | cons h hops =>
      intro v w hw
      have hnext : (s.next bindEdges segment h).Sound :=
        hs.next (hnodes segment List.mem_cons_self) (hedges segment List.mem_cons_self) h
      exact ih (fun s' hs' => hnodes s' (List.mem_cons_of_mem _ hs'))
        (fun s' hs' => hedges s' (List.mem_cons_of_mem _ hs')) hnext hfits.2 v w
        (extends_next hs hfits.1 v w hw)

end Hops

/-- The named relationship and node of a hop have two variables when the hop has. -/
lemma nameSegment_edge_ne_node {segment : PathSegment Expression} {n : ℕ} {v : String}
    (hnode : ∀ v ∈ segment.node.var, IsVisible v) (hedge : ∀ v ∈ segment.edge.var, IsVisible v)
    (htwo : ∀ v ∈ segment.edge.var, v ∉ segment.node.var)
    (hv : (nameSegment true n segment).2.node.var = some v) :
    (nameSegment true n segment).2.edge.var ≠ some v := by
  have hv' : (nameVar n segment.node.var).2 = some v := hv
  change (nameVar (nameVar n segment.node.var).1 segment.edge.var).2 ≠ some v
  cases hevar : segment.edge.var with
  | some ve =>
    intro heq
    have hve : ve = v := Option.some.inj heq
    subst hve
    cases hnvar : segment.node.var with
    | some vn =>
      rw [hnvar] at hv'
      exact htwo ve hevar (hnvar.trans hv')
    | none =>
      rw [hnvar] at hv'
      exact not_isVisible_anonVar _ (Option.some.inj hv' ▸ hedge ve hevar)
  | none =>
    intro heq
    have hhidden : anonVar ((nameVar n segment.node.var).1 + 1) = v := Option.some.inj heq
    cases hnvar : segment.node.var with
    | some vn =>
      rw [hnvar] at hv' hhidden
      have hvn : vn = v := Option.some.inj hv'
      exact not_isVisible_anonVar _ (hhidden.trans hvn.symm ▸ hnode vn hnvar)
    | none =>
      rw [hnvar] at hv' hhidden
      have hvn : anonVar (n + 1) = v := Option.some.inj hv'
      have hinj := anonVar_inj (hhidden.trans hvn.symm)
      simp [nameVar] at hinj

/-- The elements of the hops are read back from the bindings. -/
lemma assembleSegments_eq {segments : List (PathSegment Expression)}
    (hnodes : ∀ segment ∈ segments, ∀ v ∈ segment.node.var, IsVisible v)
    (hedges : ∀ segment ∈ segments, ∀ v ∈ segment.edge.var, IsVisible v) {s : Reached} (hs : s.Sound)
    {hops : List Hop} (hfits : IsPath (Reached.next true) (HopFits x ev) segments s hops)
    (htwo : IsPath (Reached.next true) TwoVariables segments s hops) {b : Bindings}
    (hb : b.Extends (stateAfter (Reached.next true) segments s hops).scope) :
    assembleSegments b (nameSegments true s.count segments) =
      .ok (hops.map (·.node), hops.map (·.edge.id)) := by
  induction segments generalizing s hops with
  | nil =>
    cases hops with
    | nil => rfl
    | cons h hops => exact hfits.elim
  | cons segment segments ih =>
    cases hops with
    | nil => exact hfits.elim
    | cons h hops =>
      have hnode := hnodes segment List.mem_cons_self
      have hedge := hedges segment List.mem_cons_self
      have hnodes' := fun s' hs' => hnodes s' (List.mem_cons_of_mem _ hs')
      have hedges' := fun s' hs' => hedges s' (List.mem_cons_of_mem _ hs')
      have hnext : (s.next true segment h).Sound := hs.next hnode hedge h
      have hread : ∀ v w, (s.next true segment h).scope.lookup v = some w → b.lookup v = some w :=
        fun v w hw => hb v w (extends_stateAfter hnodes' hedges' hnext hfits.2 v w hw)
      obtain ⟨ve, hve⟩ := nameVar_eq_some (nameVar s.count segment.node.var).1 segment.edge.var
      obtain ⟨vn, hvn⟩ := nameVar_eq_some s.count segment.node.var
      have hvar : (nameSegment true s.count segment).2.edge.var = some ve := hve
      have hvar' : (nameSegment true s.count segment).2.node.var = some vn := hvn
      have hne := nameSegment_edge_ne_node hnode hedge htwo.1 hvar'
      have hread_edge : b.lookup ve = some (.edge h.edge.id) := by
        refine hread ve _ ?_
        simp only [Reached.next, bindHop, lookup_bindVar, if_pos hvar]
      have hread_node : b.lookup vn = some (.node h.node) := by
        refine hread vn _ ?_
        simp only [Reached.next, bindHop, lookup_bindVar, if_neg hne, if_pos hvar']
      have hrest : assembleSegments b
          (nameSegments true (nameSegment true s.count segment).1 segments) =
            .ok (hops.map (·.node), hops.map (·.edge.id)) :=
        ih hnodes' hedges' hnext hfits.2 htwo.2 hb
      simp [nameSegments, assembleSegments, hvar, hread_edge, pathNode, hvar', hread_node,
        BindingValue.asNode, hrest, Except.bind, Except.map]

/-- The path variable is bound to the path of the assignment. -/
lemma bindPath_eq {p : PathPattern Expression} (hp : p.Spelled) {b : Bindings} (hb : b.Spelled)
    {a : Assignment} (hfits : a.Fits x ev p b) (htwo : a.AllHops p b TwoVariables) :
    bindPath (nameAnonymous p) (a.scope p b) = .ok [bindVar (a.scope p b) p.var a.path] := by
  have hs := sound_first hp.start hb hfits.start.denotes
  have hvar : (nameAnonymous p).var = p.var := rfl
  unfold bindPath
  rw [hvar]
  cases hpath : p.var with
  | none => rfl
  | some v =>
    have hsome : p.var.isSome = true := by rw [hpath]; rfl
    have hhops := hfits.hops
    unfold Assignment.AllHops at hhops htwo
    rw [hsome] at hhops htwo
    have hscope : a.scope p b =
        (stateAfter (Reached.next true) p.segments (.first p b a.start) a.hops).scope := by
      rw [Assignment.scope, hsome]
    have hextends := extends_stateAfter hp.nodes hp.edges hs hhops
    rw [← hscope] at hextends
    have hsegments := assembleSegments_eq hp.nodes hp.edges hs hhops htwo (b := a.scope p b)
      (by rw [hscope]; exact fun _ _ hw => hw)
    have hstart : pathNode (a.scope p b) (nameAnonymous p).start.var = .ok a.start := by
      obtain ⟨vs, hvs⟩ := nameVar_eq_some 0 p.start.var
      have hvs' : (nameAnonymous p).start.var = some vs := hvs
      have hfirst : (Reached.first p b a.start).scope.lookup vs = some (.node a.start) := by
        unfold Reached.first
        cases hbound : p.start.var.bind b.lookup with
        | none => exact (lookup_bindVar _ _ _ _).trans (if_pos hvs)
        | some bound =>
          obtain ⟨v', hv', hlookup⟩ := Option.bind_eq_some_iff.mp hbound
          rw [hv'] at hvs
          have hvv : v' = vs := Option.some.inj hvs
          subst hvv
          rw [hfits.start.denotes bound hbound] at hlookup
          exact hlookup
      simp [pathNode, hvs', hextends vs _ hfirst, BindingValue.asNode]
    have hsegments' : assembleSegments (a.scope p b) (nameAnonymous p).segments =
        .ok (a.hops.map (·.node), a.hops.map (·.edge.id)) := by
      change assembleSegments (a.scope p b) (nameSegments p.var.isSome _ p.segments) = _
      rw [hsome]
      exact hsegments
    simp [assemblePath, hstart, hsegments', Except.bind, Except.map, Assignment.path, bindVar]

/-! ## Rows -/

variable (x ev)

/-- Nothing fails on the way: the start candidates can be tested, and every hop can be tried wherever
the executor comes by. -/
structure PathDefined (p : PathPattern Expression) (b : Bindings) : Prop where
  start : ∀ id ∈ startCandidates x p b, ∃ ok, nodeMatchesPattern x ev id p.start b = .ok ok
  hops : ∀ id ∈ startsTaken x ev p b,
    Throughout (Reached.next p.var.isSome) (hopsTaken x ev) (HopDefined x ev) p.segments (.first p b id)

variable {x ev}

/-- The rows before the path variable is bound are the scopes of the assignments found. -/
theorem matchElements_eq_ok (hg : GraphBackend.Coherent x.graph) {p : PathPattern Expression}
    (hp : p.Spelled) (hsingle : p.SingleHops) {b : Bindings} (hb : b.Spelled) {rows : List Bindings} :
    (matchNodePattern x ev (nameAnonymous p).start [b]).bind
        (matchSegments S x ev none (nameAnonymous p).segments (nameAnonymous p).start) = .ok rows ↔
      PathDefined x ev p b ∧ rows = (found x ev p b).map (Assignment.scope p b) := by
  have hfrom : ∀ id ∈ startsTaken x ev p b, ∀ rows,
      matchSegments S x ev none (nameAnonymous p).segments (nameAnonymous p).start
          [(Reached.first p b id).scope] = .ok rows ↔
        Throughout (Reached.next p.var.isSome) (hopsTaken x ev) (HopDefined x ev) p.segments
            (.first p b id) ∧
          rows = (search (Reached.next p.var.isSome) (hopsTaken x ev) p.segments
            (.first p b id)).map fun hops => Assignment.scope p b ⟨id, hops⟩ := by
    intro id hid rows
    have hfits := ((mem_startsTaken hg).mp hid).2.1
    exact matchSegments_eq_ok S hg hsingle.lengthRange hp.nodes hp.edges
      (sound_first hp.start hb hfits.denotes) rfl
  rw [matchNodePattern, Except.collect_singleton, Except.bind_eq_ok]
  simp only [matchNode_eq_ok hb]
  simp only [(rowwise_matchSegments S (lengthRange_nameSegments hsingle.lengthRange) _).eq_ok_iff,
    nameAnonymous]
  constructor
  · rintro ⟨_, ⟨hstart, rfl⟩, hrows⟩
    rw [Except.collect_map, Except.collect_eq_ok] at hrows
    obtain ⟨g, hg', rfl⟩ := hrows
    refine ⟨⟨hstart, fun id hid => ((hfrom id hid _).mp (hg' id hid)).1⟩, ?_⟩
    rw [found, List.map_flatMap]
    refine List.flatMap_congr fun id hid => ?_
    rw [((hfrom id hid _).mp (hg' id hid)).2, List.map_map]
    rfl
  · rintro ⟨⟨hstart, hhops⟩, rfl⟩
    refine ⟨_, ⟨hstart, rfl⟩, ?_⟩
    rw [Except.collect_map, Except.collect_eq_ok]
    refine ⟨_, fun id hid => (hfrom id hid _).mpr ⟨hhops id hid, rfl⟩, ?_⟩
    rw [found, List.map_flatMap]
    refine List.flatMap_congr fun id hid => ?_
    rw [List.map_map]
    rfl

/-- Without anonymous elements nothing is named. -/
lemma nameAnonymous_eq_self {p : PathPattern Expression} (hp : hasAnonymous p = false) :
    nameAnonymous p = p := by
  simp only [hasAnonymous, Bool.or_eq_false_iff, Bool.and_eq_false_iff, List.any_eq_false,
    Option.isNone_iff_eq_none, Option.isNone_eq_false_iff] at hp
  obtain ⟨⟨hstart, hnodes⟩, hedges⟩ := hp
  have hname : ∀ (n : ℕ) (var : Option String), var ≠ none → nameVar n var = (n, var) := by
    intro n var hvar
    cases var with
    | none => exact absurd rfl hvar
    | some v => rfl
  have hsegments : ∀ segments : List (PathSegment Expression),
      (∀ segment ∈ segments, ¬ segment.node.var = none) →
      (p.var.isSome = false ∨ ∀ segment ∈ segments, ¬ segment.edge.var = none) →
      ∀ n, nameSegments p.var.isSome n segments = segments := by
    intro segments
    induction segments with
    | nil => exact fun _ _ _ => rfl
    | cons segment segments ih =>
      intro hn he n
      have hnode := hname n _ (hn segment List.mem_cons_self)
      have hsegment : nameSegment p.var.isSome n segment = (n, segment) := by
        rcases he with he | he
        · simp [nameSegment, hnode, he]
        · simp [nameSegment, hnode, hname n _ (he segment List.mem_cons_self)]
      rw [nameSegments, hsegment]
      refine congrArg (segment :: ·) (ih (fun s hs => hn s (List.mem_cons_of_mem _ hs)) ?_ n)
      exact he.imp_right fun he s hs => he s (List.mem_cons_of_mem _ hs)
  have hstart' : nameVar 0 p.start.var = (0, p.start.var) := by
    refine hname 0 _ fun hnone => ?_
    simp [hnone] at hstart
  rw [nameAnonymous, hstart', hsegments p.segments hnodes hedges]

lemma Bindings.Spelled.bindVar {b : Bindings} (hb : b.Spelled) {var : Option String}
    (hvar : ∀ v ∈ var, IsVisible v) (value : BindingValue) : (bindVar b var value).Spelled := by
  cases var with
  | none => exact hb
  | some v =>
    intro name hname
    rcases (AList.mem_insert b).mp hname with rfl | hname
    · exact hvar _ rfl
    · exact hb name hname

/-- The variables a hop is bound under are visible when nothing in the path is anonymous. -/
lemma spelled_scope {p : PathPattern Expression} (hp : p.Spelled) (hnamed : nameAnonymous p = p)
    {b : Bindings} (hb : b.Spelled) (a : Assignment) : (a.scope p b).Spelled := by
  have hstart : (nameVar 0 p.start.var).2 = p.start.var :=
    congrArg (fun p : PathPattern Expression => p.start.var) hnamed
  have hfirst : (Reached.first p b a.start).scope.Spelled := by
    unfold Reached.first
    cases p.start.var.bind b.lookup with
    | some bound => exact hb
    | none =>
      simp only [hstart]
      exact hb.bindVar hp.start _
  have hsegments : nameSegments p.var.isSome (Reached.first p b a.start).count p.segments = p.segments :=
    congrArg (fun p : PathPattern Expression => p.segments) hnamed
  have hnodes := hp.nodes
  have hedges := hp.edges
  unfold Assignment.scope
  generalize Reached.first p b a.start = s at hfirst hsegments
  generalize p.segments = segments at hsegments hnodes hedges
  generalize a.hops = hops
  induction segments generalizing s hops with
  | nil => cases hops <;> exact hfirst
  | cons segment segments ih =>
    cases hops with
    | nil => exact hfirst
    | cons h hops =>
      obtain ⟨hsegment, hsegments'⟩ := List.cons.inj hsegments
      refine ih _ ?_ hsegments' (fun s hs => hnodes s (List.mem_cons_of_mem _ hs))
        (fun s hs => hedges s (List.mem_cons_of_mem _ hs)) hops
      simp only [Reached.next, bindHop, hsegment]
      exact (hfirst.bindVar (hnodes segment List.mem_cons_self) _).bindVar
        (hedges segment List.mem_cons_self) _

/-- The three stages of matching a path, on the named pattern. -/
lemma matchPathPattern_eq {p : PathPattern Expression} (hsingle : p.SingleHops) (bs : List Bindings) :
    matchPathPattern S x ev p bs =
      (((matchNodePattern x ev (nameAnonymous p).start bs).bind
        (matchSegments S x ev none (nameAnonymous p).segments (nameAnonymous p).start)).bind
          (Except.collect (bindPath (nameAnonymous p)))).map
            fun rows => if hasAnonymous p then rows.map dropHidden else rows := by
  have hnamed : (if hasAnonymous p then nameAnonymous p else p) = nameAnonymous p := by
    cases h : hasAnonymous p with
    | true => rfl
    | false => exact (nameAnonymous_eq_self h).symm
  have hshortest : (nameAnonymous p).shortest = none := hsingle.shortest
  simp only [matchPathPattern, hnamed, hshortest]
  cases matchNodePattern x ev (nameAnonymous p).start bs with
  | error err => rfl
  | ok rows =>
    simp only [Except.bind]
    cases matchSegments S x ev none (nameAnonymous p).segments (nameAnonymous p).start rows with
    | error err => rfl
    | ok rows => rfl

/-- Paths of single hops treat the rows one by one. -/
lemma rowwise_matchPathPattern {p : PathPattern Expression} (hsingle : p.SingleHops) :
    Except.Rowwise (matchPathPattern S x ev p) := by
  have hlength : ∀ segment ∈ (nameAnonymous p).segments, segment.edge.lengthRange = none :=
    lengthRange_nameSegments hsingle.lengthRange
  have hsegments : Except.Rowwise
      (matchSegments S x ev none (nameAnonymous p).segments (nameAnonymous p).start) :=
    rowwise_matchSegments S hlength _
  have hstages := ((Except.Rowwise.collect (matchNode x ev (nameAnonymous p).start)).bind
    hsegments).bind (Except.Rowwise.collect (bindPath (nameAnonymous p)))
  have heq : matchPathPattern S x ev p = _ := funext (matchPathPattern_eq S hsingle)
  rw [heq]
  cases hasAnonymous p with
  | true => exact hstages.map dropHidden
  | false =>
    have hid := hstages.map (id : Bindings → Bindings)
    simp only [List.map_id_fun] at hid
    exact hid

/-- Binding the path variable keeps the number of rows. -/
lemma length_collect_bindPath {p : PathPattern Expression} {scopes rows : List Bindings}
    (hrows : Except.collect (bindPath p) scopes = .ok rows) : rows.length = scopes.length := by
  obtain ⟨g, hg, rfl⟩ := Except.collect_eq_ok.mp hrows
  have hone : ∀ c ∈ scopes, (g c).length = 1 := by
    intro c hc
    have hc' := hg c hc
    unfold bindPath at hc'
    cases hvar : p.var with
    | none =>
      rw [hvar] at hc'
      rw [← Except.ok.inj hc']
      rfl
    | some v =>
      rw [hvar] at hc'
      obtain ⟨path, -, hpath⟩ := Except.map_eq_ok.mp hc'
      rw [← hpath]
      rfl
  rw [List.length_flatMap, List.map_congr_left hone]
  simp

section Row

variable (hg : GraphBackend.Coherent x.graph) {p : PathPattern Expression} (hp : p.Spelled)
  (hsingle : p.SingleHops) {b : Bindings} (hb : b.Spelled)

include hg hp hsingle hb

/-- When rows are returned, nothing failed, and there are as many as assignments found. -/
lemma matchPathPattern_length {rows : List Bindings}
    (hrows : matchPathPattern S x ev p [b] = .ok rows) :
    PathDefined x ev p b ∧ rows.length = (found x ev p b).length := by
  rw [matchPathPattern_eq S hsingle, Except.map_eq_ok] at hrows
  obtain ⟨bound, hbound, rfl⟩ := hrows
  obtain ⟨scopes, hscopes, hpaths⟩ := Except.bind_eq_ok.mp hbound
  obtain ⟨hdefined, rfl⟩ := (matchElements_eq_ok S hg hp hsingle hb).mp hscopes
  refine ⟨hdefined, ?_⟩
  have hlength := length_collect_bindPath hpaths
  split <;> simp [hlength]

/-- When nothing fails, the rows are those of the assignments found. -/
lemma matchPathPattern_found (hdefined : PathDefined x ev p b)
    (htwo : ∀ a ∈ found x ev p b, a.AllHops p b TwoVariables) :
    matchPathPattern S x ev p [b] = .ok ((found x ev p b).map (Assignment.row p b)) := by
  have hpaths : Except.collect (bindPath (nameAnonymous p))
      ((found x ev p b).map (Assignment.scope p b)) =
        .ok ((found x ev p b).map fun a => bindVar (a.scope p b) p.var a.path) := by
    rw [Except.collect_map, Except.collect_eq_ok]
    refine ⟨_, fun a ha => bindPath_eq hp hb ((mem_found hg).mp ha).1 (htwo a ha), ?_⟩
    exact List.map_eq_flatMap
  rw [matchPathPattern_eq S hsingle, (matchElements_eq_ok S hg hp hsingle hb).mpr ⟨hdefined, rfl⟩]
  simp only [Except.bind, hpaths, Except.map]
  congr 1
  cases hanon : hasAnonymous p with
  | true =>
    simp only [if_true, List.map_map]
    rfl
  | false =>
    simp only [Bool.false_eq_true, if_false]
    refine List.map_congr_left fun a _ => ?_
    have hscope := spelled_scope hp (nameAnonymous_eq_self hanon) hb a
    exact ((hscope.bindVar hp.path a.path).dropHidden_eq).symm

end Row

/-! ## Agreement with the meaning -/

variable (x ev)

/-- No match is missed: the executor can see each of them. -/
def NoneMissed (p : PathPattern Expression) (bs : List Bindings) : Prop :=
  ∀ b ∈ bs, ∀ a : Assignment, a.Matches x ev p b → a.Seen x p b

/-- Nothing else is returned: nothing fails, and an assignment that fits and can be seen also has the
inline properties of relationships, gives one meaning to each variable and takes no self-loop where
the pattern gives no direction. -/
structure NoneExtra (p : PathPattern Expression) (bs : List Bindings) : Prop where
  defined : ∀ b ∈ bs, PathDefined x ev p b
  properties : ∀ b ∈ bs, ∀ a : Assignment, a.Fits x ev p b → a.Seen x p b →
    a.AllHops p b (EdgeProperties ev)
  twoVariables : ∀ b ∈ bs, ∀ a : Assignment, a.Fits x ev p b → a.Seen x p b →
    a.AllHops p b TwoVariables
  denotes : ∀ b ∈ bs, ∀ a : Assignment, a.Fits x ev p b → a.Seen x p b →
    Denotes (a.scope p b) p.var a.path
  noLoop : ∀ b ∈ bs, ∀ a : Assignment, a.Fits x ev p b → a.Seen x p b → a.NoUndirectedLoop p b

variable {x ev}

/-- Without an index or a hint for the start pattern, every node that fits is a candidate. -/
lemma mem_startCandidates (hg : GraphBackend.Coherent x.graph) {p : PathPattern Expression}
    {b : Bindings} (hindex : indexLookup x (nameAnonymous p).start = none)
    (hrange : rangeIndexCandidates x (nameAnonymous p).start = none) {id : NodeId}
    (hfits : NodeFits x ev b p.start id) : id ∈ startCandidates x p b := by
  obtain ⟨hdenotes, n, hn, hlabels, -⟩ := hfits
  have hstart : (nameAnonymous p).start.labels = p.start.labels := rfl
  unfold startCandidates
  cases hbound : p.start.var.bind b.lookup with
  | some bound => simp [hdenotes bound hbound, BindingValue.asNode]
  | none =>
    simp only [nodeCandidates, hindex, scanCandidates, hrange, Option.getD_none, hstart]
    cases hlabel : p.start.labels.head? with
    | none => exact (hg.mem_nodeIds id).mpr ⟨n, hn⟩
    | some label => exact (hg.mem_nodesByLabel id label).mpr ⟨n, hn, hlabels label (List.mem_of_head? hlabel)⟩

/-- Two sums are equal only term by term when one dominates the other. -/
lemma eq_of_sum_map_eq {α : Type*} {l : List α} {f g : α → ℕ} (hle : ∀ a ∈ l, f a ≤ g a)
    (hsum : (l.map f).sum = (l.map g).sum) : ∀ a ∈ l, f a = g a := by
  induction l with
  | nil => simp
  | cons c l ih =>
    have hc := hle c List.mem_cons_self
    have hrest := List.sum_le_sum fun a ha => hle a (List.mem_cons_of_mem c ha)
    simp only [List.map_cons, List.sum_cons] at hsum
    intro a ha
    rcases List.mem_cons.mp ha with rfl | ha
    · omega
    · exact ih (fun a ha => hle a (List.mem_cons_of_mem c ha)) (by omega) a ha

/-- The executor returns one row for each match of a path pattern exactly when it misses none and
returns nothing else, provided one of the two holds. -/
theorem matchPathPattern_oneRowEach (hg : GraphBackend.Coherent x.graph)
    {p : PathPattern Expression} (hp : p.Spelled) (hsingle : p.SingleHops) {bs : List Bindings}
    (hbs : ∀ b ∈ bs, b.Spelled) (honly : NoneMissed x ev p bs ∨ NoneExtra x ev p bs) :
    (∃ rows, matchPathPattern S x ev p bs = .ok rows ∧ OneRowEach x ev p bs rows) ↔
      NoneMissed x ev p bs ∧ NoneExtra x ev p bs := by
  have hrowwise : ∀ rows, matchPathPattern S x ev p bs = .ok rows ↔
      ∃ g : Bindings → List Bindings,
        (∀ b ∈ bs, matchPathPattern S x ev p [b] = .ok (g b)) ∧ rows = bs.flatMap g :=
    fun rows => (rowwise_matchPathPattern S hsingle).eq_ok_iff.trans Except.collect_eq_ok
  simp only [hrowwise]
  constructor
  · rintro ⟨_, ⟨g, hrows, rfl⟩, matching, hmatching, hperm⟩
    have hlength : ∀ b ∈ bs, (g b).length = (found x ev p b).length := fun b hb =>
      (matchPathPattern_length S hg hp hsingle (hbs b hb) (hrows b hb)).2
    have hdefined : ∀ b ∈ bs, PathDefined x ev p b := fun b hb =>
      (matchPathPattern_length S hg hp hsingle (hbs b hb) (hrows b hb)).1
    have hsum : (bs.map fun b => (found x ev p b).length).sum =
        (bs.map fun b => (matching b).length).sum := by
      have hlengths := hperm.length_eq
      rw [List.length_flatMap, List.length_flatMap, List.map_congr_left hlength] at hlengths
      simpa using hlengths
    -- Either way the assignments found are the matches, each found once.
    have hsame : ∀ b ∈ bs, (found x ev p b).Perm (matching b) := by
      rcases honly with hmissed | hextra
      · have hsub : ∀ b ∈ bs, (matching b).Subperm (found x ev p b) := fun b hb =>
          (hmatching b hb).1.subperm fun a ha => by
            have hmatches := ((hmatching b hb).2 a).mp ha
            exact (mem_found hg).mpr ⟨hmatches.toFits, hmissed b hb a hmatches⟩
        have heq := eq_of_sum_map_eq (fun b hb => (hsub b hb).length_le) hsum.symm
        exact fun b hb => ((hsub b hb).perm_of_length_le (heq b hb).symm.le).symm
      · have hnodup : ∀ b ∈ bs, (found x ev p b).Nodup := fun b hb =>
          (nodup_found hg).mpr fun a ha => by
            obtain ⟨hfits, hseen⟩ := (mem_found hg).mp ha
            exact hextra.noLoop b hb a hfits hseen
        have hsub : ∀ b ∈ bs, (found x ev p b).Subperm (matching b) := fun b hb =>
          (hnodup b hb).subperm fun a ha => by
            obtain ⟨hfits, hseen⟩ := (mem_found hg).mp ha
            exact ((hmatching b hb).2 a).mpr ⟨hfits, hextra.properties b hb a hfits hseen,
              hextra.twoVariables b hb a hfits hseen, hextra.denotes b hb a hfits hseen⟩
        have heq := eq_of_sum_map_eq (fun b hb => (hsub b hb).length_le) hsum
        exact fun b hb => (hsub b hb).perm_of_length_le (heq b hb).symm.le
    have hmatches : ∀ b ∈ bs, ∀ a : Assignment, a.Fits x ev p b → a.Seen x p b →
        a.Matches x ev p b := fun b hb a hfits hseen =>
      ((hmatching b hb).2 a).mp ((hsame b hb).mem_iff.mp ((mem_found hg).mpr ⟨hfits, hseen⟩))
    refine ⟨fun b hb a ha => ?_, ⟨hdefined, ?_, ?_, ?_, ?_⟩⟩
    · exact ((mem_found hg).mp ((hsame b hb).mem_iff.mpr (((hmatching b hb).2 a).mpr ha))).2
    · exact fun b hb a hfits hseen => (hmatches b hb a hfits hseen).properties
    · exact fun b hb a hfits hseen => (hmatches b hb a hfits hseen).twoVariables
    · exact fun b hb a hfits hseen => (hmatches b hb a hfits hseen).denotes
    · intro b hb a hfits hseen
      have hnodup := (hsame b hb).nodup_iff.mpr (hmatching b hb).1
      exact (nodup_found hg).mp hnodup a ((mem_found hg).mpr ⟨hfits, hseen⟩)
  · rintro ⟨hmissed, hextra⟩
    refine ⟨_, ⟨fun b => (found x ev p b).map (Assignment.row p b), fun b hb => ?_, rfl⟩,
      found x ev p, fun b hb => ⟨?_, fun a => ?_⟩, List.Perm.refl _⟩
    · refine matchPathPattern_found S hg hp hsingle (hbs b hb) (hextra.defined b hb) fun a ha => ?_
      obtain ⟨hfits, hseen⟩ := (mem_found hg).mp ha
      exact hextra.twoVariables b hb a hfits hseen
    · refine (nodup_found hg).mpr fun a ha => ?_
      obtain ⟨hfits, hseen⟩ := (mem_found hg).mp ha
      exact hextra.noLoop b hb a hfits hseen
    · rw [mem_found hg]
      constructor
      · rintro ⟨hfits, hseen⟩
        exact ⟨hfits, hextra.properties b hb a hfits hseen, hextra.twoVariables b hb a hfits hseen,
          hextra.denotes b hb a hfits hseen⟩
      · exact fun hmatches => ⟨hmatches.toFits, hmissed b hb a hmatches⟩

end Found

/-! ## A sample -/

/-- The graph of `CREATE (:Person)-[:KNOWS]->(:Person)`. -/
def friends : ConcurrentGraph :=
  WriteCall.run .new [.createNodeWithLabels ["Person"], .createNodeWithLabels ["Person"],
    .createEdge 0 1 "KNOWS"]

lemma friends_consistent : friends.Consistent :=
  ((ConcurrentGraph.consistent_new.createNodeWithLabels (by decide) _).createNodeWithLabels
    (by decide) _).createEdge 0 1 "KNOWS" (by decide)

/-- An executor on a graph, without constraints and indexes. -/
def Executor.plain (g : ConcurrentGraph) : Executor ConcurrentGraph where
  graph := g
  constraints := .new
  fulltext := .new
  propertyIndex := .new
  rangeHints := []
  params := ∅

/-- Only literals are evaluated. -/
def evaluateLiteral : Evaluator := fun _ e =>
  match e with
  | .literal lit => .ok (.ofLiteral lit)
  | _ => .error (.typeError "not a literal")

/-- The pattern `(a)-[r:KNOWS {..}]->(b)`. -/
def knowsPattern (properties : List (String × Expression)) : PathPattern Expression where
  var := none
  start := { var := some "a", labels := [], properties := [] }
  segments := [{
    edge := { var := some "r", edgeType := some "KNOWS", properties := properties,
              direction := .outgoing, lengthRange := none }
    node := { var := some "b", labels := [], properties := [] } }]
  shortest := none

lemma knowsPattern_spelled (properties : List (String × Expression)) :
    (knowsPattern properties).Spelled where
  start := by simp [knowsPattern, IsVisible]; decide +kernel
  nodes := by simp [knowsPattern, IsVisible]; decide +kernel
  edges := by simp [knowsPattern, IsVisible]; decide +kernel
  path := by simp [knowsPattern]

lemma knowsPattern_singleHops (properties : List (String × Expression)) :
    (knowsPattern properties).SingleHops where
  shortest := rfl
  lengthRange := by simp [knowsPattern]

lemma spelled_empty : (∅ : Bindings).Spelled := fun _ hname => (AList.notMem_empty _ hname).elim

/-- Every edge of the graph is the one created, without properties. -/
lemma friends_edges {e : Edge} (he : GraphBackend.getEdge friends e.id = some e) :
    e = { id := 0, label := "KNOWS", fromNode := 0, toNode := 1, properties := ∅ } := by
  have hlookup : GraphBackend.getEdge friends e.id = if e.id = 0 then
      some { id := 0, label := "KNOWS", fromNode := 0, toNode := 1, properties := ∅ } else none :=
    HashMap.lookup_insert_ite _ _ _ _
  rw [hlookup] at he
  split at he
  · exact (Option.some.inj he).symm
  · cases he

theorem matchPathPattern_oneRowEach_friends :
    ∃ rows, matchPathPattern ⟨fun _ _ _ _ _ _ => .ok [], fun _ _ _ _ _ _ => .ok []⟩
        (.plain friends) evaluateLiteral (knowsPattern []) [∅] = .ok rows ∧
      OneRowEach (.plain friends) evaluateLiteral (knowsPattern []) [∅] rows := by
  have hg : GraphBackend.Coherent (Executor.plain friends).graph := friends_consistent.coherent
  have hnotemporal : ∀ (p : NodePattern Expression) id, p.properties = [] →
      NoTemporal (.plain friends) p id := fun p id hp => by simp [NoTemporal, hp]
  have htest : ∀ (p : NodePattern Expression) (b : Bindings) id, p.properties = [] →
      ∃ ok, nodeMatchesPattern (.plain friends) evaluateLiteral id p b = .ok ok := by
    intro p b id hp
    unfold nodeMatchesPattern
    rw [hp]
    split_ifs <;> exact ⟨_, rfl⟩
  have hmissed : NoneMissed (.plain friends) evaluateLiteral (knowsPattern []) [∅] := by
    intro b _ a hmatches
    refine ⟨mem_startCandidates hg rfl rfl hmatches.start, hnotemporal _ _ rfl, ?_⟩
    obtain ⟨h, hhops, -⟩ := isPath_singleton.mp hmatches.hops
    exact isPath_singleton.mpr ⟨h, hhops, hnotemporal _ _ rfl⟩
  have hextra : NoneExtra (.plain friends) evaluateLiteral (knowsPattern []) [∅] := by
    have hhop : ∀ (b : Bindings) (a : Assignment),
        a.Fits (.plain friends) evaluateLiteral (knowsPattern []) b →
        ∀ ok : PathSegment Expression → Reached → Hop → Prop,
          (∀ segment ∈ (knowsPattern []).segments, ∀ s h, ok segment s h) →
          a.AllHops (knowsPattern []) b ok := by
      intro b a hfits ok hok
      obtain ⟨h, hhops, -⟩ := isPath_singleton.mp hfits.hops
      exact isPath_singleton.mpr ⟨h, hhops, hok _ List.mem_cons_self _ h⟩
    refine ⟨?_, ?_, ?_, ?_, ?_⟩
    · intro b hb
      obtain rfl := List.mem_singleton.mp hb
      refine ⟨fun id _ => htest _ _ id rfl, fun id hid => ⟨⟨?_, fun e m _ _ => htest _ _ m rfl⟩,
        fun h _ => trivial⟩⟩
      rfl
    · intro b _ a hfits _
      refine hhop b a hfits _ fun segment hsegment s h => ?_
      obtain rfl := List.mem_singleton.mp hsegment
      exact fun property hproperty => by cases hproperty
    · intro b _ a hfits _
      refine hhop b a hfits _ fun segment hsegment s h => ?_
      obtain rfl := List.mem_singleton.mp hsegment
      simp [TwoVariables]
    · intro b _ a _ _ bound hbound
      cases hbound
    · intro b _ a hfits _
      refine hhop b a hfits _ fun segment hsegment s h => ?_
      obtain rfl := List.mem_singleton.mp hsegment
      simp [UndirectedLoop]
  exact (matchPathPattern_oneRowEach _ hg (knowsPattern_spelled []) (knowsPattern_singleHops [])
    (by simpa using spelled_empty) (.inl hmissed)).mpr ⟨hmissed, hextra⟩

/-- The inline properties of a relationship are not looked at: a `KNOWS` relationship without
properties is found for `(a)-[r:KNOWS {since: 1}]->(b)`. -/
theorem matchPathPattern_ignores_edge_properties :
    ¬ ∀ (S : PathSearch ConcurrentGraph) (x : Executor ConcurrentGraph) (ev : Evaluator)
        (p : PathPattern Expression) (bs : List Bindings),
      x.graph.Consistent → p.Spelled → p.SingleHops → (∀ b ∈ bs, b.Spelled) →
        ∃ rows, matchPathPattern S x ev p bs = .ok rows ∧ OneRowEach x ev p bs rows := by
  intro hall
  let p := knowsPattern [("since", .literal (.int 1))]
  obtain ⟨rows, hrows, matching, hmatching, hperm⟩ :=
    hall ⟨fun _ _ _ _ _ _ => .ok [], fun _ _ _ _ _ _ => .ok []⟩ (.plain friends) evaluateLiteral p [∅]
      friends_consistent (knowsPattern_spelled _) (knowsPattern_singleHops _)
      (by simpa using spelled_empty)
  have hlength := (matchPathPattern_length _ friends_consistent.coherent (knowsPattern_spelled _)
    (knowsPattern_singleHops _) spelled_empty hrows).2
  have hone : (found (.plain friends) evaluateLiteral p ∅).length = 1 := by decide +kernel
  have hnone : matching ∅ = [] := by
    refine List.eq_nil_iff_forall_not_mem.mpr fun a ha => ?_
    have hmatches := ((hmatching ∅ List.mem_cons_self).2 a).mp ha
    obtain ⟨h, hhops, hproperties⟩ := isPath_singleton.mp hmatches.properties
    have hfits := hmatches.hops
    unfold Assignment.AllHops at hfits
    rw [hhops] at hfits
    have hlive : GraphBackend.getEdge friends h.edge.id = some h.edge := hfits.1.edge.live
    obtain ⟨actual, expected, hactual, -⟩ := hproperties ("since", .literal (.int 1)) List.mem_cons_self
    rw [friends_edges hlive] at hactual
    cases hactual
  have hempty := hperm.length_eq
  rw [hlength, hone] at hempty
  simp [hnone] at hempty

end Maharit
