import Mathlib.Data.Prod.Lex
import MaharitDb.Lib.Loop
import MaharitDb.Lib.Partition
import MaharitDb.Lib.Tally
import MaharitDb.Core.Adjacency

/-!
# Connected components and label propagation

`connected_components` and `label_propagation` of `maharit-core/src/algorithms.rs`.  Both read the edges in both
directions.  The first searches from every node that no search has visited yet; the second hands labels from node to
node in place, so a label never leaves the component that it comes from.
-/

namespace Maharit

namespace Graph

/-- An edge joins two nodes, in one direction or the other. -/
def Joins (g : Graph) (u v : NodeId) : Prop := g.Links u v ∨ g.Links v u

/-- A walk that disregards the directions of the edges leads from one node to the other. -/
def Connected (g : Graph) : NodeId → NodeId → Prop := Relation.ReflTransGen g.Joins

variable {g : Graph}

lemma Connected.symm {u v : NodeId} (h : g.Connected u v) : g.Connected v u := by
  induction h with
  | refl => exact .refl
  | tail _ hjoin ih => exact ih.head hjoin.symm

lemma Adjacent.joins_mem (h : g.Adjacent) {u v : NodeId} (hjoin : g.Joins u v) : u ∈ g.nodeIds ∧ v ∈ g.nodeIds := by
  rcases hjoin with hlink | hlink
  · exact h.links_mem hlink
  · exact (h.links_mem hlink).symm

lemma Adjacent.connected_mem (h : g.Adjacent) {u v : NodeId} (hconn : g.Connected u v) (hu : u ∈ g.nodeIds) :
    v ∈ g.nodeIds := by
  induction hconn with
  | refl => exact hu
  | tail _ hjoin _ => exact (h.joins_mem hjoin).2

/-- The nodes at the other ends of the edges of a node, those that leave it first. -/
def neighbors (g : Graph) (u : NodeId) : List NodeId :=
  (g.getOutgoingEdges u).map Edge.toNode ++ (g.getIncomingEdges u).map Edge.fromNode

lemma Adjacent.mem_neighbors (h : g.Adjacent) {u v : NodeId} : v ∈ g.neighbors u ↔ g.Joins u v := by
  rw [neighbors, List.mem_append, List.mem_map, List.mem_map, Joins, h.links_iff, h.links_iff']

/-! ## Connected components -/

/-- The search for one component between two turns of its loop. -/
structure ComponentSearch where
  queue : List NodeId
  visited : HashSet NodeId
  component : HashSet NodeId

/-- One turn of the inner loop. -/
def ComponentSearch.step (g : Graph) (s : ComponentSearch) : ComponentSearch ⊕ ComponentSearch :=
  match s.queue with
  | [] => .inr s
  | current :: queue =>
      if current ∈ s.visited then .inl { s with queue }
      else
        let visited := s.visited.add current
        .inl
          { queue := queue ++ (g.neighbors current).filter fun v => decide (v ∉ visited)
            visited
            component := s.component.add current }

/-- The inner loop; it starts with an empty component. -/
def findComponent (g : Graph) (fuel : ℕ) (visited : HashSet NodeId) (start : NodeId) : Option ComponentSearch :=
  Loop.run (ComponentSearch.step g) fuel ⟨[start], visited, ∅⟩

/-- The turn of a node in the outer loop. -/
def collectComponent (g : Graph) (fuel : ℕ) (found : HashSet NodeId × List (HashSet NodeId)) (id : NodeId) :
    Option (HashSet NodeId × List (HashSet NodeId)) :=
  if id ∈ found.1 then some found
  else (g.findComponent fuel found.1 id).map fun s => (s.visited, found.2 ++ [s.component])

/-- `connected_components`. -/
def connectedComponents (g : Graph) (fuel : ℕ) : Option (List (HashSet NodeId)) :=
  (g.nodeIds.foldlM (g.collectComponent fuel) (∅, [])).map (·.2)

/-- The search for the component of `start`, when the nodes of `before` were visited earlier. -/
structure ComponentSearch.Inv (g : Graph) (before : HashSet NodeId) (start : NodeId) (s : ComponentSearch) : Prop where
  visited : ∀ v, v ∈ s.visited ↔ v ∈ before ∨ v ∈ s.component
  fresh : ∀ v ∈ s.component, v ∉ before
  component : ∀ v ∈ s.component, g.Connected start v
  queue : ∀ v ∈ s.queue, g.Connected start v
  start : start ∈ s.visited ∨ start ∈ s.queue
  /-- What the component has not taken in waits in the queue. -/
  pending : ∀ u ∈ s.component, ∀ v, g.Joins u v → v ∈ s.visited ∨ v ∈ s.queue

/-- The nodes left to visit, and then the nodes in the queue. -/
def ComponentSearch.rank (g : Graph) (s : ComponentSearch) : ℕ ×ₗ ℕ :=
  toLex (Loop.unseen g.nodeIds s.visited, s.queue.length)

lemma ComponentSearch.inv_start {before : HashSet NodeId} {start : NodeId} :
    Inv g before start ⟨[start], before, ∅⟩ where
  visited v := by simp
  fresh v hv := absurd hv (AList.notMem_empty v)
  component v hv := absurd hv (AList.notMem_empty v)
  queue v hv := by
    rw [List.mem_singleton.mp hv]
    exact .refl
  start := .inr (List.mem_singleton_self start)
  pending u hu := absurd hu (AList.notMem_empty u)

lemma ComponentSearch.Inv.step (h : g.Adjacent) {before : HashSet NodeId} {start : NodeId}
    (hstart : start ∈ g.nodeIds) {s s' : ComponentSearch} (hs : Inv g before start s) (hstep : s.step g = .inl s') :
    Inv g before start s' ∧ s'.rank g < s.rank g := by
  obtain ⟨queue, visited, component⟩ := s
  unfold ComponentSearch.step at hstep
  cases queue with
  | nil => cases hstep
  | cons current queue =>
    dsimp only at hstep
    by_cases hcurrent : current ∈ visited
    · -- a node that was visited after it had been put into the queue
      rw [if_pos hcurrent] at hstep
      obtain rfl := Sum.inl.inj hstep
      refine ⟨⟨hs.visited, hs.fresh, hs.component, fun v hv => hs.queue v (List.mem_cons_of_mem _ hv), ?_, ?_⟩, ?_⟩
      · rcases hs.start with hvisited | hqueue
        · exact .inl hvisited
        · rcases List.mem_cons.mp hqueue with rfl | hqueue
          · exact .inl hcurrent
          · exact .inr hqueue
      · intro u hu v hjoin
        rcases hs.pending u hu v hjoin with hvisited | hqueue
        · exact .inl hvisited
        · rcases List.mem_cons.mp hqueue with rfl | hqueue
          · exact .inl hcurrent
          · exact .inr hqueue
      · exact Prod.Lex.toLex_lt_toLex.mpr (.inr ⟨rfl, Nat.lt_succ_self _⟩)
    · rw [if_neg hcurrent] at hstep
      obtain rfl := Sum.inl.inj hstep
      have hconn : g.Connected start current := hs.queue current List.mem_cons_self
      have hlive : current ∈ g.nodeIds := h.connected_mem hconn hstart
      have hbefore : current ∉ before := fun hmem => hcurrent ((hs.visited current).mpr (.inl hmem))
      refine ⟨⟨fun v => ?_, fun v hv => ?_, fun v hv => ?_, fun v hv => ?_, ?_, fun u hu v hjoin => ?_⟩, ?_⟩
      · rw [HashSet.mem_add, HashSet.mem_add, hs.visited]
        tauto
      · rcases (HashSet.mem_add ..).mp hv with rfl | hv
        · exact hbefore
        · exact hs.fresh v hv
      · rcases (HashSet.mem_add ..).mp hv with rfl | hv
        · exact hconn
        · exact hs.component v hv
      · rcases List.mem_append.mp hv with hv | hv
        · exact hs.queue v (List.mem_cons_of_mem _ hv)
        · exact hconn.tail (h.mem_neighbors.mp (List.mem_of_mem_filter hv))
      · rcases hs.start with hvisited | hqueue
        · exact .inl ((HashSet.mem_add ..).mpr (.inr hvisited))
        · rcases List.mem_cons.mp hqueue with rfl | hqueue
          · exact .inl ((HashSet.mem_add ..).mpr (.inl rfl))
          · exact .inr (List.mem_append_left _ hqueue)
      · by_cases hv : v ∈ visited.add current
        · exact .inl hv
        · refine .inr ?_
          rcases (HashSet.mem_add ..).mp hu with rfl | hu
          · exact List.mem_append_right _ (List.mem_filter.mpr ⟨h.mem_neighbors.mpr hjoin, decide_eq_true hv⟩)
          · rcases hs.pending u hu v hjoin with hvisited | hqueue
            · exact absurd ((HashSet.mem_add ..).mpr (.inr hvisited)) hv
            · rcases List.mem_cons.mp hqueue with rfl | hqueue
              · exact absurd ((HashSet.mem_add ..).mpr (.inl rfl)) hv
              · exact List.mem_append_left _ hqueue
      · exact Prod.Lex.toLex_lt_toLex.mpr (.inl (Loop.unseen_insert_lt () hlive hcurrent))

/-- The parts that the outer loop has found. -/
structure FoundParts (g : Graph) (done : List NodeId) (found : HashSet NodeId × List (HashSet NodeId)) : Prop where
  visited : ∀ v, v ∈ found.1 ↔ ∃ p ∈ found.2, v ∈ p
  done : ∀ v ∈ done, v ∈ found.1
  live : ∀ v ∈ found.1, v ∈ g.nodeIds
  nonempty : ∀ p ∈ found.2, ∃ v, v ∈ p
  disjoint : found.2.Pairwise fun p q => ∀ v, v ∈ p → v ∉ q
  classes : ∀ p ∈ found.2, ∀ u ∈ p, ∀ v, v ∈ p ↔ g.Connected u v

/-- The inner loop finds the component of a node that was not visited before. -/
lemma FoundParts.findComponent (h : g.Adjacent) {done : List NodeId} {found : HashSet NodeId × List (HashSet NodeId)}
    (hfound : g.FoundParts done found) {start : NodeId} (hstart : start ∈ g.nodeIds) (hnew : start ∉ found.1) :
    ∃ s, (∀ v, v ∈ s.component ↔ g.Connected start v) ∧
      (∀ v, v ∈ s.visited ↔ v ∈ found.1 ∨ v ∈ s.component) ∧ (∀ v ∈ s.component, v ∉ found.1) ∧
      WithFuel (fun fuel => g.findComponent fuel found.1 start) (· = some s) := by
  have hwf : WellFounded fun s s' : ComponentSearch => s.rank g < s'.rank g :=
    InvImage.wf (ComponentSearch.rank g) wellFounded_lt
  obtain ⟨s, ⟨hs, hempty⟩, hrun⟩ := Loop.run_withFuel (ComponentSearch.Inv g found.1 start)
    (fun s => ComponentSearch.Inv g found.1 start s ∧ s.queue = []) hwf
    (fun s s' hs hstep => hs.step h hstart hstep)
    (fun s r hs hdone => by
      unfold ComponentSearch.step at hdone
      split at hdone
      · next hqueue =>
        obtain rfl := Sum.inr.inj hdone
        exact ⟨hs, hqueue⟩
      · split at hdone <;> cases hdone)
    ComponentSearch.inv_start
  have hreached : ∀ v, g.Connected start v → v ∈ s.component := by
    intro v hconn
    induction hconn with
    | refl =>
      rcases hs.start with hvisited | hqueue
      · exact ((hs.visited start).mp hvisited).resolve_left hnew
      · rw [hempty] at hqueue
        cases hqueue
    | @tail u v _ hjoin ih =>
      rcases hs.pending u ih v hjoin with hvisited | hqueue
      · refine ((hs.visited v).mp hvisited).resolve_left fun hbefore => hs.fresh u ih ?_
        -- the other node would have been found together with this one
        obtain ⟨p, hp, hvp⟩ := (hfound.visited v).mp hbefore
        exact (hfound.visited u).mpr ⟨p, hp, (hfound.classes p hp v hvp u).mpr (.single hjoin.symm)⟩
      · rw [hempty] at hqueue
        cases hqueue
  exact ⟨s, fun v => ⟨hs.component v, hreached v⟩, hs.visited, hs.fresh, hrun⟩

/-- One turn of the outer loop. -/
lemma FoundParts.collectComponent (h : g.Adjacent) {done : List NodeId}
    {found : HashSet NodeId × List (HashSet NodeId)} (hfound : g.FoundParts done found) {id : NodeId}
    (hid : id ∈ g.nodeIds) :
    ∃ found', g.FoundParts (done ++ [id]) found' ∧
      WithFuel (fun fuel => g.collectComponent fuel found id) (· = some found') := by
  by_cases hvisited : id ∈ found.1
  · refine ⟨found, ⟨hfound.visited, fun v hv => ?_, hfound.live, hfound.nonempty, hfound.disjoint, hfound.classes⟩,
      WithFuel.of_forall fun fuel => if_pos hvisited⟩
    rcases List.mem_append.mp hv with hv | hv
    · exact hfound.done v hv
    · rw [List.mem_singleton.mp hv]
      exact hvisited
  · obtain ⟨s, hcomponent, hnow, hfresh, hrun⟩ := hfound.findComponent h hid hvisited
    have hself : id ∈ s.component := (hcomponent id).mpr .refl
    refine ⟨(s.visited, found.2 ++ [s.component]), ⟨fun v => ?_, fun v hv => ?_, fun v hv => ?_, fun p hp => ?_, ?_,
      fun p hp u hu v => ?_⟩, ?_⟩
    · rw [hnow, hfound.visited]
      simp only [List.mem_append, List.mem_singleton, or_and_right, exists_or, exists_eq_left]
    · rcases List.mem_append.mp hv with hv | hv
      · exact (hnow v).mpr (.inl (hfound.done v hv))
      · rw [List.mem_singleton.mp hv]
        exact (hnow id).mpr (.inr hself)
    · rcases (hnow v).mp hv with hv | hv
      · exact hfound.live v hv
      · exact h.connected_mem ((hcomponent v).mp hv) hid
    · rcases List.mem_append.mp hp with hp | hp
      · exact hfound.nonempty p hp
      · rw [List.mem_singleton.mp hp]
        exact ⟨id, hself⟩
    · refine List.pairwise_append.mpr ⟨hfound.disjoint, List.pairwise_singleton _ _, fun p hp q hq v hvp hvq => ?_⟩
      rw [List.mem_singleton.mp hq] at hvq
      exact hfresh v hvq ((hfound.visited v).mpr ⟨p, hp, hvp⟩)
    · rcases List.mem_append.mp hp with hp | hp
      · exact hfound.classes p hp u hu v
      · rw [List.mem_singleton.mp hp] at hu ⊢
        have hconn := (hcomponent u).mp hu
        rw [hcomponent]
        exact ⟨fun hv => hconn.symm.trans hv, fun hv => hconn.trans hv⟩
    · refine WithFuel.map (f := fun r => if id ∈ found.1 then some found
        else r.map fun s => (s.visited, found.2 ++ [s.component])) hrun fun r hr => ?_
      rw [if_neg hvisited, hr, Option.map_some]

/-- The search finds the classes of undirected reachability. -/
theorem Adjacent.connectedComponents (h : g.Adjacent) :
    ∃ components, IsPartition g.nodeIds g.Connected components ∧
      WithFuel (fun fuel => g.connectedComponents fuel) (· = some components) := by
  have hstart : g.FoundParts [] (∅, []) :=
    ⟨fun v => by simp, fun v hv => absurd hv List.not_mem_nil, fun v hv => absurd hv (AList.notMem_empty v),
      fun p hp => absurd hp List.not_mem_nil, List.Pairwise.nil, fun p hp => absurd hp List.not_mem_nil⟩
  obtain ⟨found, hfound, hrun⟩ := Loop.foldlM_withFuel g.FoundParts g.nodeIds
    (fun done id rest found hl hfound => hfound.collectComponent h (by rw [hl]; simp)) hstart
  refine ⟨found.2, ⟨hfound.nonempty, hfound.disjoint, fun v => ?_, fun p hp u hu v _ => hfound.classes p hp u hu v⟩, ?_⟩
  · rw [← hfound.visited]
    exact ⟨hfound.done v, hfound.live v⟩
  · exact WithFuel.map (f := fun r => r.map Prod.snd) (R := (· = some found.2)) hrun fun r hr => by rw [hr, Option.map_some]

/-! ## Label propagation -/

/-- Count a label (`*label_counts.entry(label).or_insert(0) += 1`). -/
def countLabel (counts : HashMap UInt64 ℕ) (label : UInt64) : HashMap UInt64 ℕ :=
  counts.insert label ((counts.lookup label).getD 0 + 1)

/-- How often each label is found at the neighbors of a node. -/
def labelCounts (g : Graph) (labels : HashMap NodeId UInt64) (id : NodeId) : HashMap UInt64 ℕ :=
  let count := fun (counts : HashMap UInt64 ℕ) (neighbor : NodeId) =>
    match labels.lookup neighbor with
    | some label => countLabel counts label
    | none => counts
  let labelCounts := (g.getOutgoingEdges id).foldl (fun counts edge => count counts edge.toNode) ∅
  (g.getIncomingEdges id).foldl (fun counts edge => count counts edge.fromNode) labelCounts

/-- The smallest of the labels that are counted most often; `none` when there are none. -/
def bestLabel (counts : HashMap UInt64 ℕ) : Option UInt64 :=
  ((counts.entries.map (·.2)).max?).bind fun maxCount =>
    ((counts.entries.filter fun e => e.2 = maxCount).map (·.1)).min?

/-- The turn of a node; the flag says whether a label has changed in this round. -/
def relabel (g : Graph) (state : HashMap NodeId UInt64 × Bool) (id : NodeId) : HashMap NodeId UInt64 × Bool :=
  match bestLabel (g.labelCounts state.1 id) with
  | none => state
  | some best => if some best = state.1.lookup id then state else (state.1.insert id best, true)

/-- The rounds. -/
def propagate (g : Graph) (nodeIds : List NodeId) : ℕ → HashMap NodeId UInt64 → HashMap NodeId UInt64
  | 0, labels => labels
  | rounds + 1, labels =>
      let (labels', changed) := nodeIds.foldl (relabel g) (labels, false)
      if changed then propagate g nodeIds rounds labels' else labels'

/-- `label_propagation`. -/
def labelPropagation (g : Graph) (maxIterations : ℕ) : HashMap NodeId UInt64 :=
  let labels : HashMap NodeId UInt64 := HashMap.tabulate g.nodeIds fun id => id
  if g.nodeIds.isEmpty then labels
  else propagate g (g.nodeIds.mergeSort fun u v => decide (u ≤ v)) maxIterations labels

/-- Every node has a label, and it is the id of a node of its component. -/
structure Labelled (g : Graph) (labels : HashMap NodeId UInt64) : Prop where
  mem_iff : ∀ v, v ∈ labels ↔ v ∈ g.nodeIds
  connected : ∀ v label, labels.lookup v = some label → g.Connected v label

/-- Only labels of neighbors are counted. -/
lemma mem_labelCounts (h : g.Adjacent) {labels : HashMap NodeId UInt64} {id : NodeId} {label : UInt64}
    (hlabel : label ∈ g.labelCounts labels id) : ∃ v, g.Joins id v ∧ labels.lookup v = some label := by
  let count := fun (counts : HashMap UInt64 ℕ) (neighbor : NodeId) =>
    match labels.lookup neighbor with
    | some label => countLabel counts label
    | none => counts
  have hcount : ∀ (counts : HashMap UInt64 ℕ) (v : NodeId), label ∈ count counts v →
      label ∈ counts ∨ labels.lookup v = some label := by
    intro counts v hmem
    dsimp only [count] at hmem
    cases hv : labels.lookup v with
    | none =>
      rw [hv] at hmem
      exact .inl hmem
    | some other =>
      rw [hv] at hmem
      rcases (AList.mem_insert _).mp hmem with rfl | hmem
      · exact .inr rfl
      · exact .inl hmem
  have hfold : ∀ (far : Edge → NodeId) (edges : List Edge) (counts : HashMap UInt64 ℕ),
      label ∈ edges.foldl (fun counts edge => count counts (far edge)) counts →
      label ∈ counts ∨ ∃ edge ∈ edges, labels.lookup (far edge) = some label := by
    intro far edges
    induction edges with
    | nil => exact fun counts hmem => .inl hmem
    | cons edge edges ih =>
      intro counts hmem
      rcases ih _ hmem with hmem | ⟨e, he, hlookup⟩
      · rcases hcount counts (far edge) hmem with hmem | hlookup
        · exact .inl hmem
        · exact .inr ⟨edge, List.mem_cons_self, hlookup⟩
      · exact .inr ⟨e, List.mem_cons_of_mem _ he, hlookup⟩
  rcases hfold Edge.fromNode _ _ hlabel with hmem | ⟨edge, hedge, hlookup⟩
  · rcases hfold Edge.toNode _ _ hmem with hmem | ⟨edge, hedge, hlookup⟩
    · exact absurd hmem (AList.notMem_empty label)
    · exact ⟨edge.toNode, .inl (h.links_iff.mpr ⟨edge, hedge, rfl⟩), hlookup⟩
  · exact ⟨edge.fromNode, .inr (h.links_iff'.mpr ⟨edge, hedge, rfl⟩), hlookup⟩

/-- The best label has been counted. -/
lemma mem_of_bestLabel {counts : HashMap UInt64 ℕ} {best : UInt64} (h : bestLabel counts = some best) :
    best ∈ counts := by
  obtain ⟨maxCount, -, hmin⟩ := Option.bind_eq_some_iff.mp h
  obtain ⟨e, he, rfl⟩ := List.mem_map.mp (List.min?_mem hmin)
  exact List.mem_keys_of_mem (List.mem_of_mem_filter he)

/-- The turn of a node. -/
lemma Labelled.relabel (h : g.Adjacent) {state : HashMap NodeId UInt64 × Bool} (hstate : g.Labelled state.1)
    {id : NodeId} (hid : id ∈ g.nodeIds) : g.Labelled (g.relabel state id).1 := by
  unfold Graph.relabel
  cases hbest : bestLabel (g.labelCounts state.1 id) with
  | none => exact hstate
  | some best =>
    dsimp only
    split
    · exact hstate
    · refine ⟨fun v => ?_, fun v label hlabel => ?_⟩
      · rw [AList.mem_insert, hstate.mem_iff]
        exact ⟨fun hv => hv.elim (fun heq => heq ▸ hid) fun hv => hv, .inr⟩
      · rw [HashMap.lookup_insert_ite] at hlabel
        by_cases hv : v = id
        · rw [if_pos hv] at hlabel
          obtain rfl := Option.some.inj hlabel
          obtain ⟨u, hjoin, hu⟩ := mem_labelCounts h (mem_of_bestLabel hbest)
          rw [hv]
          exact (hstate.connected u _ hu).head hjoin
        · rw [if_neg hv] at hlabel
          exact hstate.connected v label hlabel

/-- The turns of a round. -/
lemma Labelled.foldl_relabel (h : g.Adjacent) {ids : List NodeId} (hids : ∀ id ∈ ids, id ∈ g.nodeIds)
    {state : HashMap NodeId UInt64 × Bool} (hstate : g.Labelled state.1) :
    g.Labelled (ids.foldl g.relabel state).1 := by
  induction ids generalizing state with
  | nil => exact hstate
  | cons id ids ih =>
    exact ih (fun v hv => hids v (List.mem_cons_of_mem _ hv)) (hstate.relabel h (hids id List.mem_cons_self))

/-- The rounds. -/
lemma Labelled.propagate (h : g.Adjacent) {ids : List NodeId} (hids : ∀ id ∈ ids, id ∈ g.nodeIds) (rounds : ℕ)
    {labels : HashMap NodeId UInt64} (hlabels : g.Labelled labels) : g.Labelled (g.propagate ids rounds labels) := by
  induction rounds generalizing labels with
  | zero => exact hlabels
  | succ rounds ih =>
    have hround := @Labelled.foldl_relabel g h ids hids (labels, false) hlabels
    rw [Graph.propagate]
    dsimp only
    split
    · exact ih hround
    · exact hround

theorem Adjacent.labelPropagation (h : g.Adjacent) (maxIterations : ℕ) :
    g.Labelled (g.labelPropagation maxIterations) := by
  have hstart : g.Labelled (HashMap.tabulate g.nodeIds fun id => id) := by
    refine ⟨HashMap.mem_tabulate _ _, fun v label hlabel => ?_⟩
    rw [HashMap.lookup_tabulate] at hlabel
    split at hlabel
    · rw [← Option.some.inj hlabel]
      exact .refl
    · cases hlabel
  unfold Graph.labelPropagation
  dsimp only
  split
  · exact hstart
  · exact hstart.propagate h (fun id hid => List.mem_mergeSort.mp hid) maxIterations

/-! ## Communities and components -/

/-- `connected_components` divides the live nodes into the classes of undirected reachability, and after any number of
rounds of label propagation the label of every live node is the id of a live node of the same component. -/
theorem component_structure (g : Graph) (hg : g.Built) :
    ∃ components, WithFuel (fun fuel => g.connectedComponents fuel) (· = some components) ∧
      IsPartition g.nodeIds g.Connected components ∧
      ∀ maxIterations, (∀ v, v ∈ g.labelPropagation maxIterations ↔ v ∈ g.nodeIds) ∧
        ∀ v label, (g.labelPropagation maxIterations).lookup v = some label →
          label ∈ g.nodeIds ∧ ∃ c ∈ components, v ∈ c ∧ label ∈ c := by
  have h := hg.adjacent
  obtain ⟨components, hparts, hrun⟩ := h.connectedComponents
  refine ⟨components, hrun, hparts, fun maxIterations => ?_⟩
  have hlabels := h.labelPropagation maxIterations
  refine ⟨hlabels.mem_iff, fun v label hlabel => ?_⟩
  have hv : v ∈ g.nodeIds := (hlabels.mem_iff v).mp ((HashMap.mem_iff_exists _ v).mpr ⟨label, hlabel⟩)
  have hconn := hlabels.connected v label hlabel
  have hlive := h.connected_mem hconn hv
  exact ⟨hlive, (hparts.share_iff hv hlive).mpr hconn⟩

/-- Two nodes that an edge joins, and one apart. -/
def pairAndOne : Graph :=
  ofCalls [.createNodeWithLabels ["A"], .createNodeWithLabels ["B"], .createNodeWithLabels ["C"],
    .createEdge 1 0 "KNOWS"]

theorem component_structure_pairAndOne :
    ∃ components, WithFuel (fun fuel => pairAndOne.connectedComponents fuel) (· = some components) ∧
      IsPartition pairAndOne.nodeIds pairAndOne.Connected components ∧
      ∀ maxIterations, (∀ v, v ∈ pairAndOne.labelPropagation maxIterations ↔ v ∈ pairAndOne.nodeIds) ∧
        ∀ v label, (pairAndOne.labelPropagation maxIterations).lookup v = some label →
          label ∈ pairAndOne.nodeIds ∧ ∃ c ∈ components, v ∈ c ∧ label ∈ c :=
  component_structure pairAndOne (built_ofCalls _ (by decide))

end Graph

end Maharit
