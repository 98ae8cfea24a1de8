import MaharitDb.Lib.CycleSearch
import MaharitDb.Core.PageRank
import MaharitDb.Core.StrongComponents

/-!
# Cycles and topological order

`has_cycle`, `find_cycles` and `topological_sort` of `maharit-core/src/algorithms.rs`.  The first two are depth-first
searches: one stops at the first edge that leads back to a node it is still in, the other notes the nodes from there on
and goes on.  The third takes the nodes whose edges all come from nodes taken before.
-/

namespace Maharit

namespace Graph

open RecursiveSearch CycleSearch Relation

/-- There is a directed cycle. -/
def Cyclic (g : Graph) : Prop := ∃ v, TransGen g.Links v v

/-- The nodes of a directed cycle, in order: each has an edge to the next one, and the last one to the first. -/
def IsCycle (g : Graph) (cycle : List NodeId) : Prop :=
  ∃ v rest, cycle = v :: rest ∧ cycle.Nodup ∧ List.IsChain g.Links (v :: rest ++ [v])

/-! ## The searches -/

/-- `dfs_cycle`: the nodes that the search is in, and whether it has returned `true`. -/
def dfsCycle : Actions NodeId (HashSet NodeId × Bool) where
  enter node s := (s.1.add node, s.2)
  meet target s := (s.1, s.2 || decide (target ∈ s.1))
  leave node s := if s.2 then s else (s.1.remove node, s.2)
  stopped s := s.2

/-- `has_cycle`. -/
def hasCycle (g : Graph) (fuel : ℕ) : Option Bool :=
  (visitAll dfsCycle g.successors fuel g.nodeIds (∅, (∅, false))).map fun st => st.2.2

/-- The state of `find_cycles_dfs` beside the marks. -/
structure CycleStack where
  recStack : List NodeId
  inStack : HashSet NodeId
  cycles : List (List NodeId)

/-- `find_cycles_dfs`: the nodes on the stack from the one that an edge leads back to are a cycle. -/
def findCyclesDfs : Actions NodeId CycleStack where
  enter node s := { s with recStack := s.recStack ++ [node], inStack := s.inStack.add node }
  meet target s :=
    if target ∈ s.inStack then
      { s with cycles := s.cycles ++ [s.recStack.drop (s.recStack.idxOf target)] }
    else s
  leave node s := { s with recStack := s.recStack.dropLast, inStack := s.inStack.remove node }
  stopped _ := false

/-- `find_cycles`. -/
def findCycles (g : Graph) (fuel : ℕ) : Option (List (List NodeId)) :=
  (visitAll findCyclesDfs g.successors fuel g.nodeIds (∅, ⟨[], ∅, []⟩)).map fun st => st.2.cycles

theorem detects_dfsCycle : Detects dfsCycle (fun s u => u ∈ s.1) (fun s => s.2 = true) where
  enter v s := ⟨fun u => HashSet.mem_add .., Iff.rfl⟩
  meet w s := ⟨fun u => Iff.rfl, by simp [dfsCycle]⟩
  leave v s := by
    cases hfound : s.2 with
    | true => simp [dfsCycle, hfound]
    | false => simp [dfsCycle, hfound]
  stopped s hstop := hstop

theorem detects_findCyclesDfs : Detects findCyclesDfs (fun s u => u ∈ s.inStack) (fun s => s.cycles ≠ []) where
  enter v s := ⟨fun u => HashSet.mem_add .., Iff.rfl⟩
  meet w s := by
    by_cases hw : w ∈ s.inStack
    · simp [findCyclesDfs, hw]
    · simp [findCyclesDfs, hw]
  leave v s := ⟨fun _ u => HashSet.mem_remove .., Iff.rfl, rfl⟩
  stopped s hstop := by cases hstop

variable {g : Graph}

lemma Adjacent.step_successors (h : g.Adjacent) : Step g.successors = g.Links := by
  funext u v
  exact propext h.mem_successors

lemma Adjacent.hasCycle (h : g.Adjacent) :
    ∃ cyclic, (cyclic = true ↔ g.Cyclic) ∧ WithFuel (fun fuel => g.hasCycle fuel) (· = some cyclic) := by
  obtain ⟨st, hst, hrun⟩ := detects_dfsCycle.visitAll (s := (∅, false))
    (fun u w (hw : w ∈ g.successors u) => (h.links_mem (h.mem_successors.mp hw)).2) (fun u => AList.notMem_empty u) (by simp)
  rw [h.step_successors] at hst
  refine ⟨st.2.2, hst, ?_⟩
  exact WithFuel.map (f := Option.map fun st : HashSet NodeId × HashSet NodeId × Bool => st.2.2)
    (R := (· = some st.2.2)) hrun fun r hr => by rw [hr, Option.map_some]

/-! ## The cycles that are listed -/

/-- The stack of the search. -/
structure Stacked (g : Graph) (st : HashSet NodeId × CycleStack) : Prop where
  inStack : ∀ u, u ∈ st.2.inStack ↔ u ∈ st.2.recStack
  marked : ∀ u ∈ st.2.recStack, u ∈ st.1
  nodup : st.2.recStack.Nodup
  chain : List.IsChain g.Links st.2.recStack
  cycles : ∀ c ∈ st.2.cycles, g.IsCycle c

/-- The end of a stack from a node on, when an edge leads from its last node to that one. -/
lemma isCycle_drop {stack : List NodeId} {v w : NodeId} (hnodup : (stack ++ [v]).Nodup)
    (hchain : List.IsChain g.Links (stack ++ [v])) (hw : w ∈ stack ++ [v]) (hlink : g.Links v w) :
    g.IsCycle ((stack ++ [v]).drop ((stack ++ [v]).idxOf w)) := by
  obtain ⟨before, after, hsplit⟩ := List.append_of_mem hw
  have hlast : (stack ++ [v]).getLast? = some v := List.getLast?_concat
  rw [hsplit] at hnodup hchain hlast ⊢
  have hfirst : w ∉ before := fun hmem => (List.nodup_append.mp hnodup).2.2 w hmem w List.mem_cons_self rfl
  have hdrop : (before ++ w :: after).drop ((before ++ w :: after).idxOf w) = w :: after := by
    rw [List.idxOf_append_of_notMem hfirst, List.idxOf_cons_self, Nat.add_zero, List.drop_left]
  rw [hdrop]
  refine ⟨w, after, rfl, (List.nodup_append.mp hnodup).2.1, ?_⟩
  refine hchain.right_of_append.append (List.isChain_singleton w) fun x hx y hy => ?_
  rw [List.getLast?_append_of_ne_nil _ (List.cons_ne_nil w after)] at hlast
  obtain rfl : v = x := Option.some.inj (hlast.symm.trans hx)
  obtain rfl : w = y := Option.some.inj hy
  exact hlink

lemma contract_stacked (h : g.Adjacent) :
    Contract findCyclesDfs g.successors g.nodeIds
      (fun v st => Stacked g st ∧ (v ∈ g.nodeIds ∧ v ∉ st.1) ∧ List.IsChain g.Links (st.2.recStack ++ [v]))
      (fun v st _ st' => Stacked g st' ∧ st'.2.recStack = st.2.recStack ++ [v])
      (fun _ st st' => Stacked g st' ∧ st'.2.recStack = st.2.recStack) where
  live v st hpre := hpre.2.1
  begin v st hpre := by
    obtain ⟨hst, ⟨-, hfresh⟩, hchain⟩ := hpre
    have hnew : v ∉ st.2.recStack := fun hmem => hfresh (hst.marked v hmem)
    refine ⟨⟨fun u => ?_, fun u hu => ?_, ?_, hchain, hst.cycles⟩, rfl⟩
    · show u ∈ st.2.inStack.add v ↔ u ∈ st.2.recStack ++ [v]
      rw [HashSet.mem_add, hst.inStack, List.mem_append, List.mem_singleton]
      exact or_comm
    · rcases List.mem_append.mp hu with hu | hu
      · exact (HashSet.mem_add ..).mpr (.inr (hst.marked u hu))
      · exact (HashSet.mem_add ..).mpr (.inl (List.mem_singleton.mp hu))
    · exact List.nodup_append.mpr ⟨hst.nodup, List.nodup_singleton v,
        fun a ha b hb hab => hnew (List.mem_singleton.mp hb ▸ hab ▸ ha)⟩
  stop v st done w st' _ _ hstop := by cases hstop
  meet v st done w st' hpre hmid hw _ hmark := by
    obtain ⟨hst, hstack⟩ := hmid
    by_cases hin : w ∈ st'.2.inStack
    · have hmem : w ∈ st'.2.recStack := (hst.inStack w).mp hin
      have hmeet : findCyclesDfs.meet w st'.2 =
          { st'.2 with cycles := st'.2.cycles ++ [st'.2.recStack.drop (st'.2.recStack.idxOf w)] } := if_pos hin
      rw [hmeet]
      refine ⟨⟨hst.inStack, hst.marked, hst.nodup, hst.chain, fun c hc => ?_⟩, hstack⟩
      rcases List.mem_append.mp hc with hc | hc
      · exact hst.cycles c hc
      · have hnodup := hst.nodup
        have hchain := hst.chain
        rw [hstack] at hmem hnodup hchain
        rw [List.mem_singleton.mp hc, hstack]
        exact isCycle_drop hnodup hchain hmem (h.mem_successors.mp hw)
    · have hmeet : findCyclesDfs.meet w st'.2 = st'.2 := if_neg hin
      rw [hmeet]
      exact ⟨hst, hstack⟩
  call v st done w st' hpre hmid hw _ hmark := by
    obtain ⟨hst, hstack⟩ := hmid
    have hlink := h.mem_successors.mp hw
    refine ⟨⟨hst, ⟨(h.links_mem hlink).2, hmark⟩, ?_⟩, fun st'' hpost _ => ⟨hpost.1, hpost.2.trans hstack⟩⟩
    refine hst.chain.append (List.isChain_singleton w) fun x hx y hy => ?_
    rw [hstack, List.getLast?_concat] at hx
    obtain rfl : v = x := Option.some.inj hx
    obtain rfl : w = y := Option.some.inj hy
    exact hlink
  finish v st st' hpre hmid _ := by
    obtain ⟨hst, hstack⟩ := hmid
    have hpop : st'.2.recStack.dropLast = st.2.recStack := by rw [hstack, List.dropLast_concat]
    have hnew : v ∉ st.2.recStack := fun hmem => hpre.2.1.2 (hpre.1.marked v hmem)
    refine ⟨⟨fun u => ?_, fun u hu => ?_, ?_, ?_, hst.cycles⟩, hpop⟩
    · show u ∈ st'.2.inStack.remove v ↔ u ∈ st'.2.recStack.dropLast
      rw [HashSet.mem_remove, hst.inStack, hpop, hstack, List.mem_append, List.mem_singleton]
      constructor
      · rintro ⟨hne, hu | hu⟩
        · exact hu
        · exact absurd hu hne
      · exact fun hu => ⟨fun heq => hnew (heq ▸ hu), .inl hu⟩
    · exact hst.marked u (List.dropLast_subset _ hu)
    · exact hst.nodup.sublist (List.dropLast_sublist _)
    · show List.IsChain g.Links st'.2.recStack.dropLast
      rw [hpop]
      exact hpre.1.chain

lemma Adjacent.findCycles (h : g.Adjacent) :
    ∃ cycles, (cycles ≠ [] ↔ g.Cyclic) ∧ (∀ c ∈ cycles, g.IsCycle c) ∧
      WithFuel (fun fuel => g.findCycles fuel) (· = some cycles) := by
  obtain ⟨st, hst, hrun⟩ := detects_findCyclesDfs.visitAll (s := ⟨[], ∅, []⟩)
    (fun u w (hw : w ∈ g.successors u) => (h.links_mem (h.mem_successors.mp hw)).2) (fun u => AList.notMem_empty u)
    (by simp)
  rw [h.step_successors] at hst
  obtain ⟨st', ⟨hst', -⟩, hrun'⟩ := (contract_stacked h).visitAll g.nodeIds (∅, ⟨[], ∅, []⟩)
    (fun _ st => Stacked g st ∧ st.2.recStack = [])
    (fun done v st hinv _ => hinv)
    (fun done v st hinv _ _ => hinv)
    (fun done v st hinv hv _ hmark => by
      obtain ⟨hstacked, hempty⟩ := hinv
      refine ⟨⟨hstacked, ⟨hv, hmark⟩, ?_⟩, fun st' hpost _ => ⟨hpost.1, hpost.2.trans hempty⟩⟩
      rw [hempty]
      exact List.isChain_singleton v)
    ⟨⟨fun u => ⟨fun hu => absurd hu (AList.notMem_empty u), fun hu => absurd hu List.not_mem_nil⟩,
      fun u hu => absurd hu List.not_mem_nil, List.nodup_nil, List.isChain_nil,
      fun c hc => absurd hc List.not_mem_nil⟩, rfl⟩
  have hsame : st' = st := by
    obtain ⟨fuel, hfirst, hsecond⟩ := (hrun.and hrun').exists
    exact Option.some.inj (hsecond.symm.trans hfirst)
  rw [hsame] at hst'
  refine ⟨st.2.cycles, hst, hst'.cycles, ?_⟩
  exact WithFuel.map (f := Option.map fun st : HashSet NodeId × CycleStack => st.2.cycles)
    (R := (· = some st.2.cycles)) hrun fun r hr => by rw [hr, Option.map_some]

/-! ## Topological order -/

/-- The state of `topological_sort` between two turns of its loop. -/
structure Sorting where
  inDegree : HashMap NodeId ℕ
  queue : List NodeId
  result : List NodeId

/-- An edge of a taken node; its target waits no longer for it. -/
def Sorting.release (s : Sorting) (edge : Edge) : Sorting :=
  let inDegree := HashMap.modify s.inDegree edge.toNode (· - 1)
  { s with
    inDegree
    queue := if HashMap.valueAt inDegree edge.toNode = 0 then s.queue ++ [edge.toNode] else s.queue }

/-- One turn of the loop. -/
def Sorting.step (g : Graph) (s : Sorting) : Sorting ⊕ List NodeId :=
  match s.queue with
  | [] => .inr s.result
  | node :: queue =>
      .inl ((g.getOutgoingEdges node).foldl Sorting.release { s with queue, result := s.result ++ [node] })

/-- The state before the loop. -/
def Sorting.start (g : Graph) : Sorting :=
  let inDegree := g.allEdges.foldl (fun inDegree edge => HashMap.addAt inDegree edge.toNode 1)
    (HashMap.tabulate g.nodeIds fun _ => 0)
  { inDegree, queue := g.nodeIds.filter fun id => HashMap.valueAt inDegree id = 0, result := [] }

/-- `topological_sort`. -/
def topologicalSort (g : Graph) (fuel : ℕ) : Option (Option (List NodeId)) :=
  (Loop.run (Sorting.step g) fuel (Sorting.start g)).map fun result =>
    if result.length = g.nodeIds.length then some result else none

/-- The state when the edges of `rest` that leave the last taken node have not been counted off. -/
structure Sorting.Inv (g : Graph) (s : Sorting) (rest : List Edge) : Prop where
  nodup : (s.result ++ s.queue).Nodup
  live : ∀ v ∈ s.result ++ s.queue, v ∈ g.nodeIds
  known : ∀ v ∈ g.nodeIds, v ∈ s.inDegree
  degree : ∀ v, HashMap.valueAt s.inDegree v =
    g.allEdges.countP (fun e => e.toNode = v ∧ e.fromNode ∉ s.result) + rest.countP (·.toNode = v)
  ready : ∀ v ∈ g.nodeIds, v ∈ s.result ++ s.queue ↔ HashMap.valueAt s.inDegree v = 0
  forward : ∀ e ∈ g.allEdges, e.toNode ∈ s.result →
    e.fromNode ∈ s.result ∧ s.result.idxOf e.fromNode < s.result.idxOf e.toNode

lemma Adjacent.sorting_start (h : g.Adjacent) : (Sorting.start g).Inv g [] := by
  have hdegree : ∀ v, HashMap.valueAt (Sorting.start g).inDegree v = g.allEdges.countP (·.toNode = v) := by
    intro v
    have hlookup := HashMap.lookup_foldl_addAt Edge.toNode (fun _ => 1) g.allEdges
      (HashMap.tabulate g.nodeIds fun _ => 0) v
    have hcount : ((g.allEdges.filter (·.toNode = v)).map fun _ => 1).sum = g.allEdges.countP (·.toNode = v) := by
      rw [List.map_const', List.sum_replicate, smul_eq_mul, mul_one, List.countP_eq_length_filter]
    rw [HashMap.valueAt, show (Sorting.start g).inDegree.lookup v = _ from hlookup, hcount, HashMap.lookup_tabulate]
    by_cases hv : v ∈ g.nodeIds
    · simp [hv]
    · have hnone : g.allEdges.countP (·.toNode = v) = 0 := by
        refine List.countP_eq_zero.mpr fun e he heq => hv ?_
        rw [← of_decide_eq_true heq]
        exact h.toNode_mem e he
      simp [hv, hnone]
  refine ⟨h.nodup_nodeIds.filter _, fun v hv => List.mem_of_mem_filter hv, fun v hv => ?_, fun v => ?_, fun v hv => ?_,
    fun e _ hmem => absurd hmem List.not_mem_nil⟩
  · have hkeys : ∀ (edges : List Edge) (m : HashMap NodeId ℕ),
        v ∈ edges.foldl (fun m edge => HashMap.addAt m edge.toNode 1) m ↔ v ∈ m := by
      intro edges
      induction edges with
      | nil => exact fun m => Iff.rfl
      | cons edge edges ih => exact fun m => (ih _).trans (HashMap.mem_addAt ..)
    exact (hkeys ..).mpr ((HashMap.mem_tabulate ..).mpr hv)
  · rw [hdegree]
    simp [Sorting.start]
  · show v ∈ [] ++ g.nodeIds.filter _ ↔ _
    rw [List.nil_append, List.mem_filter, decide_eq_true_iff]
    exact and_iff_right hv

/-- The edges into a node that wait for a node that is taken now are those that leave it. -/
lemma Adjacent.countP_take (h : g.Adjacent) {result : List NodeId} {node : NodeId} (hnode : node ∉ result)
    (v : NodeId) :
    g.allEdges.countP (fun e => e.toNode = v ∧ e.fromNode ∉ result) =
      g.allEdges.countP (fun e => e.toNode = v ∧ e.fromNode ∉ result ++ [node]) +
        (g.getOutgoingEdges node).countP (·.toNode = v) := by
  rw [← (h.perm_outgoing node).countP_eq, List.countP_filter]
  induction g.allEdges with
  | nil => rfl
  | cons e edges ih =>
    rw [List.countP_cons, List.countP_cons, List.countP_cons, ih]
    by_cases hfrom : e.fromNode = node
    · by_cases hto : e.toNode = v
      · simp [hfrom, hto, hnode]
        omega
      · simp [hto]
    · by_cases hto : e.toNode = v
      · simp [hfrom, hto]
        omega
      · simp [hto]

/-- Taking the first node of the queue. -/
lemma Sorting.Inv.take (h : g.Adjacent) {s : Sorting} (hs : s.Inv g []) {node : NodeId} {queue : List NodeId}
    (hqueue : s.queue = node :: queue) :
    Sorting.Inv g { s with queue, result := s.result ++ [node] } (g.getOutgoingEdges node) := by
  have hsame : s.result ++ s.queue = (s.result ++ [node]) ++ queue := by
    rw [hqueue, List.append_assoc, List.singleton_append]
  have hnodup := hs.nodup
  have hlive := hs.live
  have hready := hs.ready
  rw [hqueue] at hnodup
  have hnew : node ∉ s.result := fun hmem => (List.nodup_append.mp hnodup).2.2 node hmem node List.mem_cons_self rfl
  have hmem : node ∈ s.result ++ s.queue := by
    rw [hqueue]
    simp
  have hzero : HashMap.valueAt s.inDegree node = 0 := (hready node (hlive node hmem)).mp hmem
  refine ⟨?_, ?_, hs.known, fun v => ?_, ?_, fun e he hto => ?_⟩
  · show ((s.result ++ [node]) ++ queue).Nodup
    rw [← hsame]
    exact hs.nodup
  · show ∀ v ∈ (s.result ++ [node]) ++ queue, v ∈ g.nodeIds
    rw [← hsame]
    exact hlive
  · rw [← h.countP_take hnew v, hs.degree, List.countP_nil, add_zero]
  · show ∀ v ∈ g.nodeIds, v ∈ (s.result ++ [node]) ++ queue ↔ _
    rw [← hsame]
    exact hready
  · rcases List.mem_append.mp hto with hto | hto
    · obtain ⟨hfrom, hlt⟩ := hs.forward e he hto
      refine ⟨List.mem_append_left _ hfrom, ?_⟩
      rw [List.idxOf_append_of_mem hfrom, List.idxOf_append_of_mem hto]
      exact hlt
    · -- nothing that the node waits for is left
      have htarget : e.toNode = node := List.mem_singleton.mp hto
      have hfrom : e.fromNode ∈ s.result := by
        by_contra hnot
        rw [hs.degree, List.countP_nil, add_zero, List.countP_eq_zero] at hzero
        exact hzero e he (decide_eq_true ⟨htarget, hnot⟩)
      refine ⟨List.mem_append_left _ hfrom, ?_⟩
      rw [List.idxOf_append_of_mem hfrom, htarget, List.idxOf_append_of_notMem hnew]
      exact (List.idxOf_lt_length_iff.mpr hfrom).trans_le (Nat.le_add_right _ _)

/-- Counting off an edge of the node that was taken. -/
lemma Sorting.Inv.release {s : Sorting} {edge : Edge} {rest : List Edge} (hs : s.Inv g (edge :: rest))
    (hlive : edge.toNode ∈ g.nodeIds) : (s.release edge).Inv g rest := by
  have hvalue : ∀ v, HashMap.valueAt (s.release edge).inDegree v =
      if v = edge.toNode then HashMap.valueAt s.inDegree v - 1 else HashMap.valueAt s.inDegree v := by
    intro v
    obtain ⟨n, hn⟩ := (HashMap.mem_iff_exists _ _).mp (hs.known _ hlive)
    show ((HashMap.modify s.inDegree edge.toNode (· - 1)).lookup v).getD 0 = _
    rw [HashMap.lookup_modify, HashMap.valueAt]
    by_cases hv : v = edge.toNode
    · rw [if_pos hv, if_pos hv, hv, hn, Option.map_some, Option.getD_some, Option.getD_some]
    · rw [if_neg hv, if_neg hv]
  have hcount : ∀ v, (edge :: rest).countP (·.toNode = v) =
      rest.countP (·.toNode = v) + if v = edge.toNode then 1 else 0 := by
    intro v
    rw [List.countP_cons]
    by_cases hv : v = edge.toNode
    · simp [hv]
    · simp [hv, Ne.symm hv]
  have hpos : 0 < HashMap.valueAt s.inDegree edge.toNode := by
    rw [hs.degree, hcount, if_pos rfl]
    omega
  have hwaits : edge.toNode ∉ s.result ++ s.queue := fun hmem =>
    absurd ((hs.ready _ hlive).mp hmem) (Nat.pos_iff_ne_zero.mp hpos)
  have hdegree : ∀ v, HashMap.valueAt (s.release edge).inDegree v =
      g.allEdges.countP (fun e => e.toNode = v ∧ e.fromNode ∉ s.result) + rest.countP (·.toNode = v) := by
    intro v
    have hold := hs.degree v
    rw [hcount] at hold
    rw [hvalue]
    by_cases hv : v = edge.toNode
    · rw [if_pos hv] at hold ⊢
      omega
    · rw [if_neg hv] at hold ⊢
      omega
  have hknown : ∀ v ∈ g.nodeIds, v ∈ (s.release edge).inDegree := fun v hv =>
    (HashMap.mem_modify ..).mpr (hs.known v hv)
  have hothers : ∀ v ∈ g.nodeIds, v ≠ edge.toNode →
      (v ∈ s.result ++ s.queue ↔ HashMap.valueAt (s.release edge).inDegree v = 0) := by
    intro v hv hne
    rw [hvalue, if_neg hne]
    exact hs.ready v hv
  by_cases hzero : HashMap.valueAt (s.release edge).inDegree edge.toNode = 0
  · have hqueue : (s.release edge).queue = s.queue ++ [edge.toNode] := if_pos hzero
    have hpushed : (s.release edge).result ++ (s.release edge).queue = (s.result ++ s.queue) ++ [edge.toNode] := by
      rw [hqueue, List.append_assoc]
      rfl
    refine ⟨?_, fun v hv => ?_, hknown, hdegree, fun v hv => ?_, hs.forward⟩
    · rw [hpushed]
      exact List.nodup_append.mpr ⟨hs.nodup, List.nodup_singleton _,
        fun a ha b hb hab => hwaits (List.mem_singleton.mp hb ▸ hab ▸ ha)⟩
    · rw [hpushed] at hv
      rcases List.mem_append.mp hv with hv | hv
      · exact hs.live v hv
      · rw [List.mem_singleton.mp hv]
        exact hlive
    · rw [hpushed, List.mem_append, List.mem_singleton]
      by_cases hne : v = edge.toNode
      · rw [hne]
        exact ⟨fun _ => hzero, fun _ => .inr rfl⟩
      · rw [or_iff_left hne]
        exact hothers v hv hne
  · have hqueue : (s.release edge).queue = s.queue := if_neg hzero
    have hpushed : (s.release edge).result ++ (s.release edge).queue = s.result ++ s.queue := by
      rw [hqueue]
      rfl
    refine ⟨?_, ?_, hknown, hdegree, fun v hv => ?_, hs.forward⟩
    · rw [hpushed]
      exact hs.nodup
    · rw [hpushed]
      exact hs.live
    · rw [hpushed]
      by_cases hne : v = edge.toNode
      · rw [hne]
        exact ⟨fun hmem => absurd hmem hwaits, fun h => absurd h hzero⟩
      · exact hothers v hv hne

/-- Counting off all edges of the node that was taken. -/
lemma Sorting.Inv.foldl {s : Sorting} {rest : List Edge} (hs : s.Inv g rest)
    (hlive : ∀ e ∈ rest, e.toNode ∈ g.nodeIds) :
    (rest.foldl Sorting.release s).Inv g [] ∧ (rest.foldl Sorting.release s).result = s.result := by
  induction rest generalizing s with
  | nil => exact ⟨hs, rfl⟩
  | cons edge rest ih =>
    have hnext := ih (hs.release (hlive edge List.mem_cons_self)) fun e he => hlive e (List.mem_cons_of_mem _ he)
    exact ⟨hnext.1, hnext.2⟩

/-- What is left when the queue is empty: every node that was not taken waits for another one. -/
lemma Sorting.Inv.waits {s : Sorting} (hs : s.Inv g []) (hqueue : s.queue = []) {v : NodeId} (hv : v ∈ g.nodeIds)
    (hnot : v ∉ s.result) : ∃ u ∉ s.result, g.Links u v := by
  have hpos : HashMap.valueAt s.inDegree v ≠ 0 := by
    rw [Ne, ← hs.ready v hv, hqueue, List.append_nil]
    exact hnot
  rw [hs.degree, List.countP_nil, add_zero] at hpos
  obtain ⟨e, he, hmatch⟩ := List.countP_pos_iff.mp (Nat.pos_of_ne_zero hpos)
  obtain ⟨hto, hfrom⟩ := of_decide_eq_true hmatch
  exact ⟨e.fromNode, hfrom, e, he, rfl, hto⟩

lemma Adjacent.topologicalSort (h : g.Adjacent) :
    ∃ sorted, (sorted.isSome ↔ ¬ g.Cyclic) ∧
      (∀ order, sorted = some order → order.Perm g.nodeIds ∧
        ∀ e ∈ g.allEdges, order.idxOf e.fromNode < order.idxOf e.toNode) ∧
      WithFuel (fun fuel => g.topologicalSort fuel) (· = some sorted) := by
  have hwf : WellFounded fun s s' : Sorting => g.nodeIds.length - s.result.length < g.nodeIds.length - s'.result.length :=
    (measure fun s : Sorting => g.nodeIds.length - s.result.length).wf
  obtain ⟨result, ⟨s, hs, hqueue, rfl⟩, hrun⟩ := Loop.run_withFuel (fun s => s.Inv g [])
    (fun result => ∃ s : Sorting, s.Inv g [] ∧ s.queue = [] ∧ s.result = result) hwf
    (fun s s' hs (hstep : Sorting.step g s = .inl s') => by
      obtain ⟨inDegree, queue, result⟩ := s
      rcases queue with _ | ⟨node, queue⟩
      · cases hstep
      · obtain rfl := Sum.inl.inj hstep
        have htake := hs.take h rfl
        obtain ⟨hnext, hresult⟩ := htake.foldl fun e he => h.toNode_mem e ((h.mem_outgoing node e).mp he).1
        refine ⟨hnext, ?_⟩
        have hle : (result ++ node :: queue).length ≤ g.nodeIds.length := (hs.nodup.subperm hs.live).length_le
        rw [List.length_append, List.length_cons] at hle
        rw [hresult]
        show g.nodeIds.length - (result ++ [node]).length < g.nodeIds.length - result.length
        rw [List.length_append, List.length_singleton]
        omega)
    (fun s r hs (hstep : Sorting.step g s = .inr r) => by
      obtain ⟨inDegree, queue, result⟩ := s
      rcases queue with _ | ⟨node, queue⟩
      · obtain rfl := Sum.inr.inj hstep
        exact ⟨_, hs, rfl, rfl⟩
      · cases hstep)
    h.sorting_start
  have hnodup : s.result.Nodup := (List.nodup_append.mp hs.nodup).1
  have hlive : ∀ v ∈ s.result, v ∈ g.nodeIds := fun v hv => hs.live v (List.mem_append_left _ hv)
  have hperm : s.result.length = g.nodeIds.length → s.result.Perm g.nodeIds := fun hlength =>
    (hnodup.subperm hlive).perm_of_length_le hlength.ge
  have hforward : s.result.length = g.nodeIds.length →
      ∀ e ∈ g.allEdges, s.result.idxOf e.fromNode < s.result.idxOf e.toNode := fun hlength e he =>
    (hs.forward e he ((hperm hlength).mem_iff.mpr (h.toNode_mem e he))).2
  refine ⟨if s.result.length = g.nodeIds.length then some s.result else none, ⟨fun hsome => ?_, fun hacyclic => ?_⟩,
    fun order horder => ?_, ?_⟩
  · split at hsome
    · next hlength =>
      rintro ⟨v, hcycle⟩
      have hless : ∀ u w, TransGen g.Links u w → s.result.idxOf u < s.result.idxOf w := by
        intro u w hwalk
        induction hwalk with
        | single hlink =>
          obtain ⟨e, he, rfl, rfl⟩ := hlink
          exact hforward hlength e he
        | tail _ hlink ih =>
          obtain ⟨e, he, rfl, rfl⟩ := hlink
          exact ih.trans (hforward hlength e he)
      exact absurd (hless v v hcycle) (lt_irrefl _)
    · cases hsome
  · have hall : ∀ v ∈ g.nodeIds, v ∈ s.result := by
      by_contra hnot
      push Not at hnot
      obtain ⟨v, hv, hleft⟩ := hnot
      have hfinite : {v | v ∈ g.nodeIds ∧ v ∉ s.result}.Finite := (List.finite_toSet g.nodeIds).subset fun _ h => h.1
      obtain ⟨w, ⟨hw, hwleft⟩, hsource⟩ := exists_source (R := g.Links) (fun v hv => hacyclic ⟨v, hv⟩) hfinite
        ⟨v, hv, hleft⟩
      obtain ⟨u, huleft, hlink⟩ := hs.waits hqueue hw hwleft
      exact hsource u ⟨(h.links_mem hlink).1, huleft⟩ hlink
    have hlength : s.result.length = g.nodeIds.length :=
      (hnodup.subperm hlive).length_le.antisymm (h.nodup_nodeIds.subperm hall).length_le
    rw [if_pos hlength]
    rfl
  · split at horder
    · next hlength =>
      obtain rfl := Option.some.inj horder
      exact ⟨hperm hlength, hforward hlength⟩
    · cases horder
  · exact WithFuel.map (f := Option.map fun result : List NodeId =>
      if result.length = g.nodeIds.length then some result else none)
      (R := (· = some (if s.result.length = g.nodeIds.length then some s.result else none))) hrun fun r hr => by
        rw [hr, Option.map_some]

/-! ## The three searches agree -/

/-- `topological_sort` gives an order exactly when there is no directed cycle, and then every edge leads forward in it;
`has_cycle` is true exactly when it gives none, and then `find_cycles` lists some cycles of the graph. -/
theorem cycles_and_order (g : Graph) (hg : g.Built) :
    ∃ sorted cyclic cycles,
      WithFuel (fun fuel => g.topologicalSort fuel) (· = some sorted) ∧
      WithFuel (fun fuel => g.hasCycle fuel) (· = some cyclic) ∧
      WithFuel (fun fuel => g.findCycles fuel) (· = some cycles) ∧
      (sorted.isSome ↔ ¬ g.Cyclic) ∧
      (∀ order, sorted = some order → order.Perm g.nodeIds ∧
        ∀ e ∈ g.allEdges, order.idxOf e.fromNode < order.idxOf e.toNode) ∧
      (cyclic = true ↔ sorted = none) ∧ (cycles ≠ [] ↔ cyclic = true) ∧ ∀ c ∈ cycles, g.IsCycle c := by
  have h := hg.adjacent
  obtain ⟨sorted, hsorted, horder, hsort⟩ := h.topologicalSort
  obtain ⟨cyclic, hcyclic, hhas⟩ := h.hasCycle
  obtain ⟨cycles, hcycles, hlisted, hfind⟩ := h.findCycles
  refine ⟨sorted, cyclic, cycles, hsort, hhas, hfind, hsorted, horder, ?_, hcycles.trans hcyclic.symm, hlisted⟩
  rw [hcyclic, ← not_iff_not, ← hsorted, Option.isSome_iff_ne_none]

theorem cycles_and_order_pairAndTail :
    ∃ sorted cyclic cycles,
      WithFuel (fun fuel => pairAndTail.topologicalSort fuel) (· = some sorted) ∧
      WithFuel (fun fuel => pairAndTail.hasCycle fuel) (· = some cyclic) ∧
      WithFuel (fun fuel => pairAndTail.findCycles fuel) (· = some cycles) ∧
      (sorted.isSome ↔ ¬ pairAndTail.Cyclic) ∧
      (∀ order, sorted = some order → order.Perm pairAndTail.nodeIds ∧
        ∀ e ∈ pairAndTail.allEdges, order.idxOf e.fromNode < order.idxOf e.toNode) ∧
      (cyclic = true ↔ sorted = none) ∧ (cycles ≠ [] ↔ cyclic = true) ∧ ∀ c ∈ cycles, pairAndTail.IsCycle c :=
  cycles_and_order pairAndTail (built_ofCalls _ (by decide))

end Graph

end Maharit
