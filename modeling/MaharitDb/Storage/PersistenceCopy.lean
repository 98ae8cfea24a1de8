import MaharitDb.Storage.Persistence
import MaharitDb.Storage.SnapshotExact

/-!
# What is loaded from a saved file

A graph into which elements are loaded numbers them one after the other (`Sequential`), so that an
element of a saved graph comes back under its place in the list that was saved.  A `Graph` lists its
elements by ascending ids, and the renumbering keeps their order; a `ConcurrentGraph` lists them as its
maps iterate.
-/

namespace Maharit

open PersistentStorage

/-- The new id of an element: its place among the ids that were saved. -/
def renumber (ids : List UInt64) (id : UInt64) : UInt64 := UInt64.ofNat (ids.idxOf id)

/-- Places number the elements of a list without repetitions. -/
lemma bijOn_renumber {ids : List UInt64} (hnodup : ids.Nodup) (hlen : ids.length < 2 ^ 64)
    {S T : Set UInt64} (hS : ∀ x, x ∈ S ↔ x ∈ ids) (hT : ∀ k, k ∈ T ↔ k.toNat < ids.length) :
    Set.BijOn (renumber ids) S T := by
  have hplace : ∀ x ∈ S, (renumber ids x).toNat = ids.idxOf x := by
    intro x hx
    exact Backup.toNat_ofNat64 ((List.idxOf_lt_length_of_mem ((hS x).mp hx)).trans hlen)
  refine ⟨fun x hx => ?_, fun x hx y hy hxy => ?_, fun k hk => ?_⟩
  · rw [hT, hplace x hx]
    exact List.idxOf_lt_length_of_mem ((hS x).mp hx)
  · have hnat := congrArg UInt64.toNat hxy
    rw [hplace x hx, hplace y hy] at hnat
    exact List.idxOf_inj ((hS x).mp hx) |>.mp hnat
  · have hlt := (hT k).mp hk
    refine ⟨ids[k.toNat], (hS _).mpr (List.getElem_mem hlt), ?_⟩
    rw [renumber, hnodup.idxOf_getElem, UInt64.ofNat_toNat]

/-- Places in an ascending list keep the order. -/
lemma renumber_lt {ids : List UInt64} (hsorted : ids.Pairwise (· < ·)) (hlen : ids.length < 2 ^ 64)
    {a b : UInt64} (ha : a ∈ ids) (hb : b ∈ ids) (hab : a < b) : renumber ids a < renumber ids b := by
  have hi := List.idxOf_lt_length_of_mem ha
  have hj := List.idxOf_lt_length_of_mem hb
  rw [UInt64.lt_iff_toNat_lt, renumber, renumber, Backup.toNat_ofNat64 (hi.trans hlen),
    Backup.toNat_ofNat64 (hj.trans hlen)]
  by_contra hge
  rcases (not_lt.mp hge).lt_or_eq with hlt | heq
  · have hba := List.pairwise_iff_getElem.mp hsorted _ _ hj hi hlt
    rw [List.getElem_idxOf hj, List.getElem_idxOf hi] at hba
    exact UInt64.lt_asymm hab hba
  · have hsame : b = a := (List.idxOf_inj hb).mp heq
    exact UInt64.ne_of_lt hab hsame.symm

namespace LoadTarget

variable {G : Type}

/-- `ν` and `ε` carry the live nodes and edges of `g` to those of `g'`, with all their data. -/
structure Copies (t : LoadTarget G) (g g' : G) (ν : NodeId → NodeId) (ε : EdgeId → EdgeId) : Prop where
  nodes : Set.BijOn ν {n | (t.getNode g n).isSome} {n | (t.getNode g' n).isSome}
  edges : Set.BijOn ε {e | (t.getEdge g e).isSome} {e | (t.getEdge g' e).isSome}
  node : ∀ n a, t.getNode g n = some a → ∃ b, t.getNode g' (ν n) = some b ∧ a.SameData b
  edge : ∀ e a, t.getEdge g e = some a → ∃ b, t.getEdge g' (ε e) = some b ∧ a.SameData b ∧
    b.fromNode = ν a.fromNode ∧ b.toNode = ν a.toNode

/-- The lists have the elements of the graph, each once, and every edge has live endpoints. -/
structure Lists (t : LoadTarget G) (g : G) (ns : List Node) (es : List Edge) : Prop where
  node_id : ∀ id n, t.getNode g id = some n → n.id = id
  edge_id : ∀ id e, t.getEdge g id = some e → e.id = id
  mem_nodes : ∀ n, n ∈ ns ↔ t.getNode g n.id = some n
  mem_edges : ∀ e, e ∈ es ↔ t.getEdge g e.id = some e
  nodup_nodes : (ns.map Node.id).Nodup
  nodup_edges : (es.map Edge.id).Nodup
  endpoints : ∀ id e, t.getEdge g id = some e →
    (t.getNode g e.fromNode).isSome ∧ (t.getNode g e.toNode).isSome

/-- A graph into which `n` nodes and `e` edges were loaded gives the next ones the ids `n` and `e`, as
long as its vectors can be allocated. -/
structure Sequential (t : LoadTarget G) (Holds : G → ℕ → ℕ → Prop) : Prop where
  new : Holds t.new 0 0
  node_lt : ∀ {g n e}, Holds g n e → ∀ m, (t.getNode g m).isSome → m.toNat < n
  edge_lt : ∀ {g n e}, Holds g n e → ∀ i, (t.getEdge g i).isSome → i.toNat < e
  createNode : ∀ {g n e}, Holds g n e → n < Graph.vecLimit → ∀ labels,
    (t.createNodeWithLabels g labels).2 = UInt64.ofNat n ∧
    Holds (t.createNodeWithLabels g labels).1 (n + 1) e ∧
    ∀ m, t.getNode (t.createNodeWithLabels g labels).1 m =
      if m = UInt64.ofNat n then some ⟨UInt64.ofNat n, labels, ∅⟩ else t.getNode g m
  setNodeProperty : ∀ {g n e}, Holds g n e → ∀ id key value,
    Holds (t.setNodeProperty g id key value) n e ∧
    ∀ m, t.getNode (t.setNodeProperty g id key value) m =
      if m = id then (t.getNode g m).map (·.setProperty key value) else t.getNode g m
  createEdge : ∀ {g n e}, Holds g n e → e < Graph.vecLimit → ∀ fromNode toNode label,
    (t.getNode g fromNode).isSome → (t.getNode g toNode).isSome →
    (t.createEdge g fromNode toNode label).2 = .ok (UInt64.ofNat e) ∧
    Holds (t.createEdge g fromNode toNode label).1 n (e + 1) ∧
    (∀ m, t.getNode (t.createEdge g fromNode toNode label).1 m = t.getNode g m) ∧
    ∀ i, t.getEdge (t.createEdge g fromNode toNode label).1 i =
      if i = UInt64.ofNat e then some ⟨UInt64.ofNat e, label, fromNode, toNode, ∅⟩ else t.getEdge g i
  setEdgeProperty : ∀ {g n e}, Holds g n e → ∀ id key value,
    Holds (t.setEdgeProperty g id key value) n e ∧
    (∀ m, t.getNode (t.setEdgeProperty g id key value) m = t.getNode g m) ∧
    ∀ i, t.getEdge (t.setEdgeProperty g id key value) i =
      if i = id then (t.getEdge g i).map (·.setProperty key value) else t.getEdge g i

/-! ## Assigning properties -/

lemma Sequential.assignNode {t : LoadTarget G} {Holds : G → ℕ → ℕ → Prop} (ht : t.Sequential Holds)
    {n e : ℕ} (id : NodeId) (entries : List (Sigma fun _ : String => PropertyValue)) {g : G}
    (h : Holds g n e) :
    Holds (entries.foldl (fun g p => t.setNodeProperty g id p.1 p.2) g) n e ∧
    ∀ m, t.getNode (entries.foldl (fun g p => t.setNodeProperty g id p.1 p.2) g) m =
      if m = id then (t.getNode g m).map (Node.assign entries) else t.getNode g m := by
  induction entries generalizing g with
  | nil =>
    refine ⟨h, fun m => ?_⟩
    have hsame : Option.map (Node.assign []) = fun o => o := by
      funext o
      cases o <;> rfl
    rw [List.foldl_nil, hsame, ite_self]
  | cons p entries ih =>
    obtain ⟨hset, hget⟩ := ht.setNodeProperty h id p.1 p.2
    obtain ⟨hrest, hgetRest⟩ := ih hset
    refine ⟨hrest, fun m => ?_⟩
    rw [List.foldl_cons, hgetRest, hget]
    by_cases hm : m = id
    · simp only [if_pos hm, Option.map_map]
      rfl
    · simp only [if_neg hm]

lemma Sequential.assignEdge {t : LoadTarget G} {Holds : G → ℕ → ℕ → Prop} (ht : t.Sequential Holds)
    {n e : ℕ} (id : EdgeId) (entries : List (Sigma fun _ : String => PropertyValue)) {g : G}
    (h : Holds g n e) :
    Holds (entries.foldl (fun g p => t.setEdgeProperty g id p.1 p.2) g) n e ∧
    (∀ m, t.getNode (entries.foldl (fun g p => t.setEdgeProperty g id p.1 p.2) g) m = t.getNode g m) ∧
    ∀ i, t.getEdge (entries.foldl (fun g p => t.setEdgeProperty g id p.1 p.2) g) i =
      if i = id then (t.getEdge g i).map (Edge.assign entries) else t.getEdge g i := by
  induction entries generalizing g with
  | nil =>
    refine ⟨h, fun m => rfl, fun i => ?_⟩
    have hsame : Option.map (Edge.assign []) = fun o => o := by
      funext o
      cases o <;> rfl
    rw [List.foldl_nil, hsame, ite_self]
  | cons p entries ih =>
    obtain ⟨hset, hnode, hget⟩ := ht.setEdgeProperty h id p.1 p.2
    obtain ⟨hrest, hnodeRest, hgetRest⟩ := ih hset
    refine ⟨hrest, fun m => (hnodeRest m).trans (hnode m), fun i => ?_⟩
    rw [List.foldl_cons, hgetRest, hget]
    by_cases hi : i = id
    · simp only [if_pos hi, Option.map_map]
      rfl
    · simp only [if_neg hi]

/-! ## The elements of a snapshot -/

/-- The nodes `ns` and the edges `es` of a snapshot have been loaded, with `idMap` from the old to the
new node ids. -/
structure Loaded (t : LoadTarget G) (Holds : G → ℕ → ℕ → Prop) (ns : List SNode) (es : List SEdge)
    (idMap : HashMap NodeId NodeId) (g : G) : Prop where
  holds : Holds g ns.length es.length
  newId : ∀ i n, ns[i]? = some n → idMap.lookup n.id = some (UInt64.ofNat i)
  node : ∀ i n, ns[i]? = some n → ∃ b, t.getNode g (UInt64.ofNat i) = some b ∧ b.labels = n.labels ∧
    ∀ key, b.getProperty key = n.properties.lookup key
  edge : ∀ i e, es[i]? = some e → ∃ c, t.getEdge g (UInt64.ofNat i) = some c ∧ c.label = e.label ∧
    (∀ key, c.getProperty key = e.properties.lookup key) ∧
    idMap.lookup e.fromNode = some c.fromNode ∧ idMap.lookup e.toNode = some c.toNode

section Loading

variable {t : LoadTarget G} {Holds : G → ℕ → ℕ → Prop}

lemma vecLimit_lt {k : ℕ} (h : k < Graph.vecLimit) : k < 2 ^ 64 := by
  unfold Graph.vecLimit at h
  omega

lemma Loaded.pushNode (ht : t.Sequential Holds) {ns : List SNode} {r : G × HashMap NodeId NodeId}
    (h : Loaded t Holds ns [] r.2 r.1) {n : SNode} (hnew : ∀ m ∈ ns, m.id ≠ n.id)
    (hlen : ns.length < Graph.vecLimit) :
    Loaded t Holds (ns ++ [n]) [] (loadNode t r n).2 (loadNode t r n).1 := by
  obtain ⟨hid, hholds, hget⟩ := ht.createNode h.holds hlen n.labels
  obtain ⟨hholds', hget'⟩ := ht.assignNode (UInt64.ofNat ns.length) n.properties.entries hholds
  have hgraph : (loadNode t r n).1 = n.properties.entries.foldl
      (fun g p => t.setNodeProperty g (UInt64.ofNat ns.length) p.1 p.2)
      (t.createNodeWithLabels r.1 n.labels).1 := by
    rw [← hid]
    rfl
  have hmap : (loadNode t r n).2 = r.2.insert n.id (UInt64.ofNat ns.length) := by
    rw [← hid]
    rfl
  rw [hgraph, hmap]
  refine ⟨?_, ?_, ?_, by simp⟩
  · rw [List.length_append]
    exact hholds'
  · intro i m hm
    rw [HashMap.lookup_insert_ite]
    rcases Backup.getElem?_push hm with ⟨-, hm⟩ | ⟨rfl, rfl⟩
    · rw [if_neg (hnew m (List.mem_of_getElem? hm))]
      exact h.newId i m hm
    · rw [if_pos rfl]
  · intro i m hm
    have hnode := hget' (UInt64.ofNat i)
    rw [hget] at hnode
    rcases Backup.getElem?_push hm with ⟨hi, hm⟩ | ⟨rfl, rfl⟩
    · have hne := Backup.ofNat_ne (vecLimit_lt (hi.trans hlen)) (vecLimit_lt hlen) hi.ne
      rw [if_neg hne, if_neg hne] at hnode
      rw [hnode]
      exact h.node i m hm
    · rw [if_pos rfl, if_pos rfl] at hnode
      exact ⟨_, hnode, rfl, fun key => Backup.lookup_copyProperties m.properties key⟩

lemma Loaded.foldlNodes (ht : t.Sequential Holds) {done ns : List SNode}
    {r : G × HashMap NodeId NodeId} (h : Loaded t Holds done [] r.2 r.1)
    (hnodup : ((done ++ ns).map SNode.id).Nodup) (hlen : (done ++ ns).length ≤ Graph.vecLimit) :
    Loaded t Holds (done ++ ns) [] (ns.foldl (loadNode t) r).2 (ns.foldl (loadNode t) r).1 := by
  induction ns generalizing done r with
  | nil => simpa using h
  | cons n ns ih =>
    have hdone : done.length < Graph.vecLimit := by
      rw [List.length_append, List.length_cons] at hlen
      omega
    have hsplit : done ++ n :: ns = (done ++ [n]) ++ ns := by simp
    rw [hsplit] at hnodup hlen ⊢
    refine ih (h.pushNode ht ?_ hdone) hnodup hlen
    intro m hm heq
    rw [List.map_append, List.map_append, List.append_assoc] at hnodup
    have hdisjoint := (List.nodup_append.mp hnodup).2.2
    exact hdisjoint m.id (List.mem_map_of_mem hm) n.id (by simp) heq

/-- The endpoints of the edge are among the nodes. -/
def Anchored (ns : List SNode) (e : SEdge) : Prop :=
  (∃ n ∈ ns, n.id = e.fromNode) ∧ ∃ n ∈ ns, n.id = e.toNode

/-- A known node is live under its new id. -/
lemma Loaded.known {ns : List SNode} {es : List SEdge} {idMap : HashMap NodeId NodeId} {g : G}
    (h : Loaded t Holds ns es idMap g) {id : NodeId} (hid : ∃ n ∈ ns, n.id = id) :
    ∃ a, idMap.lookup id = some a ∧ (t.getNode g a).isSome := by
  obtain ⟨n, hn, rfl⟩ := hid
  obtain ⟨i, hi⟩ := List.mem_iff_getElem?.mp hn
  obtain ⟨b, hb, -⟩ := h.node i n hi
  exact ⟨_, h.newId i n hi, Option.isSome_of_eq_some hb⟩

lemma Loaded.pushEdge (ht : t.Sequential Holds) {ns : List SNode} {es : List SEdge}
    {idMap : HashMap NodeId NodeId} {g : G} (h : Loaded t Holds ns es idMap g) {e : SEdge}
    (hends : Anchored ns e) (hlen : es.length < Graph.vecLimit) :
    ∃ g', loadEdge t idMap g e = .ok g' ∧ Loaded t Holds ns (es ++ [e]) idMap g' := by
  obtain ⟨a, ha, halive⟩ := h.known hends.1
  obtain ⟨b, hb, hblive⟩ := h.known hends.2
  obtain ⟨hok, hholds, hnode, hget⟩ := ht.createEdge h.holds hlen a b e.label halive hblive
  obtain ⟨hholds', hnode', hget'⟩ := ht.assignEdge (UInt64.ofNat es.length) e.properties.entries hholds
  refine ⟨setEdgeProperties t (t.createEdge g a b e.label).1 (UInt64.ofNat es.length) e.properties,
    ?_, ⟨?_, h.newId, ?_, ?_⟩⟩
  · simp only [loadEdge, ha, hb]
    rcases hcreate : t.createEdge g a b e.label with ⟨g', x | id⟩
    · rw [hcreate] at hok
      cases hok
    · rw [hcreate] at hok
      obtain rfl : id = UInt64.ofNat es.length := Except.ok.inj hok
      rfl
  · rw [List.length_append]
    exact hholds'
  · intro i n hi
    obtain ⟨c, hc, hrest⟩ := h.node i n hi
    exact ⟨c, (hnode' _).trans ((hnode _).trans hc), hrest⟩
  · intro i c hc
    have hedge := hget' (UInt64.ofNat i)
    rw [hget] at hedge
    rcases Backup.getElem?_push hc with ⟨hi, hc⟩ | ⟨rfl, rfl⟩
    · have hne := Backup.ofNat_ne (vecLimit_lt (hi.trans hlen)) (vecLimit_lt hlen) hi.ne
      rw [if_neg hne, if_neg hne] at hedge
      obtain ⟨d, hd, hrest⟩ := h.edge i c hc
      exact ⟨d, hedge.trans hd, hrest⟩
    · rw [if_pos rfl, if_pos rfl] at hedge
      exact ⟨_, hedge, rfl, fun key => Backup.lookup_copyProperties c.properties key, ha, hb⟩

lemma Loaded.foldlMEdges (ht : t.Sequential Holds) {ns : List SNode} {done es : List SEdge}
    {idMap : HashMap NodeId NodeId} {g : G} (h : Loaded t Holds ns done idMap g)
    (hends : ∀ e ∈ es, Anchored ns e) (hlen : (done ++ es).length ≤ Graph.vecLimit) :
    ∃ g', es.foldlM (loadEdge t idMap) g = .ok g' ∧ Loaded t Holds ns (done ++ es) idMap g' := by
  induction es generalizing done g with
  | nil => exact ⟨g, rfl, by simpa using h⟩
  | cons e es ih =>
    rw [List.forall_mem_cons] at hends
    have hdone : done.length < Graph.vecLimit := by
      rw [List.length_append, List.length_cons] at hlen
      omega
    have hsplit : done ++ e :: es = (done ++ [e]) ++ es := by simp
    rw [hsplit] at hlen ⊢
    obtain ⟨g₁, hfirst, hg₁⟩ := h.pushEdge ht hends.1 hdone
    obtain ⟨g', hrest, hg'⟩ := ih hg₁ hends.2 hlen
    refine ⟨g', ?_, hg'⟩
    rw [List.foldlM_cons, hfirst]
    exact hrest

/-- A snapshot without repeated node ids and without dangling edges is loaded. -/
theorem Sequential.loadSnapshot (ht : t.Sequential Holds) {s : SSnapshot}
    (hnodup : (s.nodes.map SNode.id).Nodup) (hends : ∀ e ∈ s.edges, Anchored s.nodes e)
    (hnodes : s.nodes.length ≤ Graph.vecLimit) (hedges : s.edges.length ≤ Graph.vecLimit) :
    ∃ idMap f, PersistentStorage.loadSnapshot t s = .ok f ∧ Loaded t Holds s.nodes s.edges idMap f := by
  have hstart : Loaded t Holds [] [] ∅ t.new := ⟨ht.new, by simp, by simp, by simp⟩
  have hloaded : Loaded t Holds s.nodes [] (s.nodes.foldl (loadNode t) (t.new, ∅)).2
      (s.nodes.foldl (loadNode t) (t.new, ∅)).1 :=
    hstart.foldlNodes (r := (t.new, ∅)) ht hnodup hnodes
  obtain ⟨f, hf, hloaded⟩ := hloaded.foldlMEdges ht hends hedges
  exact ⟨_, f, hf, hloaded⟩

lemma Loaded.isSome_node (ht : t.Sequential Holds) {ns : List SNode} {es : List SEdge}
    {idMap : HashMap NodeId NodeId} {g : G} (h : Loaded t Holds ns es idMap g) (m : NodeId) :
    (t.getNode g m).isSome ↔ m.toNat < ns.length := by
  refine ⟨ht.node_lt h.holds m, fun hm => ?_⟩
  obtain ⟨b, hb, -⟩ := h.node m.toNat _ (List.getElem?_eq_getElem hm)
  rw [UInt64.ofNat_toNat] at hb
  exact Option.isSome_of_eq_some hb

lemma Loaded.isSome_edge (ht : t.Sequential Holds) {ns : List SNode} {es : List SEdge}
    {idMap : HashMap NodeId NodeId} {g : G} (h : Loaded t Holds ns es idMap g) (i : EdgeId) :
    (t.getEdge g i).isSome ↔ i.toNat < es.length := by
  refine ⟨ht.edge_lt h.holds i, fun hi => ?_⟩
  obtain ⟨c, hc, -⟩ := h.edge i.toNat _ (List.getElem?_eq_getElem hi)
  rw [UInt64.ofNat_toNat] at hc
  exact Option.isSome_of_eq_some hc

end Loading

/-! ## The elements of a listing -/

section Listing

variable {t : LoadTarget G} {g : G} {ns : List Node} {es : List Edge}

lemma Lists.isSome_node (hg : t.Lists g ns es) (n : NodeId) :
    (t.getNode g n).isSome ↔ n ∈ ns.map Node.id := by
  rw [List.mem_map]
  constructor
  · intro hn
    obtain ⟨a, ha⟩ := Option.isSome_iff_exists.mp hn
    obtain rfl := hg.node_id n a ha
    exact ⟨a, (hg.mem_nodes a).mpr ha, rfl⟩
  · rintro ⟨a, ha, rfl⟩
    exact Option.isSome_of_eq_some ((hg.mem_nodes a).mp ha)

lemma Lists.isSome_edge (hg : t.Lists g ns es) (e : EdgeId) :
    (t.getEdge g e).isSome ↔ e ∈ es.map Edge.id := by
  rw [List.mem_map]
  constructor
  · intro he
    obtain ⟨a, ha⟩ := Option.isSome_iff_exists.mp he
    obtain rfl := hg.edge_id e a ha
    exact ⟨a, (hg.mem_edges a).mpr ha, rfl⟩
  · rintro ⟨a, ha, rfl⟩
    exact Option.isSome_of_eq_some ((hg.mem_edges a).mp ha)

/-- Related lists have related elements at the same places. -/
lemma exists_getElem?_of_forall₂ {α β : Type} {R : α → β → Prop} {l : List α} {l' : List β}
    (h : List.Forall₂ R l l') {i : ℕ} {a : α} (ha : l[i]? = some a) : ∃ b, l'[i]? = some b ∧ R a b := by
  obtain ⟨hlt, rfl⟩ := List.getElem?_eq_some_iff.mp ha
  have hlt' : i < l'.length := h.length_eq ▸ hlt
  exact ⟨l'[i], List.getElem?_eq_getElem hlt', h.get hlt hlt'⟩

/-- The place of an element is found by its id. -/
lemma getElem?_idxOf {α : Type} {l : List α} {key : α → UInt64} (hnodup : (l.map key).Nodup) {a : α}
    (ha : a ∈ l) : l[(l.map key).idxOf (key a)]? = some a := by
  obtain ⟨i, hi, rfl⟩ := List.getElem_of_mem ha
  have hplace : (l.map key).idxOf (key l[i]) = i := by
    have h := hnodup.idxOf_getElem i (by simpa using hi)
    simpa using h
  rw [hplace, List.getElem?_eq_getElem hi]

/-- The ids of the nodes are saved. -/
lemma map_id_of_same {s : SSnapshot} (hs : (snapshotOf ns es []).Same s) :
    s.nodes.map SNode.id = ns.map Node.id := by
  have hns : List.Forall₂ (fun n m => (sNode n).Same m) ns s.nodes :=
    List.forall₂_map_left_iff.mp hs.nodes
  have h : List.Forall₂ Eq (s.nodes.map SNode.id) (ns.map Node.id) :=
    List.forall₂_map_left_iff.mpr (List.forall₂_map_right_iff.mpr (hns.flip.imp fun _ _ h => h.id.symm))
  rwa [List.forall₂_eq_eq_eq] at h

/-- The endpoints of the edges are saved with the nodes. -/
lemma Lists.anchored (hg : t.Lists g ns es) {s : SSnapshot} (hs : (snapshotOf ns es []).Same s) :
    ∀ c ∈ s.edges, Anchored s.nodes c := by
  have hsaved : ∀ id, (t.getNode g id).isSome → ∃ n ∈ s.nodes, n.id = id := by
    intro id hid
    have hmem := (hg.isSome_node id).mp hid
    rw [← map_id_of_same hs] at hmem
    exact List.mem_map.mp hmem
  have hes : List.Forall₂ (fun e c => (sEdge e).Same c) es s.edges :=
    List.forall₂_map_left_iff.mp hs.edges
  intro c hc
  obtain ⟨i, hi⟩ := List.mem_iff_getElem?.mp hc
  obtain ⟨e, he, hsame⟩ := exists_getElem?_of_forall₂ hes.flip hi
  have hedge := (hg.mem_edges e).mp (List.mem_of_getElem? he)
  obtain ⟨hfrom, hto⟩ := hg.endpoints e.id e hedge
  exact ⟨hsame.fromNode ▸ hsaved _ hfrom, hsame.toNode ▸ hsaved _ hto⟩

/-- A graph whose listing was loaded was copied, each element to its place in the listing. -/
theorem Lists.copies {Holds : G → ℕ → ℕ → Prop} (ht : t.Sequential Holds) (hg : t.Lists g ns es)
    {s : SSnapshot} (hs : (snapshotOf ns es []).Same s) (hnodes : ns.length ≤ Graph.vecLimit)
    (hedges : es.length ≤ Graph.vecLimit) :
    ∃ f, PersistentStorage.loadSnapshot t s = .ok f ∧ Holds f ns.length es.length ∧
      t.Copies g f (renumber (ns.map Node.id)) (renumber (es.map Edge.id)) := by
  have hns : List.Forall₂ (fun n m => (sNode n).Same m) ns s.nodes :=
    List.forall₂_map_left_iff.mp hs.nodes
  have hes : List.Forall₂ (fun e c => (sEdge e).Same c) es s.edges :=
    List.forall₂_map_left_iff.mp hs.edges
  have hnodup : (s.nodes.map SNode.id).Nodup := map_id_of_same hs ▸ hg.nodup_nodes
  obtain ⟨idMap, f, hf, hloaded⟩ := ht.loadSnapshot hnodup (hg.anchored hs)
    (hns.length_eq ▸ hnodes) (hes.length_eq ▸ hedges)
  have hnode : ∀ n a, t.getNode g n = some a →
      idMap.lookup n = some (renumber (ns.map Node.id) n) ∧
      ∃ b, t.getNode f (renumber (ns.map Node.id) n) = some b ∧ a.SameData b := by
    intro n a ha
    obtain rfl := hg.node_id n a ha
    obtain ⟨m, hm, hsame⟩ := exists_getElem?_of_forall₂ hns
      (getElem?_idxOf hg.nodup_nodes ((hg.mem_nodes a).mpr ha))
    obtain ⟨b, hb, hlabels, hprops⟩ := hloaded.node _ m hm
    refine ⟨?_, b, hb, hlabels.trans hsame.labels.symm, fun key => ?_⟩
    · have hmap := hloaded.newId _ m hm
      rwa [← hsame.id] at hmap
    · exact (hprops key).trans (hsame.properties key).symm
  have hknown : ∀ n, (t.getNode g n).isSome → idMap.lookup n = some (renumber (ns.map Node.id) n) := by
    intro n hn
    obtain ⟨a, ha⟩ := Option.isSome_iff_exists.mp hn
    exact (hnode n a ha).1
  have hedge : ∀ e a, t.getEdge g e = some a →
      ∃ b, t.getEdge f (renumber (es.map Edge.id) e) = some b ∧ a.SameData b ∧
        b.fromNode = renumber (ns.map Node.id) a.fromNode ∧
        b.toNode = renumber (ns.map Node.id) a.toNode := by
    intro e a ha
    obtain ⟨hfrom, hto⟩ := hg.endpoints e a ha
    obtain rfl := hg.edge_id e a ha
    obtain ⟨c, hc, hsame⟩ := exists_getElem?_of_forall₂ hes
      (getElem?_idxOf hg.nodup_edges ((hg.mem_edges a).mpr ha))
    obtain ⟨b, hb, hlabel, hprops, hbfrom, hbto⟩ := hloaded.edge _ c hc
    rw [← hsame.fromNode] at hbfrom
    rw [← hsame.toNode] at hbto
    refine ⟨b, hb, ⟨hlabel.trans hsame.label.symm, fun key => ?_⟩, ?_, ?_⟩
    · exact (hprops key).trans (hsame.properties key).symm
    · exact Option.some.inj (hbfrom.symm.trans (hknown _ hfrom))
    · exact Option.some.inj (hbto.symm.trans (hknown _ hto))
  have hlimit : Graph.vecLimit < 2 ^ 64 := by decide
  refine ⟨f, hf, ?_, ⟨bijOn_renumber hg.nodup_nodes ?_ hg.isSome_node ?_,
    bijOn_renumber hg.nodup_edges ?_ hg.isSome_edge ?_, fun n a ha => (hnode n a ha).2, hedge⟩⟩
  · rw [hns.length_eq, hes.length_eq]
    exact hloaded.holds
  · rw [List.length_map]
    exact hnodes.trans_lt hlimit
  · rw [List.length_map, hns.length_eq]
    exact hloaded.isSome_node ht
  · rw [List.length_map]
    exact hedges.trans_lt hlimit
  · rw [List.length_map, hes.length_eq]
    exact hloaded.isSome_edge ht

end Listing

end LoadTarget

/-! ## Reading a saved file -/

namespace PersistentStorage

open Reader SnapshotCodec ByteDecoder WalCodec

lemma reads_readU32 (n : UInt32) : Reads readU32 (u32Bytes n) n := (Backup.reads_readU32 n).mapError _

lemma reads_readU64 (n : UInt64) : Reads readU64 (u64Bytes n) n := (Backup.reads_readU64 n).mapError _

lemma reads_readHeader : Reads readHeader (magic ++ u32Bytes version) version := by
  refine (reads_exact _ (rfl : magic.length = 8)).bind ?_
  rw [if_neg (not_not.mpr rfl)]
  exact reads_readU32 version

lemma reads_takeUpTo {k : ℕ} {bytes : Bytes} (h : bytes.length = k) :
    Reads (takeUpTo k) bytes bytes := by
  intro rest
  subst h
  simp [takeUpTo]

lemma decodePayload_encode {s : SSnapshot} (hlimit : (encode s).length ≤ sliceLimit) :
    decodePayload (encode s).length (encode s) = .ok (toWire s).snapshot := by
  have hdecode : decode (encode s) = .ok (toWire s).snapshot := by
    rw [← bytes_toWire] at hlimit ⊢
    have h := decode_bytes_append (toWire s) (q := []) (by simpa using hlimit)
    rwa [List.append_nil, if_pos rfl] at h
  rw [decodePayload, if_neg (not_not.mpr rfl), hdecode]
  rfl

/-- A payload that fits into a slice is read. -/
lemma readSnapshot_encode {s : SSnapshot} (hlimit : (encode s).length ≤ sliceLimit) :
    readSnapshot (u64Bytes (UInt64.ofNat (encode s).length) ++ encode s) =
      .ok ((toWire s).snapshot, []) := by
  have hlen : (UInt64.ofNat (encode s).length).toNat = (encode s).length := by
    refine Backup.toNat_ofNat64 (hlimit.trans_lt ?_)
    decide
  have hlift : Reads (liftM (decodePayload (encode s).length (encode s)) :
      Reader PersistenceError SSnapshot) [] (toWire s).snapshot := by
    rw [decodePayload_encode hlimit]
    exact fun rest => rfl
  have hread : Reads readSnapshot (u64Bytes (UInt64.ofNat (encode s).length) ++ (encode s ++ []))
      (toWire s).snapshot := by
    refine (reads_readU64 _).bind ((reads_takeUpTo hlen.symm).bind ?_)
    rw [hlen]
    exact hlift
  have h := hread []
  rw [List.append_nil, List.append_nil] at h
  exact h

lemma loadV4_of_readSnapshot {bs rest : Bytes} {s : SSnapshot} (h : readSnapshot bs = .ok (s, rest)) :
    loadV4 bs = (loadSnapshot Graph.target s).map fun g => ((g, s.indexes), rest) := by
  change ((readSnapshot bs).bind fun p => _) = _
  rw [h]
  cases hload : loadSnapshot Graph.target s with
  | error e =>
    simp only [Except.bind, hload]
    rfl
  | ok g =>
    simp only [Except.bind, hload]
    rfl

lemma load_of_readHeader {file bs rest : Bytes} {s : SSnapshot} (hheader : readHeader file = .ok (version, bs))
    (hsnapshot : readSnapshot bs = .ok (s, rest)) : load file = loadSnapshot Graph.target s := by
  have hwith : loadWithIndex file = (loadV4 bs).bind fun p => .ok p.1 := by
    change ((readHeader file).bind fun p => _) = _
    rw [hheader]
    rfl
  change (loadWithIndex file).bind (fun p => .ok p.1) = _
  rw [hwith, loadV4_of_readSnapshot hsnapshot]
  cases loadSnapshot Graph.target s with
  | error e => rfl
  | ok g => rfl

lemma loadConcurrent_of_readHeader {file bs rest : Bytes} {s : SSnapshot}
    (hheader : readHeader file = .ok (version, bs)) (hsnapshot : readSnapshot bs = .ok (s, rest)) :
    loadConcurrent file = loadSnapshot ConcurrentGraph.target s := by
  change ((readHeader file).bind fun p => _) = _
  rw [hheader]
  change ((readSnapshot bs).bind fun p => _) = _
  rw [hsnapshot]
  rfl

lemma readHeader_fileOf (s : SSnapshot) : readHeader (fileOf s) =
    .ok (version, u64Bytes (UInt64.ofNat (encode s).length) ++ encode s) := by
  rw [fileOf, ← List.append_assoc]
  exact reads_readHeader _

end PersistentStorage

/-! ## Graphs -/

namespace Graph

/-- A graph with `n` nodes and `e` edges and no free slot. -/
structure Packed (g : Graph) (n e : ℕ) : Prop where
  inv : g.Inv
  nodes_length : g.nodes.length = n
  edges_length : g.edges.length = e
  nodeFreeList : g.nodeFreeList = []
  edgeFreeList : g.edgeFreeList = []

theorem sequential : target.Sequential Packed where
  new := ⟨inv_new, rfl, rfl, rfl, rfl⟩
  node_lt h m hm := h.nodes_length ▸ toNat_lt_of_getNode hm
  edge_lt h i hi := by
    obtain ⟨c, hc⟩ := Option.isSome_iff_exists.mp hi
    exact h.edges_length ▸ toNat_lt_of_getEdge hc
  createNode := by
    intro g n e h hn labels
    have hlt : g.nodes.length < 2 ^ 64 := h.inv.fits.nodes_lt
    obtain ⟨hid, hlength⟩ := nodes_createNodeWithLabels h.nodeFreeList labels
    have hcreate := h.inv.valid.createsNode hlt labels
    rw [h.nodes_length] at hid hlength
    have hfits : (g.createNodeWithLabels labels).1.Fits := by
      refine ⟨hlength.trans_le hn, ?_⟩
      rw [hcreate.edges]
      exact h.inv.fits.2
    refine ⟨hid, ⟨h.inv.createNodeWithLabels labels hfits, hlength, ?_, ?_, ?_⟩, ?_⟩
    · rw [← h.edges_length]
      exact congrArg List.length hcreate.edges
    · exact hcreate.nodeFreeList.trans (by rw [h.nodeFreeList]; rfl)
    · exact hcreate.edgeFreeList.trans h.edgeFreeList
    · intro m
      have hget := hcreate.getNode m
      rwa [hid] at hget
  setNodeProperty := by
    intro g n e h id key value
    refine ⟨⟨h.inv.modifyNode id (fun _ => rfl) fun _ => rfl, ?_, h.edges_length, h.nodeFreeList,
      h.edgeFreeList⟩, getNode_setNodeProperty g id key value⟩
    exact (List.length_modify ..).trans h.nodes_length
  createEdge := by
    intro g n e h he fromNode toNode label hfrom hto
    have hlt : g.edges.length < 2 ^ 64 := h.inv.fits.edges_lt
    have hnext : g.nextEdgeId = UInt64.ofNat e := by
      rw [nextEdgeId, h.edgeFreeList, h.edges_length]
      rfl
    obtain ⟨hok, hcreate⟩ := h.inv.valid.createsEdge hlt hfrom hto label
    rw [hnext] at hok hcreate
    have hlength := hcreate.edges_length
    rw [if_pos h.edgeFreeList, h.edges_length] at hlength
    have hfits : (g.createEdge fromNode toNode label).1.Fits := by
      refine ⟨?_, hlength.trans_le he⟩
      rw [hcreate.nodes]
      exact h.inv.fits.1
    refine ⟨hok, ⟨h.inv.createEdge fromNode toNode label hfits, ?_, hlength, ?_, ?_⟩, ?_, hcreate.getEdge⟩
    · rw [← h.nodes_length]
      exact congrArg List.length hcreate.nodes
    · exact hcreate.nodeFreeList.trans h.nodeFreeList
    · exact hcreate.edgeFreeList.trans (by rw [h.edgeFreeList]; rfl)
    · intro m
      change (g.createEdge fromNode toNode label).1.getNode m = g.getNode m
      rw [getNode, hcreate.nodes, getNode]
  setEdgeProperty := by
    intro g n e h id key value
    refine ⟨⟨h.inv.modifyEdge id fun _ => ⟨rfl, rfl, rfl⟩, h.nodes_length, ?_, h.nodeFreeList,
      h.edgeFreeList⟩, fun _ => rfl, getEdge_modifyEdge g id _⟩
    exact (List.length_modify ..).trans h.edges_length

theorem Inv.lists {g : Graph} (hg : g.Inv) : target.Lists g g.liveNodes g.liveEdges where
  node_id := hg.node_id
  edge_id := hg.valid.edge_id
  mem_nodes := mem_slots hg.fits.nodes_lt hg.node_id
  mem_edges := mem_slots hg.fits.edges_lt hg.valid.edge_id
  nodup_nodes := nodup_slots hg.fits.nodes_lt hg.node_id
  nodup_edges := nodup_slots hg.fits.edges_lt hg.valid.edge_id
  endpoints := hg.valid.endpoints

end Graph

namespace ConcurrentGraph

/-- Every element knows the id it is stored under, and every edge has live endpoints. -/
structure Referential (g : ConcurrentGraph) : Prop where
  node_id : ∀ id n, g.nodes.lookup id = some n → n.id = id
  edge_id : ∀ id e, g.edges.lookup id = some e → e.id = id
  endpoints : ∀ id e, g.edges.lookup id = some e → e.fromNode ∈ g.nodes ∧ e.toNode ∈ g.nodes

lemma Consistent.referential {g : ConcurrentGraph} (hg : g.Consistent) : g.Referential :=
  ⟨hg.node_id, hg.edge_id, hg.endpoints⟩

/-- A consistent graph in which the ids below `n` and `e` have been given away. -/
structure Numbered (g : ConcurrentGraph) (n e : ℕ) : Prop where
  consistent : g.Consistent
  nextNodeId : g.nextNodeId = UInt64.ofNat n
  nextEdgeId : g.nextEdgeId = UInt64.ofNat e
  node_lt : ∀ m ∈ g.nodes, m.toNat < n
  edge_lt : ∀ i ∈ g.edges, i.toNat < e

lemma Numbered.nextNodeId_notMem {g : ConcurrentGraph} {n e : ℕ} (h : g.Numbered n e)
    (hn : n < Graph.vecLimit) : g.nextNodeId ∉ g.nodes := by
  intro hmem
  have hlt := h.node_lt _ hmem
  rw [h.nextNodeId, Backup.toNat_ofNat64 (LoadTarget.vecLimit_lt hn)] at hlt
  exact lt_irrefl n hlt

lemma Numbered.nextEdgeId_notMem {g : ConcurrentGraph} {n e : ℕ} (h : g.Numbered n e)
    (he : e < Graph.vecLimit) : g.nextEdgeId ∉ g.edges := by
  intro hmem
  have hlt := h.edge_lt _ hmem
  rw [h.nextEdgeId, Backup.toNat_ofNat64 (LoadTarget.vecLimit_lt he)] at hlt
  exact lt_irrefl e hlt

/-- The ids in a map with one more, the next one. -/
lemma toNat_lt_insert {V : Type} {m : HashMap UInt64 V} {k : ℕ} (hm : ∀ x ∈ m, x.toNat < k)
    (hk : k < Graph.vecLimit) (v : V) : ∀ x ∈ m.insert (UInt64.ofNat k) v, x.toNat < k + 1 := by
  intro x hx
  rcases (AList.mem_insert _).mp hx with rfl | hx
  · rw [Backup.toNat_ofNat64 (LoadTarget.vecLimit_lt hk)]
    exact Nat.lt_succ_self k
  · exact (hm x hx).trans (Nat.lt_succ_self k)

theorem sequential : target.Sequential Numbered where
  new := ⟨consistent_new, rfl, rfl, by simp [target, new], by simp [target, new]⟩
  node_lt h m hm := h.node_lt m (AList.lookup_isSome.mp hm)
  edge_lt h i hi := h.edge_lt i (AList.lookup_isSome.mp hi)
  createNode := by
    intro g n e h hn labels
    refine ⟨h.nextNodeId, ⟨h.consistent.createNodeWithLabels (h.nextNodeId_notMem hn) labels, ?_,
      h.nextEdgeId, ?_, h.edge_lt⟩, fun m => ?_⟩
    · change g.nextNodeId + 1 = _
      rw [h.nextNodeId, UInt64.ofNat_add]
      rfl
    · change ∀ m ∈ g.nodes.insert g.nextNodeId _, _
      rw [h.nextNodeId]
      exact toNat_lt_insert h.node_lt hn _
    · change (g.nodes.insert g.nextNodeId ⟨g.nextNodeId, labels, ∅⟩).lookup m = _
      rw [h.nextNodeId]
      exact HashMap.lookup_insert_ite ..
  setNodeProperty := by
    intro g n e h id key value
    refine ⟨⟨h.consistent.setNodeProperty id key value, h.nextNodeId, h.nextEdgeId, fun m hm => ?_,
      h.edge_lt⟩, fun m => HashMap.lookup_modify ..⟩
    exact h.node_lt m ((HashMap.mem_modify ..).mp hm)
  createEdge := by
    intro g n e h he fromNode toNode label hfrom hto
    have hcreate : g.createEdge fromNode toNode label =
        (insertEdge { g with nextEdgeId := g.nextEdgeId + 1 } g.nextEdgeId fromNode toNode label,
          .ok g.nextEdgeId) := by
      rw [createEdge, if_neg (not_not.mpr (AList.lookup_isSome.mp hfrom)),
        if_neg (not_not.mpr (AList.lookup_isSome.mp hto))]
    have hconsistent := h.consistent.createEdge fromNode toNode label fun _ _ =>
      h.nextEdgeId_notMem he
    change (g.createEdge fromNode toNode label).2 = _ ∧ Numbered (g.createEdge fromNode toNode label).1 _ _ ∧
      (∀ m, (g.createEdge fromNode toNode label).1.nodes.lookup m = _) ∧
      ∀ i, (g.createEdge fromNode toNode label).1.edges.lookup i = _
    rw [hcreate] at hconsistent ⊢
    refine ⟨congrArg Except.ok h.nextEdgeId, ⟨hconsistent, h.nextNodeId, ?_, h.node_lt, ?_⟩,
      fun m => rfl, fun i => ?_⟩
    · change g.nextEdgeId + 1 = _
      rw [h.nextEdgeId, UInt64.ofNat_add]
      rfl
    · change ∀ i ∈ g.edges.insert g.nextEdgeId _, _
      rw [h.nextEdgeId]
      exact toNat_lt_insert h.edge_lt he _
    · change (g.edges.insert g.nextEdgeId ⟨g.nextEdgeId, label, fromNode, toNode, ∅⟩).lookup i = _
      rw [h.nextEdgeId]
      exact HashMap.lookup_insert_ite ..
  setEdgeProperty := by
    intro g n e h id key value
    refine ⟨⟨h.consistent.setEdgeProperty id key value, h.nextNodeId, h.nextEdgeId, h.node_lt,
      fun i hi => ?_⟩, fun m => rfl, fun i => HashMap.lookup_modify ..⟩
    exact h.edge_lt i ((HashMap.mem_modify ..).mp hi)

/-- The ids of the elements that a map lists are its keys. -/
lemma map_entries_eq_keys {V : Type} {m : HashMap UInt64 V} {key : V → UInt64}
    (hkey : ∀ k v, m.lookup k = some v → key v = k) : (m.entries.map (·.2)).map key = m.keys := by
  rw [List.map_map]
  refine List.map_congr_left fun p hp => ?_
  exact hkey p.1 p.2 (AList.mem_lookup_iff.mpr hp)

theorem Referential.lists {g : ConcurrentGraph} (hg : g.Referential) :
    target.Lists g g.liveNodes g.liveEdges where
  node_id := hg.node_id
  edge_id := hg.edge_id
  mem_nodes := mem_entries_map hg.node_id
  mem_edges := mem_entries_map hg.edge_id
  nodup_nodes := by
    rw [liveNodes, map_entries_eq_keys hg.node_id]
    exact AList.keys_nodup g.nodes
  nodup_edges := by
    rw [liveEdges, map_entries_eq_keys hg.edge_id]
    exact AList.keys_nodup g.edges
  endpoints id e he := by
    obtain ⟨hfrom, hto⟩ := hg.endpoints id e he
    exact ⟨AList.lookup_isSome.mpr hfrom, AList.lookup_isSome.mpr hto⟩

end ConcurrentGraph

/-! ## The round trip -/

namespace PersistentStorage

open SnapshotCodec ByteDecoder

/-- A payload that fits into a slice has no more elements than a vector can hold. -/
lemma length_le_of_encode {ns : List Node} {es : List Edge}
    (hlimit : (encode (snapshotOf ns es [])).length ≤ sliceLimit) :
    ns.length ≤ Graph.vecLimit ∧ es.length ≤ Graph.vecLimit := by
  rw [← bytes_toWire] at hlimit
  set w := toWire (snapshotOf ns es []) with hw
  have hns : w.nodes.length = ns.length := by simp [hw, toWire, snapshotOf]
  have hes : w.edges.length = es.length := by simp [hw, toWire, snapshotOf]
  have hnodes := length_mul_le_flatMap w.nodes fun n _ => length_nodeBytes n
  have hedges := length_mul_le_flatMap w.edges fun e _ => length_edgeBytes e
  simp only [SnapshotWire.bytes, List.length_append] at hlimit
  have hsame : sliceLimit = Graph.vecLimit := rfl
  omega

/-- A saved graph that is loaded comes back with its labels, typed properties, endpoints and edge
labels, every live id replaced by its place among those that were saved.  For a `Graph` this
renumbering keeps the order of the ids; for a `ConcurrentGraph` the places are those in the iteration
order of its maps. -/
theorem load_save_copies :
    (∀ g : Graph, g.Inv → (encode (snapshotOf g.liveNodes g.liveEdges [])).length ≤ sliceLimit →
      ∃ f, load (save g) = .ok f ∧ f.Inv ∧
        Graph.target.Copies g f (renumber (g.liveNodes.map Node.id)) (renumber (g.liveEdges.map Edge.id)) ∧
        (∀ a b, (g.getNode a).isSome → (g.getNode b).isSome → a < b →
          renumber (g.liveNodes.map Node.id) a < renumber (g.liveNodes.map Node.id) b) ∧
        ∀ a b, (g.getEdge a).isSome → (g.getEdge b).isSome → a < b →
          renumber (g.liveEdges.map Edge.id) a < renumber (g.liveEdges.map Edge.id) b) ∧
    ∀ g : ConcurrentGraph, g.Referential →
      (encode (snapshotOf g.liveNodes g.liveEdges [])).length ≤ sliceLimit →
      ∃ f, loadConcurrent (saveConcurrent g) = .ok f ∧ f.Consistent ∧
        ConcurrentGraph.target.Copies g f (renumber (g.liveNodes.map Node.id))
          (renumber (g.liveEdges.map Edge.id)) := by
  have hlimit : Graph.vecLimit < 2 ^ 64 := by decide
  refine ⟨fun g hg hsize => ?_, fun g hg hsize => ?_⟩
  · obtain ⟨hnodes, hedges⟩ := length_le_of_encode hsize
    obtain ⟨f, hf, hpacked, hcopies⟩ := hg.lists.copies Graph.sequential (same_snapshot_toWire _)
      hnodes hedges
    have hload := load_of_readHeader (readHeader_fileOf _) (readSnapshot_encode hsize)
    refine ⟨f, hload.trans hf, hpacked.inv, hcopies, fun a b ha hb hab => ?_, fun a b ha hb hab => ?_⟩
    · refine renumber_lt (Graph.pairwise_slots hg.fits.nodes_lt hg.node_id) ?_
        ((hg.lists.isSome_node a).mp ha) ((hg.lists.isSome_node b).mp hb) hab
      rw [List.length_map]
      exact hnodes.trans_lt hlimit
    · refine renumber_lt (Graph.pairwise_slots hg.fits.edges_lt hg.valid.edge_id) ?_
        ((hg.lists.isSome_edge a).mp ha) ((hg.lists.isSome_edge b).mp hb) hab
      rw [List.length_map]
      exact hedges.trans_lt hlimit
  · obtain ⟨hnodes, hedges⟩ := length_le_of_encode hsize
    obtain ⟨f, hf, hnumbered, hcopies⟩ := hg.lists.copies ConcurrentGraph.sequential
      (same_snapshot_toWire _) hnodes hedges
    have hload := loadConcurrent_of_readHeader (readHeader_fileOf _) (readSnapshot_encode hsize)
    exact ⟨f, hload.trans hf, hnumbered.consistent, hcopies⟩

/-- Two nodes, created one after the other; the map happens to iterate over the later one first. -/
def twoNodes : ConcurrentGraph :=
  ((ConcurrentGraph.new.createNodeWithLabels ["A"]).1.createNodeWithLabels ["B"]).1

lemma consistent_twoNodes : twoNodes.Consistent :=
  (ConcurrentGraph.consistent_new.createNodeWithLabels (by decide) ["A"]).createNodeWithLabels
    (by decide) ["B"]

/-- A node with two labels and a loop, and two nodes of a concurrent graph. -/
theorem load_save_copies_loopGraph :
    (∃ f, load (save (Backup.loopGraph ["City", "Port"])) = .ok f ∧ f.Inv ∧
      Graph.target.Copies (Backup.loopGraph ["City", "Port"]) f
        (renumber ((Backup.loopGraph ["City", "Port"]).liveNodes.map Node.id))
        (renumber ((Backup.loopGraph ["City", "Port"]).liveEdges.map Edge.id))) ∧
    ∃ f, loadConcurrent (saveConcurrent twoNodes) = .ok f ∧ f.Consistent ∧
      ConcurrentGraph.target.Copies twoNodes f (renumber (twoNodes.liveNodes.map Node.id))
        (renumber (twoNodes.liveEdges.map Edge.id)) := by
  refine ⟨?_, load_save_copies.2 twoNodes consistent_twoNodes.referential (by decide +kernel)⟩
  obtain ⟨f, hf, hinv, hcopies, -⟩ := load_save_copies.1 (Backup.loopGraph ["City", "Port"])
    (Backup.inv_loopGraph (by decide +kernel) (by decide +kernel)) (by decide +kernel)
  exact ⟨f, hf, hinv, hcopies⟩

/-- The two nodes come back in the other order: no renumbering that keeps the order of the ids gives
the loaded graph. -/
theorem load_save_twoNodes_not_ordered :
    ¬ ∃ f ν ε, loadConcurrent (saveConcurrent twoNodes) = .ok f ∧
      ConcurrentGraph.target.Copies twoNodes f ν ε ∧
      ∀ a b, a ∈ twoNodes.nodes → b ∈ twoNodes.nodes → a < b → ν a < ν b := by
  rintro ⟨f, ν, ε, hf, hcopies, hordered⟩
  have hlabels : (loadConcurrent (saveConcurrent twoNodes)).map (fun f =>
      (f.nodes.keys, (f.nodes.lookup 0).map Node.labels, (f.nodes.lookup 1).map Node.labels)) =
      .ok ([1, 0], some ["B"], some ["A"]) := by decide +kernel
  rw [hf] at hlabels
  obtain ⟨hkeys, hzero, hone⟩ : f.nodes.keys = [1, 0] ∧ (f.nodes.lookup 0).map Node.labels = some ["B"] ∧
      (f.nodes.lookup 1).map Node.labels = some ["A"] := by
    simpa [Except.map] using hlabels
  obtain ⟨a, ha, hsame⟩ := hcopies.node 0 ⟨0, ["A"], ∅⟩ rfl
  obtain ⟨b, hb, hsame'⟩ := hcopies.node 1 ⟨1, ["B"], ∅⟩ rfl
  have hplace : ∀ {k n}, f.nodes.lookup k = some n → k = 1 ∧ n.labels = ["A"] ∨ k = 0 ∧ n.labels = ["B"] := by
    intro k n hk
    have hmem : k ∈ f.nodes.keys := AList.mem_keys.mpr (AList.lookup_isSome.mp (Option.isSome_of_eq_some hk))
    rw [hkeys] at hmem
    rcases List.mem_pair.mp hmem with rfl | rfl
    · rw [hk] at hone
      exact .inl ⟨rfl, Option.some.inj hone⟩
    · rw [hk] at hzero
      exact .inr ⟨rfl, Option.some.inj hzero⟩
  have hνzero : ν 0 = 1 := by
    rcases hplace ha with ⟨h, -⟩ | ⟨-, h⟩
    · exact h
    · rw [hsame.labels] at h
      exact absurd h (by decide)
  have hνone : ν 1 = 0 := by
    rcases hplace hb with ⟨-, h⟩ | ⟨h, -⟩
    · rw [hsame'.labels] at h
      exact absurd h (by decide)
    · exact h
  have hlt := hordered 0 1 (by decide) (by decide) (by decide)
  rw [hνzero, hνone] at hlt
  exact absurd hlt (by decide)

end PersistentStorage

end Maharit
