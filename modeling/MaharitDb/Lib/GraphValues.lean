import MaharitDb.Lib.GraphReplay

/-!
# Graphs whose values are recoded

A copy of a property graph that stores every value in another form, `f v` for `v`: it has the same nodes,
edges and labels.  An operation on the graph and the operation with the recoded value on the copy keep the
copy what it is.
-/

set_option linter.unusedSectionVars false

namespace PropertyGraph

variable {N E L K V W : Type*} [DecidableEq N] [DecidableEq E] [DecidableEq K]

/-- The graph with every value recoded. -/
def mapValues (f : V → W) (G : PropertyGraph N E L K V) : PropertyGraph N E L K W where
  nodes n := (G.nodes n).map fun d => ⟨d.labels, fun k => (d.props k).map f⟩
  edges e := (G.edges e).map fun d => ⟨d.label, d.src, d.dst, fun k => (d.props k).map f⟩

variable {f : V → W} {G : PropertyGraph N E L K V}

@[simp] lemma mapValues_nodes_isSome (n : N) : ((G.mapValues f).nodes n).isSome = (G.nodes n).isSome := by
  simp [mapValues]

@[simp] lemma mapValues_edges_isSome (e : E) : ((G.mapValues f).edges e).isSome = (G.edges e).isSome := by
  simp [mapValues]

lemma AllValues.mono {Q Q' : V → Prop} (h : AllValues Q G) (himp : ∀ v, Q v → Q' v) : AllValues Q' G where
  nodes n d k v hn hv := himp v (h.nodes n d k v hn hv)
  edges e d k v he hv := himp v (h.edges e d k v he hv)

/-- A recoding that leaves the values of the graph leaves the graph. -/
theorem mapValues_eq_self {f : V → V} (h : AllValues (fun v => f v = v) G) : G.mapValues f = G := by
  ext1
  · funext n
    rcases hn : G.nodes n with _ | d
    · simp [mapValues, hn]
    · have hprops : (fun k => (d.props k).map f) = d.props := by
        funext k
        rcases hk : d.props k with _ | v
        · rfl
        · exact congrArg some (h.nodes n d k v hn hk)
      simp [mapValues, hn, hprops]
  · funext e
    rcases he : G.edges e with _ | d
    · simp [mapValues, he]
    · have hprops : (fun k => (d.props k).map f) = d.props := by
        funext k
        rcases hk : d.props k with _ | v
        · rfl
        · exact congrArg some (h.edges e d k v he hk)
      simp [mapValues, he, hprops]

lemma mapValues_putNode (n : N) (labels : Set L) :
    (G.putNode n ⟨labels, fun _ => none⟩).mapValues f = (G.mapValues f).putNode n ⟨labels, fun _ => none⟩ := by
  ext1
  · funext m
    by_cases hm : m = n
    · subst hm
      simp [mapValues, putNode]
    · simp [mapValues, putNode, hm]
  · rfl

lemma mapValues_putEdge (e : E) (label : L) (src dst : N) :
    (G.putEdge e ⟨label, src, dst, fun _ => none⟩).mapValues f =
      (G.mapValues f).putEdge e ⟨label, src, dst, fun _ => none⟩ := by
  ext1
  · rfl
  · funext a
    by_cases ha : a = e
    · subst ha
      simp [mapValues, putEdge]
    · simp [mapValues, putEdge, ha]

lemma mapValues_deleteNode (n : N) : (G.deleteNode n).mapValues f = (G.mapValues f).deleteNode n := by
  ext1
  · funext m
    by_cases hm : m = n
    · subst hm
      simp [mapValues, deleteNode]
    · simp [mapValues, deleteNode, hm]
  · funext e
    rcases he : G.edges e with _ | d
    · simp [mapValues, deleteNode, he]
    · by_cases hends : d.src ≠ n ∧ d.dst ≠ n
      · simp [mapValues, deleteNode, he, Option.filter, hends]
      · simp [mapValues, deleteNode, he, Option.filter, hends]

lemma mapValues_deleteEdge (e : E) : (G.deleteEdge e).mapValues f = (G.mapValues f).deleteEdge e := by
  ext1
  · rfl
  · funext a
    by_cases ha : a = e
    · subst ha
      simp [mapValues, deleteEdge]
    · simp [mapValues, deleteEdge, ha]

/-- A change of a node that recodes along. -/
lemma mapValues_modifyNode (n : N) {g : NodeData L K V → NodeData L K V} {g' : NodeData L K W → NodeData L K W}
    (h : ∀ d : NodeData L K V, (⟨(g d).labels, fun k => ((g d).props k).map f⟩ : NodeData L K W) =
      g' ⟨d.labels, fun k => (d.props k).map f⟩) :
    (G.modifyNode n g).mapValues f = (G.mapValues f).modifyNode n g' := by
  ext1
  · funext m
    by_cases hm : m = n
    · subst hm
      rcases hd : G.nodes m with _ | d
      · simp [mapValues, modifyNode, hd]
      · simp [mapValues, modifyNode, hd, ← h d]
    · simp [mapValues, modifyNode, hm]
  · rfl

/-- A change of an edge that recodes along. -/
lemma mapValues_modifyEdge (e : E) {g : EdgeData N L K V → EdgeData N L K V}
    {g' : EdgeData N L K W → EdgeData N L K W}
    (h : ∀ d : EdgeData N L K V, (⟨(g d).label, (g d).src, (g d).dst, fun k => ((g d).props k).map f⟩ :
      EdgeData N L K W) = g' ⟨d.label, d.src, d.dst, fun k => (d.props k).map f⟩) :
    (G.modifyEdge e g).mapValues f = (G.mapValues f).modifyEdge e g' := by
  ext1
  · rfl
  · funext a
    by_cases ha : a = e
    · subst ha
      rcases hd : G.edges a with _ | d
      · simp [mapValues, modifyEdge, hd]
      · simp [mapValues, modifyEdge, hd, ← h d]
    · simp [mapValues, modifyEdge, ha]

lemma update_map (props : K → Option V) (k : K) (v : Option V) :
    (fun k' => (Function.update props k v k').map f) =
      Function.update (fun k' => (props k').map f) k (v.map f) := by
  funext k'
  by_cases hk : k' = k
  · subst hk
    simp
  · simp [hk]

/-- The operation with its value recoded. -/
def Op.mapValues (f : V → W) : Op N E L K V → Op N E L K W
  | .createNode n labels => .createNode n labels
  | .deleteNode n => .deleteNode n
  | .createEdge e label src dst => .createEdge e label src dst
  | .deleteEdge e => .deleteEdge e
  | .setNodeProp n k v => .setNodeProp n k (v.map f)
  | .setEdgeProp e k v => .setEdgeProp e k (v.map f)
  | .addLabel n l => .addLabel n l
  | .removeLabel n l => .removeLabel n l

/-- Recoding commutes with every operation. -/
theorem mapValues_apply (op : Op N E L K V) : (op.apply G).mapValues f = (op.mapValues f).apply (G.mapValues f) := by
  rcases op with ⟨n, labels⟩ | n | ⟨e, label, src, dst⟩ | e | ⟨n, k, v⟩ | ⟨e, k, v⟩ | ⟨n, l⟩ | ⟨n, l⟩
  · exact mapValues_putNode n labels
  · exact mapValues_deleteNode n
  · simp only [Op.apply, Op.mapValues, mapValues_nodes_isSome]
    split
    · exact mapValues_putEdge e label src dst
    · rfl
  · exact mapValues_deleteEdge e
  · exact mapValues_modifyNode n fun d => by rw [update_map]
  · exact mapValues_modifyEdge e fun d => by rw [update_map]
  · exact mapValues_modifyNode n fun d => rfl
  · exact mapValues_modifyNode n fun d => rfl

/-- Recoding commutes with a sequence of operations. -/
theorem mapValues_foldl (ops : List (Op N E L K V)) (G : PropertyGraph N E L K V) :
    (ops.foldl (fun G op => op.apply G) G).mapValues f =
      (ops.map (Op.mapValues f)).foldl (fun G op => op.apply G) (G.mapValues f) := by
  induction ops generalizing G with
  | nil => rfl
  | cons op ops ih => rw [List.foldl_cons, ih, mapValues_apply, List.map_cons, List.foldl_cons]

end PropertyGraph
