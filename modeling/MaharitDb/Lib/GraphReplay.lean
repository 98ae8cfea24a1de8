import MaharitDb.Lib.PropertyGraph

/-!
# Replaying a log over a later state

A property graph is changed by a log of operations.  A copy that holds the state after some of them
is given operations again that are already in that state: the log is replayed from an earlier
position.  Half way, the copy agrees neither with the state the operations were recorded in nor with
the state it started from; but every part of it agrees with one of the two, and this is what `Overlap`
says.  `Overlap.step` carries it over an operation that was recorded in its state, and `Overlap.eq`
says that at the end of the overlap the copy is where the original is.
-/

set_option linter.unusedSectionVars false

namespace PropertyGraph

/-- An operation on a property graph. -/
inductive Op (N E L K V : Type*) where
  | createNode (n : N) (labels : Set L)
  | deleteNode (n : N)
  | createEdge (e : E) (label : L) (src dst : N)
  | deleteEdge (e : E)
  | setNodeProp (n : N) (k : K) (v : Option V)
  | setEdgeProp (e : E) (k : K) (v : Option V)
  | addLabel (n : N) (l : L)
  | removeLabel (n : N) (l : L)

variable {N E L K V : Type*} [DecidableEq N] [DecidableEq E] [DecidableEq K]

open Classical in
/-- The graph after an operation.  An edge is only stored between live nodes. -/
noncomputable def Op.apply (G : PropertyGraph N E L K V) : Op N E L K V → PropertyGraph N E L K V
  | .createNode n labels => G.putNode n ⟨labels, fun _ => none⟩
  | .deleteNode n => G.deleteNode n
  | .createEdge e label src dst =>
      if (G.nodes src).isSome ∧ (G.nodes dst).isSome then
        G.putEdge e ⟨label, src, dst, fun _ => none⟩
      else G
  | .deleteEdge e => G.deleteEdge e
  | .setNodeProp n k v => G.setNodeProp n k v
  | .setEdgeProp e k v => G.setEdgeProp e k v
  | .addLabel n l => G.addLabel n l
  | .removeLabel n l => G.removeLabel n l

/-- What is known of an operation that was recorded in the state `G`: elements are stored under unused
ids, edges between live nodes, and labels are attached to live nodes. -/
def Op.Recorded (G : PropertyGraph N E L K V) : Op N E L K V → Prop
  | .createNode n _ => G.nodes n = none
  | .createEdge e _ src dst => G.edges e = none ∧ (G.nodes src).isSome ∧ (G.nodes dst).isSome
  | .addLabel n _ => (G.nodes n).isSome
  | _ => True

/-- The edges after an operation: the stored one, and the old ones, possibly with a new property. -/
lemma Op.edges_of_apply {G : PropertyGraph N E L K V} {op : Op N E L K V} {e : E}
    {d : EdgeData N L K V} (h : (op.apply G).edges e = some d) :
    (∃ label src dst, op = .createEdge e label src dst ∧ d = ⟨label, src, dst, fun _ => none⟩) ∨
    ∃ d₀, G.edges e = some d₀ ∧ (d = d₀ ∨
      ∃ k v, op = .setEdgeProp e k v ∧ d = { d₀ with props := Function.update d₀.props k v }) := by
  cases op with
  | createEdge e' label src dst =>
    simp only [Op.apply] at h
    split at h
    · by_cases he : e = e'
      · subst he
        refine .inl ⟨label, src, dst, rfl, ?_⟩
        simpa [putEdge, eq_comm] using h
      · exact .inr ⟨d, by simpa [putEdge, he] using h, .inl rfl⟩
    · exact .inr ⟨d, h, .inl rfl⟩
  | deleteNode n =>
    obtain ⟨hd, -⟩ := Option.filter_eq_some_iff.mp h
    exact .inr ⟨d, hd, .inl rfl⟩
  | deleteEdge e' =>
    by_cases he : e = e'
    · simp [Op.apply, PropertyGraph.deleteEdge, he] at h
    · exact .inr ⟨d, by simpa [Op.apply, PropertyGraph.deleteEdge, he] using h, .inl rfl⟩
  | setEdgeProp e' k v =>
    by_cases he : e = e'
    · subst he
      simp only [Op.apply, PropertyGraph.setEdgeProp, modifyEdge, Function.update_self,
        Option.map_eq_some_iff] at h
      obtain ⟨d₀, hd₀, rfl⟩ := h
      exact .inr ⟨d₀, hd₀, .inr ⟨k, v, rfl, rfl⟩⟩
    · exact .inr ⟨d, by simpa [Op.apply, PropertyGraph.setEdgeProp, modifyEdge, he] using h, .inl rfl⟩
  | createNode n labels => exact .inr ⟨d, h, .inl rfl⟩
  | setNodeProp n k v => exact .inr ⟨d, h, .inl rfl⟩
  | addLabel n l => exact .inr ⟨d, h, .inl rfl⟩
  | removeLabel n l => exact .inr ⟨d, h, .inl rfl⟩

/-- The properties of the nodes after an operation. -/
lemma Op.nodes_of_apply {G : PropertyGraph N E L K V} {op : Op N E L K V} {n : N}
    {d : NodeData L K V} (h : (op.apply G).nodes n = some d) :
    (∀ k, d.props k = none) ∨
    ∃ d₀, G.nodes n = some d₀ ∧ (d.props = d₀.props ∨
      ∃ k v, op = .setNodeProp n k v ∧ d.props = Function.update d₀.props k v) := by
  have hkept : ∀ {m : N} {f : NodeData L K V → NodeData L K V}, (∀ d, (f d).props = d.props) →
      (G.modifyNode m f).nodes n = some d → ∃ d₀, G.nodes n = some d₀ ∧ d.props = d₀.props := by
    intro m f hf h
    by_cases hn : n = m
    · subst hn
      simp only [modifyNode, Function.update_self, Option.map_eq_some_iff] at h
      obtain ⟨d₀, hd₀, rfl⟩ := h
      exact ⟨d₀, hd₀, hf d₀⟩
    · exact ⟨d, by simpa [modifyNode, hn] using h, rfl⟩
  cases op with
  | createNode m labels =>
    by_cases hn : n = m
    · subst hn
      simp only [Op.apply, putNode, Function.update_self, Option.some.injEq] at h
      exact .inl fun k => h ▸ rfl
    · exact .inr ⟨d, by simpa [Op.apply, putNode, hn] using h, .inl rfl⟩
  | deleteNode m =>
    by_cases hn : n = m
    · simp [Op.apply, PropertyGraph.deleteNode, hn] at h
    · exact .inr ⟨d, by simpa [Op.apply, PropertyGraph.deleteNode, hn] using h, .inl rfl⟩
  | createEdge e label src dst =>
    simp only [Op.apply] at h
    split at h
    · exact .inr ⟨d, h, .inl rfl⟩
    · exact .inr ⟨d, h, .inl rfl⟩
  | deleteEdge e => exact .inr ⟨d, h, .inl rfl⟩
  | setNodeProp m k v =>
    by_cases hn : n = m
    · subst hn
      simp only [Op.apply, PropertyGraph.setNodeProp, modifyNode, Function.update_self,
        Option.map_eq_some_iff] at h
      obtain ⟨d₀, hd₀, rfl⟩ := h
      exact .inr ⟨d₀, hd₀, .inr ⟨k, v, rfl, rfl⟩⟩
    · exact .inr ⟨d, by simpa [Op.apply, PropertyGraph.setNodeProp, modifyNode, hn] using h, .inl rfl⟩
  | setEdgeProp e k v => exact .inr ⟨d, h, .inl rfl⟩
  | addLabel m l =>
    obtain ⟨d₀, hd₀, hprops⟩ := hkept (m := m) (f := fun d => { d with labels := insert l d.labels })
      (fun _ => rfl) h
    exact .inr ⟨d₀, hd₀, .inl hprops⟩
  | removeLabel m l =>
    obtain ⟨d₀, hd₀, hprops⟩ := hkept (m := m) (f := fun d => { d with labels := d.labels \ {l} })
      (fun _ => rfl) h
    exact .inr ⟨d₀, hd₀, .inl hprops⟩

/-- Every edge has the endpoints that belong to its id. -/
def EdgesJoin (ends : E → N × N) (G : PropertyGraph N E L K V) : Prop :=
  ∀ e d, G.edges e = some d → (d.src, d.dst) = ends e

lemma EdgesJoin.apply {ends : E → N × N} {G : PropertyGraph N E L K V} (hG : EdgesJoin ends G)
    {op : Op N E L K V}
    (hop : ∀ e label src dst, op = .createEdge e label src dst → (src, dst) = ends e) :
    EdgesJoin ends (op.apply G) := by
  intro e d hd
  rcases Op.edges_of_apply hd with ⟨label, src, dst, rfl, rfl⟩ | ⟨d₀, hd₀, rfl | ⟨k, v, -, rfl⟩⟩
  · exact hop e label src dst rfl
  · exact hG e d hd₀
  · exact hG e d₀ hd₀

/-- Every property value of the graph has a property. -/
structure AllValues (Q : V → Prop) (G : PropertyGraph N E L K V) : Prop where
  nodes : ∀ n d k v, G.nodes n = some d → d.props k = some v → Q v
  edges : ∀ e d k v, G.edges e = some d → d.props k = some v → Q v

/-- The value that the operation assigns to a live element has the property. -/
def Op.Assigns (Q : V → Prop) (G : PropertyGraph N E L K V) : Op N E L K V → Prop
  | .setNodeProp n _ (some v) => (G.nodes n).isSome → Q v
  | .setEdgeProp e _ (some v) => (G.edges e).isSome → Q v
  | _ => True

/-- A value under an updated key is the new one or an old one. -/
lemma value_of_update {props : K → Option V} {k k' : K} {v : Option V} {w : V}
    (h : Function.update props k v k' = some w) : v = some w ∨ props k' = some w := by
  by_cases hk : k' = k
  · subst hk
    exact .inl (by simpa using h)
  · exact .inr (by simpa [hk] using h)

lemma AllValues.apply {Q : V → Prop} {G : PropertyGraph N E L K V} (hG : AllValues Q G)
    {op : Op N E L K V} (hop : op.Assigns Q G) : AllValues Q (op.apply G) := by
  refine ⟨fun n d k v hd hv => ?_, fun e d k v hd hv => ?_⟩
  · rcases Op.nodes_of_apply hd with hnone | ⟨d₀, hd₀, hprops | ⟨k', v', rfl, hprops⟩⟩
    · rw [hnone] at hv
      cases hv
    · exact hG.nodes n d₀ k v hd₀ (hprops ▸ hv)
    · rw [hprops] at hv
      rcases value_of_update hv with rfl | hold
      · exact hop (Option.isSome_of_eq_some hd₀)
      · exact hG.nodes n d₀ k v hd₀ hold
  · rcases Op.edges_of_apply hd with ⟨label, src, dst, -, rfl⟩ | ⟨d₀, hd₀, rfl | ⟨k', v', rfl, rfl⟩⟩
    · cases hv
    · exact hG.edges e d k v hd₀ hv
    · rcases value_of_update hv with rfl | hold
      · exact hop (Option.isSome_of_eq_some hd₀)
      · exact hG.edges e d₀ k v hd₀ hold

/-! ## One node -/

/-- The labels of a node that may be missing. -/
def labelsOf (o : Option (NodeData L K V)) : Set L := {l | ∃ d, o = some d ∧ l ∈ d.labels}

/-- The properties of a node that may be missing. -/
def propsOf (o : Option (NodeData L K V)) (k : K) : Option V := o.bind fun d => d.props k

/-- A node `r` of the copy, the node `o` of the state the log has come to, and the node `p` of the
state the copy started from. -/
structure NodeOverlap (o r p : Option (NodeData L K V)) : Prop where
  live : r.isSome = o.isSome ∨ r.isSome = p.isSome
  labels : ∀ l, (l ∈ labelsOf r ↔ l ∈ labelsOf o) ∨ (l ∈ labelsOf r ↔ l ∈ labelsOf p)
  props : o.isSome → r.isSome → ∀ k, propsOf r k = propsOf o k ∨ propsOf r k = propsOf p k

lemma NodeOverlap.now (o p : Option (NodeData L K V)) : NodeOverlap o o p :=
  ⟨.inl rfl, fun _ => .inl Iff.rfl, fun _ _ _ => .inl rfl⟩

lemma NodeOverlap.later (o p : Option (NodeData L K V)) : NodeOverlap o p p :=
  ⟨.inr rfl, fun _ => .inr Iff.rfl, fun _ _ _ => .inr rfl⟩

/-- A node that is dead in the copy and live in the original is dead later. -/
lemma NodeOverlap.dead {o r p : Option (NodeData L K V)} (h : NodeOverlap o r p) (ho : o.isSome)
    (hr : ¬ r.isSome) : p = none := by
  rcases h.live with hlive | hlive
  · exact absurd (hlive ▸ ho) hr
  · rw [Bool.not_eq_true] at hr
    rw [hr] at hlive
    exact Option.isSome_eq_false_iff.mp hlive.symm |> Option.isNone_iff_eq_none.mp

lemma NodeOverlap.eq {r p : Option (NodeData L K V)} (h : NodeOverlap p r p) : r = p := by
  have hlive : r.isSome = p.isSome := h.live.elim id id
  have hlabels : labelsOf r = labelsOf p := by
    ext l
    exact (h.labels l).elim id id
  cases hr : r with
  | none =>
    rw [hr] at hlive
    exact (Option.isNone_iff_eq_none.mp (Option.isSome_eq_false_iff.mp hlive.symm)).symm
  | some d =>
    rw [hr] at hlive hlabels
    obtain ⟨c, hc⟩ := Option.isSome_iff_exists.mp hlive.symm
    have hprops : ∀ k, propsOf r k = propsOf p k := fun k =>
      (h.props (by simp [hc]) (by simp [hr]) k).elim id id
    rw [hc] at hlabels
    refine congrArg some (NodeData.ext ?_ ?_) |>.trans hc.symm
    · ext l
      have hl := Set.ext_iff.mp hlabels l
      simpa [labelsOf] using hl
    · funext k
      have hk := hprops k
      rw [hr, hc] at hk
      exact hk

lemma NodeOverlap.setProp {o r p : Option (NodeData L K V)} (h : NodeOverlap o r p) (k : K)
    (v : Option V) :
    NodeOverlap (o.map fun d => { d with props := Function.update d.props k v })
      (r.map fun d => { d with props := Function.update d.props k v }) p := by
  have hlabels : ∀ x : Option (NodeData L K V),
      labelsOf (x.map fun d => { d with props := Function.update d.props k v }) = labelsOf x := by
    intro x
    cases x <;> simp [labelsOf]
  refine ⟨?_, ?_, ?_⟩
  · simpa using h.live
  · simpa only [hlabels] using h.labels
  · intro ho hr k'
    rw [Option.isSome_map] at ho hr
    obtain ⟨a, rfl⟩ := Option.isSome_iff_exists.mp ho
    obtain ⟨b, rfl⟩ := Option.isSome_iff_exists.mp hr
    by_cases hk : k' = k
    · subst hk
      exact .inl (by simp [propsOf])
    · simpa [propsOf, hk] using h.props ho hr k'

lemma NodeOverlap.addLabel {o r p : Option (NodeData L K V)} (h : NodeOverlap o r p) (ho : o.isSome)
    (l : L) :
    NodeOverlap (o.map fun d => { d with labels := insert l d.labels })
      (r.map fun d => { d with labels := insert l d.labels }) p := by
  have hprops : ∀ x : Option (NodeData L K V),
      propsOf (x.map fun d => { d with labels := insert l d.labels }) = propsOf x := by
    intro x
    cases x <;> rfl
  obtain ⟨a, rfl⟩ := Option.isSome_iff_exists.mp ho
  refine ⟨by simpa using h.live, fun l' => ?_, ?_⟩
  · cases r with
    | none =>
      -- dead in the copy although live: also dead later
      have hp := h.dead ho (by simp)
      exact .inr (by simp [labelsOf, hp])
    | some b =>
      by_cases hl : l' = l
      · subst hl
        exact .inl (by simp [labelsOf])
      · simpa [labelsOf, hl] using h.labels l'
  · simpa only [hprops, Option.isSome_map] using h.props

lemma NodeOverlap.removeLabel {o r p : Option (NodeData L K V)} (h : NodeOverlap o r p) (l : L) :
    NodeOverlap (o.map fun d => { d with labels := d.labels \ {l} })
      (r.map fun d => { d with labels := d.labels \ {l} }) p := by
  have hprops : ∀ x : Option (NodeData L K V),
      propsOf (x.map fun d => { d with labels := d.labels \ {l} }) = propsOf x := by
    intro x
    cases x <;> rfl
  have hlabels : ∀ x : Option (NodeData L K V),
      labelsOf (x.map fun d => { d with labels := d.labels \ {l} }) = labelsOf x \ {l} := by
    intro x
    ext l'
    cases x <;> simp [labelsOf]
  refine ⟨by simpa using h.live, fun l' => ?_, ?_⟩
  · rw [hlabels, hlabels]
    by_cases hl : l' = l
    · exact .inl (by simp [hl])
    · simpa [hl] using h.labels l'
  · simpa only [hprops, Option.isSome_map] using h.props

/-! ## One edge -/

/-- The label and the endpoints of an edge that may be missing. -/
def shapeOf (o : Option (EdgeData N L K V)) : Option (L × N × N) :=
  o.map fun d => (d.label, d.src, d.dst)

/-- The properties of an edge that may be missing. -/
def edgePropsOf (o : Option (EdgeData N L K V)) (k : K) : Option V := o.bind fun d => d.props k

/-- An edge of the copy, the original and the later state.  The copy may lack an edge that the two
others have, if it is not the same edge: then it is still to be stored again. -/
structure EdgeOverlap (o r p : Option (EdgeData N L K V)) : Prop where
  shape : shapeOf r = none ∨ shapeOf r = shapeOf o ∨ shapeOf r = shapeOf p
  lost : shapeOf r = none → shapeOf o = none ∨ shapeOf o ≠ shapeOf p
  props : r.isSome → shapeOf r = shapeOf o →
    ∀ k, edgePropsOf r k = edgePropsOf o k ∨ edgePropsOf r k = edgePropsOf p k

lemma shapeOf_eq_none {o : Option (EdgeData N L K V)} : shapeOf o = none ↔ o = none := by
  simp [shapeOf]

lemma EdgeOverlap.now (o p : Option (EdgeData N L K V)) : EdgeOverlap o o p :=
  ⟨.inr (.inl rfl), .inl, fun _ _ _ => .inl rfl⟩

lemma EdgeOverlap.later (o p : Option (EdgeData N L K V)) : EdgeOverlap o p p := by
  refine ⟨.inr (.inr rfl), fun hp => ?_, fun _ _ _ => .inr rfl⟩
  by_cases ho : shapeOf o = none
  · exact .inl ho
  · exact .inr (hp ▸ ho)

lemma EdgeOverlap.eq {r p : Option (EdgeData N L K V)} (h : EdgeOverlap p r p) : r = p := by
  have hshape : shapeOf r = shapeOf p := by
    rcases h.shape with hnone | hsame | hsame
    · rcases h.lost hnone with hp | hne
      · rw [hnone, hp]
      · exact absurd rfl hne
    · exact hsame
    · exact hsame
  cases hr : r with
  | none =>
    rw [hr] at hshape
    exact (shapeOf_eq_none.mp hshape.symm).symm
  | some d =>
    cases hp : p with
    | none =>
      rw [hr, hp] at hshape
      cases hshape
    | some c =>
      have hprops : ∀ k, edgePropsOf r k = edgePropsOf p k := fun k =>
        (h.props (by simp [hr]) hshape k).elim id id
      rw [hr, hp] at hshape
      have hfields : d.label = c.label ∧ d.src = c.src ∧ d.dst = c.dst := by
        simpa [shapeOf] using hshape
      refine congrArg some (EdgeData.ext hfields.1 hfields.2.1 hfields.2.2 ?_)
      funext k
      have hk := hprops k
      rw [hr, hp] at hk
      exact hk

lemma EdgeOverlap.setProp {o r p : Option (EdgeData N L K V)} (h : EdgeOverlap o r p) (k : K)
    (v : Option V) :
    EdgeOverlap (o.map fun d => { d with props := Function.update d.props k v })
      (r.map fun d => { d with props := Function.update d.props k v }) p := by
  have hshape : ∀ x : Option (EdgeData N L K V),
      shapeOf (x.map fun d => { d with props := Function.update d.props k v }) = shapeOf x := by
    intro x
    cases x <;> rfl
  refine ⟨?_, ?_, ?_⟩
  · simpa only [hshape] using h.shape
  · simpa only [hshape] using h.lost
  · intro hr hsame k'
    rw [hshape, hshape] at hsame
    rw [Option.isSome_map] at hr
    obtain ⟨b, rfl⟩ := Option.isSome_iff_exists.mp hr
    cases o with
    | none => cases hsame
    | some a =>
      by_cases hk : k' = k
      · subst hk
        exact .inl (by simp [edgePropsOf])
      · simpa [edgePropsOf, hk] using h.props hr hsame k'

/-- Taking away the edges at a node. -/
lemma EdgeOverlap.filter {o r p : Option (EdgeData N L K V)} (h : EdgeOverlap o r p) (n : N) :
    EdgeOverlap (o.filter fun d => d.src ≠ n ∧ d.dst ≠ n) (r.filter fun d => d.src ≠ n ∧ d.dst ≠ n)
      p := by
  -- whether an edge is taken away depends on its shape alone
  have hsame : ∀ {x y : Option (EdgeData N L K V)}, shapeOf x = shapeOf y →
      (x.filter fun d => d.src ≠ n ∧ d.dst ≠ n) = none →
      (y.filter fun d => d.src ≠ n ∧ d.dst ≠ n) = none := by
    intro x y hxy hx
    cases x with
    | none =>
      rw [shapeOf_eq_none.mp hxy.symm]
      rfl
    | some c =>
      cases y with
      | none => rfl
      | some d =>
        simp only [shapeOf, Option.map_some, Option.some.injEq, Prod.mk.injEq] at hxy
        obtain ⟨-, hsrc, hdst⟩ := hxy
        simpa [Option.filter, hsrc, hdst] using hx
  have hkept : ∀ x : Option (EdgeData N L K V),
      (x.filter fun d => d.src ≠ n ∧ d.dst ≠ n) = none ∨
      (x.filter fun d => d.src ≠ n ∧ d.dst ≠ n) = x := by
    intro x
    cases x with
    | none => exact .inl rfl
    | some d =>
      by_cases hd : d.src ≠ n ∧ d.dst ≠ n
      · exact .inr (by simp [Option.filter, hd])
      · exact .inl (by simp only [Option.filter]; rw [if_neg (by simpa using hd)])
  rcases hkept o with ho | ho
  · rw [ho]
    rcases hkept r with hr | hr
    · rw [hr]
      exact .now none p
    · refine ⟨?_, fun _ => .inl rfl, fun hlive hshape => ?_⟩
      · rw [hr]
        rcases h.shape with hnone | heq | heq
        · exact .inl hnone
        · have hgone := hsame heq.symm ho
          rw [hr] at hgone
          rw [hgone]
          exact .inl rfl
        · exact .inr (.inr heq)
      · have hgone := shapeOf_eq_none.mp hshape
        rw [hgone] at hlive
        cases hlive
  · rw [ho]
    rcases hkept r with hr | hr
    · rw [hr]
      refine ⟨.inl rfl, fun _ => ?_, fun hlive => by cases hlive⟩
      by_cases hnone : shapeOf o = none
      · exact .inl hnone
      · refine .inr fun hop => hnone ?_
        -- the edge of the copy was taken away, so it is that of neither of the others
        rcases h.shape with hrnone | heq | heq
        · rcases h.lost hrnone with h' | h'
          · exact h'
          · exact absurd hop h'
        · have hgone := hsame heq hr
          rw [ho] at hgone
          exact shapeOf_eq_none.mpr hgone
        · have hgone := hsame (heq.trans hop.symm) hr
          rw [ho] at hgone
          exact shapeOf_eq_none.mpr hgone
    · rw [hr]
      exact h

/-! ## Graphs -/

/-- Every node and every edge of the copy `R` overlaps. -/
structure Overlap (O R P : PropertyGraph N E L K V) : Prop where
  nodes : ∀ n, NodeOverlap (O.nodes n) (R.nodes n) (P.nodes n)
  edges : ∀ e, EdgeOverlap (O.edges e) (R.edges e) (P.edges e)

/-- A copy of the later state. -/
theorem Overlap.later (O P : PropertyGraph N E L K V) : Overlap O P P :=
  ⟨fun _ => .later _ _, fun _ => .later _ _⟩

/-- A copy of the state itself. -/
theorem Overlap.now (O P : PropertyGraph N E L K V) : Overlap O O P :=
  ⟨fun _ => .now _ _, fun _ => .now _ _⟩

/-- When the log has come to the later state, the copy is there too. -/
theorem Overlap.eq {R P : PropertyGraph N E L K V} (h : Overlap P R P) : R = P :=
  PropertyGraph.ext (funext fun n => (h.nodes n).eq) (funext fun e => (h.edges e).eq)

section Step

variable {O R P : PropertyGraph N E L K V}

lemma Overlap.modifyNode (h : Overlap O R P) (n : N) (f : NodeData L K V → NodeData L K V)
    (hf : NodeOverlap ((O.nodes n).map f) ((R.nodes n).map f) (P.nodes n)) :
    Overlap (O.modifyNode n f) (R.modifyNode n f) P := by
  refine ⟨fun m => ?_, h.edges⟩
  by_cases hm : m = n
  · subst hm
    simpa [PropertyGraph.modifyNode] using hf
  · simpa [PropertyGraph.modifyNode, hm] using h.nodes m

lemma Overlap.modifyEdge (h : Overlap O R P) (e : E) (f : EdgeData N L K V → EdgeData N L K V)
    (hf : EdgeOverlap ((O.edges e).map f) ((R.edges e).map f) (P.edges e)) :
    Overlap (O.modifyEdge e f) (R.modifyEdge e f) P := by
  refine ⟨h.nodes, fun e' => ?_⟩
  by_cases he : e' = e
  · subst he
    simpa [PropertyGraph.modifyEdge] using hf
  · simpa [PropertyGraph.modifyEdge, he] using h.edges e'

lemma Overlap.putNode (h : Overlap O R P) (n : N) (d : NodeData L K V) :
    Overlap (O.putNode n d) (R.putNode n d) P := by
  refine ⟨fun m => ?_, h.edges⟩
  by_cases hm : m = n
  · subst hm
    simpa [PropertyGraph.putNode] using NodeOverlap.now (some d) (P.nodes m)
  · simpa [PropertyGraph.putNode, hm] using h.nodes m

lemma Overlap.deleteNode (h : Overlap O R P) (n : N) : Overlap (O.deleteNode n) (R.deleteNode n) P := by
  refine ⟨fun m => ?_, fun e => (h.edges e).filter n⟩
  by_cases hm : m = n
  · subst hm
    simpa [PropertyGraph.deleteNode] using NodeOverlap.now none (P.nodes m)
  · simpa [PropertyGraph.deleteNode, hm] using h.nodes m

lemma Overlap.deleteEdge (h : Overlap O R P) (e : E) : Overlap (O.deleteEdge e) (R.deleteEdge e) P := by
  refine ⟨h.nodes, fun e' => ?_⟩
  by_cases he : e' = e
  · subst he
    simpa [PropertyGraph.deleteEdge] using EdgeOverlap.now none (P.edges e')
  · simpa [PropertyGraph.deleteEdge, he] using h.edges e'

/-- An edge stored in the original and, when its endpoints are live there too, in the copy. -/
lemma Overlap.putEdge (h : Overlap O R P) (hP : P.Closed) {e : E} (he : O.edges e = none)
    {d : EdgeData N L K V} (hsrc : (O.nodes d.src).isSome) (hdst : (O.nodes d.dst).isSome) :
    ((R.nodes d.src).isSome ∧ (R.nodes d.dst).isSome → Overlap (O.putEdge e d) (R.putEdge e d) P) ∧
    (¬ ((R.nodes d.src).isSome ∧ (R.nodes d.dst).isSome) → Overlap (O.putEdge e d) R P) := by
  constructor
  · intro hends
    refine ⟨h.nodes, fun e' => ?_⟩
    by_cases hee : e' = e
    · subst hee
      simpa [PropertyGraph.putEdge] using EdgeOverlap.now (some d) (P.edges e')
    · simpa [PropertyGraph.putEdge, hee] using h.edges e'
  · intro hends
    refine ⟨h.nodes, fun e' => ?_⟩
    by_cases hee : e' = e
    · subst hee
      -- the later state has no such edge: one of its endpoints is dead there
      have hP' : shapeOf (some d) ≠ shapeOf (P.edges e') := by
        intro hshape
        cases hp : P.edges e' with
        | none =>
          rw [hp] at hshape
          cases hshape
        | some c =>
          rw [hp] at hshape
          obtain ⟨hcsrc, hcdst⟩ := hP e' c hp
          have hfields : d.label = c.label ∧ d.src = c.src ∧ d.dst = c.dst := by
            simpa [shapeOf] using hshape
          rw [← hfields.2.1] at hcsrc
          rw [← hfields.2.2] at hcdst
          refine hends ⟨?_, ?_⟩
          · by_contra hdead
            rw [(h.nodes d.src).dead hsrc hdead] at hcsrc
            cases hcsrc
          · by_contra hdead
            rw [(h.nodes d.dst).dead hdst hdead] at hcdst
            cases hcdst
      have hold := h.edges e'
      rw [he] at hold
      have hO : (O.putEdge e' d).edges e' = some d := by simp [PropertyGraph.putEdge]
      rw [hO]
      refine ⟨?_, fun _ => .inr hP', fun hlive hsame => ?_⟩
      · rcases hold.shape with hnone | hnone | hlater
        · exact .inl hnone
        · exact .inl hnone
        · exact .inr (.inr hlater)
      · rcases hold.shape with hnone | hnone | hlater
        · rw [shapeOf_eq_none.mp hnone] at hlive
          cases hlive
        · rw [shapeOf_eq_none.mp hnone] at hlive
          cases hlive
        · exact absurd (hsame.symm.trans hlater) hP'
    · simpa [PropertyGraph.putEdge, hee] using h.edges e'

/-- One operation, recorded in its state. -/
theorem Overlap.step (h : Overlap O R P) (hP : P.Closed) {op : Op N E L K V} (hop : op.Recorded O) :
    Overlap (op.apply O) (op.apply R) P := by
  cases op with
  | createNode n labels => exact h.putNode n _
  | deleteNode n => exact h.deleteNode n
  | createEdge e label src dst =>
    obtain ⟨he, hsrc, hdst⟩ := hop
    obtain ⟨hstored, hrefused⟩ := h.putEdge hP he (d := ⟨label, src, dst, fun _ => none⟩) hsrc hdst
    simp only [Op.apply, if_pos (And.intro hsrc hdst)]
    split
    · next hends => exact hstored hends
    · next hends => exact hrefused hends
  | deleteEdge e => exact h.deleteEdge e
  | setNodeProp n k v => exact h.modifyNode n _ ((h.nodes n).setProp k v)
  | setEdgeProp e k v => exact h.modifyEdge e _ ((h.edges e).setProp k v)
  | addLabel n l => exact h.modifyNode n _ ((h.nodes n).addLabel hop l)
  | removeLabel n l => exact h.modifyNode n _ ((h.nodes n).removeLabel l)

end Step

end PropertyGraph
