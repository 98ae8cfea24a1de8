import MaharitDb.Query.StatementSteps
import MaharitDb.Server.Rollback

/-!
# What statements do to the graph

Whatever a statement does, and wherever it fails, it changes the graph through the writing operations of
the backend only, and through none of those that restore an element under its former id.  So what is
known of sequences of calls holds of statements: the recorder that the server runs a statement on has the
log entries and the undo records of these calls.
-/

namespace Maharit

open Stateful UndoLog

/-- A label that the update adds or removes is not empty.  The lexer yields no empty name. -/
def Update.NamesLabel : Update → Prop
  | .set (.addLabel _ label) => label ≠ ""
  | .remove (.label _ label) => label ≠ ""
  | _ => True

/-- The statement adds and removes no empty label. -/
def Statement.NamesLabels (s : Statement) : Prop := ∀ u ∈ s.updates, u.NamesLabel

section Writes

variable {σ : Type} [GraphBackend σ] {x x' : Executor σ}

/-- The graph was changed by calls that a transaction makes. -/
def Writes (x x' : Executor σ) : Prop :=
  ∃ calls, x'.graph = WriteCall.run x.graph calls ∧ ∀ c ∈ calls, c.Transactional

lemma Writes.of_graph (h : x'.graph = x.graph) : Writes x x' := ⟨[], h, by simp⟩

lemma Writes.call {c : WriteCall} (hc : c.Transactional) (h : x'.graph = c.apply x.graph) : Writes x x' :=
  ⟨[c], h, by simpa using hc⟩

lemma Writes.trans {x'' : Executor σ} (h : Writes x x') (h' : Writes x' x'') : Writes x x'' := by
  obtain ⟨calls, hrun, hcalls⟩ := h
  obtain ⟨calls', hrun', hcalls'⟩ := h'
  refine ⟨calls ++ calls', ?_, ?_⟩
  · rw [hrun', hrun, WriteCall.run_append]
  · intro c hc
    exact (List.mem_append.mp hc).elim (hcalls c) (hcalls' c)

instance : Std.Refl (Writes (σ := σ)) := ⟨fun _ => .of_graph rfl⟩

instance : IsTrans (Executor σ) Writes := ⟨fun _ _ _ => Writes.trans⟩

/-- A modification that keeps the graph. -/
lemma within_modify {f : Executor σ → Executor σ} (h : ∀ x, (f x).graph = x.graph) :
    Within Writes (Stateful.modify f : Exec σ Unit) := fun x => .of_graph (h x)

/-- A writing call of the graph. -/
lemma within_onGraph {α : Type} {c : WriteCall} (hc : c.Transactional) {f : σ → σ × α}
    (hf : ∀ g, (f g).1 = c.apply g) : Within Writes (Exec.onGraph f) :=
  fun x => .call hc (hf x.graph)

lemma reindexNodeProperty_graph (id : NodeId) (property : String) (old new : Option PropertyValue)
    (x : Executor σ) : (reindexNodeProperty id property old new x).graph = x.graph := by
  unfold reindexNodeProperty
  split
  · rfl
  · split <;> rfl

lemma within_createNode (A : TextAnalysis) (M : Semantics σ) (p : NodePattern Expression) (b : Bindings) :
    Within Writes (createNode A M p b) := by
  refine (within_evaluateProperties M p.properties b).bind fun properties => ?_
  refine Within.bind (m := Exec.validate _) (Within.read _) fun _ => ?_
  refine (within_onGraph (c := .createNodeWithLabels p.labels) ⟨trivial, fun h => h⟩ fun _ => rfl).bind fun id => ?_
  refine (Within.forM (fun e => ?_) properties).bind fun _ => ?_
  · exact fun x => .call (c := .setNodeProperty id e.1 e.2) ⟨trivial, fun h => h⟩ rfl
  · exact Within.bind (m := indexNewNode A id _ properties) (within_modify fun _ => rfl) fun _ => Within.pure _

lemma within_assignNodeProperty (id : NodeId) (property : String × PropertyValue) :
    Within Writes (assignNodeProperty id property : Exec σ Unit) := by
  intro x
  refine .call (c := .setNodeProperty id property.1 property.2) ⟨trivial, fun h => h⟩ ?_
  exact reindexNodeProperty_graph ..

lemma within_assignEdgeProperty (id : EdgeId) (property : String × PropertyValue) :
    Within Writes (assignEdgeProperty id property : Exec σ Unit) :=
  fun _ => .call (c := .setEdgeProperty id property.1 property.2) ⟨trivial, fun h => h⟩ rfl

lemma within_createHopEdge (M : Semantics σ) (p : EdgePattern Expression) (prev next : NodeId)
    (b : Bindings) : Within Writes (createHopEdge M p prev next b) := by
  unfold createHopEdge
  rcases p.direction with _ | _ | _
  all_goals
    refine Within.bind (m := Exec.validate _) (Within.read _) fun _ => ?_
    refine (within_onGraph (c := .createEdge _ _ _) ⟨trivial, fun h => h⟩ fun _ => rfl).bind fun _ => ?_
    refine (Within.read _).bind fun id => (within_evaluateProperties M p.properties b).bind fun properties => ?_
    exact (Within.forM (within_assignEdgeProperty id) properties).bind fun _ => Within.pure _

lemma within_applySetItem (M : Semantics σ) (b : Bindings) (item : SetItem)
    (hitem : (Update.set item).NamesLabel) : Within Writes (applySetItem M b item) := by
  rcases item with ⟨name, property, e⟩ | ⟨name, properties⟩ | ⟨name, label⟩
  · refine (within_boundTo b name).bind fun bound => (Within.read _).bind fun value => ?_
    rcases bound with id | id | _ | _
    · exact Within.bind (Within.read _) fun _ => within_assignNodeProperty id _
    · exact within_assignEdgeProperty id _
    all_goals exact Within.fail _
  · refine (within_boundTo b name).bind fun bound => (within_evaluateProperties M properties b).bind fun values => ?_
    rcases bound with id | id | _ | _
    · exact (Within.forM (fun _ => Within.read _) values).bind fun _ =>
        Within.forM (within_assignNodeProperty id) values
    · exact Within.forM (within_assignEdgeProperty id) values
    all_goals exact Within.fail _
  · refine (within_boundTo b name).bind fun bound => ?_
    rcases bound with id | id | _ | _
    · exact fun x => .call (c := .addNodeLabel id label) ⟨hitem, fun h => h⟩ rfl
    all_goals exact Within.fail _

lemma within_applyRemoveItem (b : Bindings) (item : RemoveItem) (hitem : (Update.remove item).NamesLabel) :
    Within Writes (applyRemoveItem b item : Exec σ Unit) := by
  rcases item with ⟨name, property⟩ | ⟨name, label⟩
  · refine (within_boundTo b name).bind fun bound => ?_
    rcases bound with id | id | _ | _
    · refine Within.bind (m := Exec.validate _) (Within.read _) fun _ => ?_
      refine (within_onGraph (c := .removeNodeProperty id property) ⟨trivial, fun h => h⟩
        fun _ => rfl).bind fun removed => ?_
      rcases removed with _ | old
      · exact Within.pure ()
      · exact within_modify (reindexNodeProperty_graph id property (some old) none)
    · exact (within_onGraph (c := .removeEdgeProperty id property) ⟨trivial, fun h => h⟩
        fun _ => rfl).bind fun _ => Within.pure ()
    all_goals exact Within.fail _
  · simp only [applyRemoveItem]
    split
    · next id _ => exact fun x => .call (c := .removeNodeLabel id label) ⟨hitem, fun h => h⟩ rfl
    · exact Within.fail _

lemma within_deleteNodeOf (detach : Bool) (id : NodeId) : Within Writes (deleteNodeOf detach id : Exec σ Bool) := by
  intro x
  unfold deleteNodeOf
  split
  · exact .of_graph rfl
  · exact .call (c := .deleteNode id) ⟨trivial, fun h => h⟩ rfl

/-- The steps of a statement write through calls of the graph. -/
lemma stepRules_writes (A : TextAnalysis) (M : Semantics σ) : StepRules A M Writes Update.NamesLabel where
  hints _ _ := .of_graph rfl
  fulltext _ _ := .of_graph rfl
  createNode := within_createNode A M
  createHopEdge := within_createHopEdge M
  applySetItem := within_applySetItem M
  applyRemoveItem := within_applyRemoveItem
  deleteEdge id := within_onGraph (c := .deleteEdge id) ⟨trivial, fun h => h⟩ fun _ => rfl
  deleteNodeOf := within_deleteNodeOf
  deleteIndexedNode := within_deleteIndexedNode within_deleteNodeOf fun _ _ => .of_graph rfl
  createIndex _ _ _ := .of_graph rfl
  dropIndex _ _ _ := .of_graph rfl
  createConstraint cc _ x := by
    unfold executeCreateConstraint
    split <;> exact .of_graph rfl
  dropConstraint name x := by
    unfold executeDropConstraint
    split <;> exact .of_graph rfl

/-- A statement writes through calls that a transaction makes, whether it fails or not. -/
theorem execute_writes (A : TextAnalysis) (M : Semantics σ) (P : Planner) {s : Statement} (hs : s.NamesLabels)
    (x : Executor σ) : Writes x (execute A M P s x).1 :=
  (stepRules_writes A M).execute P s hs x

end Writes

end Maharit
