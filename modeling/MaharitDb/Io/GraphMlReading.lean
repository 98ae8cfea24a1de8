import MaharitDb.Io.GraphMl

/-!
# Reading an exported GraphML document

The events of a document are read again with white space between the tags, and each text in pieces.  The importer goes
through them tag by tag and data by data.
-/

namespace Maharit

namespace Io

open TrimmedText

variable (xml : QuickXml)

/-! ## What `quick_xml` keeps -/

/-- An event whose text stands between tags. -/
def XmlEvent.IsTag : XmlEvent → Prop
  | .start _ _ | .empty _ _ | .endTag _ | .other => True
  | _ => False

/-- The text that an event adds to the data. -/
inductive Piece : XmlEvent → String → Prop where
  | text (s : String) : Piece (.text s) s
  | cData (s : String) : Piece (.cData s) s
  | generalRef {r s : String} (h : xml.resolve r = .ok s) : Piece (.generalRef r) s

/-- The events that are read from a document of the written events: tags stay as they are, white space is put in front of
a tag unless it follows a text, and a text comes in pieces. -/
inductive Rereads : Bool → List XmlEvent → List XmlEvent → Prop where
  | nil (afterText : Bool) : Rereads afterText [] []
  | tag {afterText : Bool} {e : XmlEvent} (he : e.IsTag) {written read : List XmlEvent} (h : Rereads false written read) :
      Rereads afterText (e :: written) (e :: read)
  | indent {e : XmlEvent} (he : e.IsTag) {blank : String}
      (hblank : ∀ c ∈ blank.toList, TrimmedText.isWhitespace c = true)
      {written read : List XmlEvent} (h : Rereads false written read) :
      Rereads false (e :: written) (.text blank :: e :: read)
  | text {afterText : Bool} {s : String} {pieces : List XmlEvent} {texts : List String}
      (hpieces : pieces.Forall₂ (Piece xml) texts) (hs : String.join texts = s) {written read : List XmlEvent}
      (h : Rereads true written read) : Rereads afterText (.text s :: written) (pieces ++ read)

/-! ## Tags and data -/

/-- A tag that does not open data, or data with its text. -/
inductive Block where
  | tag (e : XmlEvent)
  | data (key value : String)

namespace Block

def events : Block → List XmlEvent
  | .tag e => [e]
  | .data key value => GraphMl.writeData key value

/-- The tag opens no data. -/
def Plain : Block → Prop
  | .tag (.start name _) => name ≠ "data"
  | .tag (.empty _ _) | .tag (.endTag _) | .tag .other => True
  | .tag _ => False
  | .data _ _ => True

/-- What the importer does with a block. -/
def run (state : Graph × ImportState) : Block → Graph × ImportState
  | .tag (.start name attributes) => (state.1, state.2.start name attributes)
  | .tag (.empty name attributes) => (state.2.start name attributes).finish state.1 name
  | .tag (.endTag name) => state.2.finish state.1 name
  | .tag _ => state
  | .data key value => (state.1, { state.2 with dataKey := some key, dataText := value }.finishData)

end Block

section Import

variable {xml}

/-- Pieces of a text are put together. -/
lemma foldlM_pieces {pieces : List XmlEvent} {texts : List String} (h : pieces.Forall₂ (Piece xml) texts) {g : Graph}
    {s : ImportState} (hkey : s.dataKey.isSome) : pieces.foldlM (importEvent xml) (g, s) =
      .ok (g, { s with dataText := s.dataText ++ String.join texts }) := by
  induction h generalizing s with
  | nil =>
    rw [String.join_nil, String.append_empty]
    rfl
  | @cons e text pieces texts hpiece _ ih =>
    have hstep : importEvent xml (g, s) e = .ok (g, { s with dataText := s.dataText ++ text }) := by
      rcases hpiece with _ | _ | hresolve
      · rw [importEvent, ImportState.pushText, if_pos hkey]
      · rw [importEvent, ImportState.pushText, if_pos hkey]
      · simp only [importEvent, hresolve, bind, Except.bind, pure, Except.pure, ImportState.pushText, if_pos hkey]
    have hrest := ih (s := { s with dataText := s.dataText ++ text }) hkey
    rw [List.foldlM_cons, hstep]
    simp only [bind, Except.bind, hrest, String.join_cons, String.append_assoc]

/-- White space between the tags is dropped. -/
lemma importEvent_blank {state : Graph × ImportState} (hkey : state.2.dataKey = none) (blank : String) :
    importEvent xml state (.text blank) = .ok state := by
  rw [importEvent, ImportState.pushText, hkey]
  rfl

lemma importEvent_tag {e : XmlEvent} (he : (Block.tag e).Plain) (state : Graph × ImportState) :
    importEvent xml state e = .ok ((Block.tag e).run state) := by
  rcases e with _ | _ | _ | _ | _ | _ | _
  · rfl
  · rfl
  · rfl
  · exact he.elim
  · exact he.elim
  · exact he.elim
  · rfl

lemma dataKey_finishData (s : ImportState) : s.finishData.dataKey = none := by
  unfold ImportState.finishData
  split
  · assumption
  · dsimp only
    split
    · rfl
    · split
      · rfl
      · rfl

lemma dataKey_finish {s : ImportState} (hkey : s.dataKey = none) (g : Graph) (name : String) :
    (s.finish g name).2.dataKey = none := by
  unfold ImportState.finish
  split
  · exact dataKey_finishData s
  · unfold ImportState.endNode
    split
    · exact hkey
    · exact hkey
  · unfold ImportState.endEdge
    split
    · exact hkey
    · dsimp only
      split
      · split
        · exact hkey
        · exact hkey
      · exact hkey
  · exact hkey

lemma dataKey_start {s : ImportState} (hkey : s.dataKey = none) {name : String} (hname : name ≠ "data")
    (attributes : XmlAttributes) : (s.start name attributes).dataKey = none := by
  unfold ImportState.start
  split
  · split
    · exact hkey
    · exact hkey
  · exact hkey
  · exact hkey
  · exact absurd rfl hname
  · exact hkey

/-- No data is open between the blocks. -/
lemma dataKey_run {b : Block} (hplain : b.Plain) {state : Graph × ImportState} (hkey : state.2.dataKey = none) :
    (b.run state).2.dataKey = none := by
  rcases b with e | ⟨key, value⟩
  · rcases e with ⟨name, attributes⟩ | ⟨name, attributes⟩ | name | _ | _ | _ | _
    · exact dataKey_start hkey hplain attributes
    · rw [Block.run]
      by_cases hname : name = "data"
      · rw [hname]
        exact dataKey_finishData _
      · exact dataKey_finish (dataKey_start hkey hname attributes) state.1 name
    · exact dataKey_finish hkey state.1 name
    · exact hkey
    · exact hkey
    · exact hkey
    · exact hkey
  · exact dataKey_finishData _

/-- The importer goes through the blocks of a document that was read again. -/
theorem foldlM_reread {blocks : List Block} (hplain : ∀ b ∈ blocks, b.Plain) {afterText : Bool}
    {read : List XmlEvent} (h : Rereads xml afterText (blocks.flatMap Block.events) read) {state : Graph × ImportState}
    (hkey : state.2.dataKey = none) : read.foldlM (importEvent xml) state = .ok (blocks.foldl Block.run state) := by
  induction blocks generalizing afterText read state with
  | nil =>
    rw [List.flatMap_nil] at h
    cases h
    rfl
  | cons b blocks ih =>
    rw [List.forall_mem_cons] at hplain
    have hkey' := dataKey_run hplain.1 hkey
    rw [List.flatMap_cons] at h
    rcases b with e | ⟨key, value⟩
    · have hstep : importEvent xml state e = .ok ((Block.tag e).run state) := importEvent_tag hplain.1 state
      rcases h with _ | ⟨-, h⟩ | ⟨-, hblank, h⟩ | ⟨hpieces, hs, h⟩
      · rw [List.foldlM_cons, hstep]
        exact ih hplain.2 h hkey'
      · rw [List.foldlM_cons, importEvent_blank hkey]
        simp only [bind, Except.bind]
        rw [List.foldlM_cons, hstep]
        exact ih hplain.2 h hkey'
      · exact hplain.1.elim
    · -- the pieces of the text stand between the two tags
      have hopen : ∀ {after : Bool} {read : List XmlEvent},
          Rereads xml after (.text value :: .endTag "data" :: blocks.flatMap Block.events) read →
          read.foldlM (importEvent xml) (state.1, { state.2 with dataKey := some key, dataText := "" }) =
            .ok ((Block.data key value :: blocks).foldl Block.run state) := by
        intro after read h
        rcases h with _ | ⟨he, -⟩ | ⟨he, -, -⟩ | @⟨_, _, pieces, texts, hpieces, hs, _, read, h⟩
        · exact he.elim
        · exact he.elim
        · rcases h with _ | ⟨-, h⟩
          rw [List.foldlM_append, foldlM_pieces hpieces rfl, String.empty_append, hs]
          simp only [bind, Except.bind]
          rw [List.foldlM_cons]
          exact ih hplain.2 h hkey'
      rcases h with _ | ⟨-, h⟩ | ⟨-, hblank, h⟩
      · rw [List.foldlM_cons]
        exact hopen h
      · rw [List.foldlM_cons, importEvent_blank hkey]
        simp only [bind, Except.bind]
        rw [List.foldlM_cons]
        exact hopen h

end Import

/-! ## The blocks of a document -/

namespace GraphMl

variable (txt : FloatText)

/-- The data of the properties of an element. -/
def propertyBlocks (mark : String) (properties : Properties) : List Block :=
  properties.entries.map fun p => .data (mark ++ p.1) (propertyToString txt p.2)

def nodeBlocks (n : Node) : List Block :=
  .tag (.start "node" [("id", idText n.id)]) :: .data "label" (Backup.joinLabels n.labels) ::
    (propertyBlocks txt "n_" n.properties ++ [.tag (.endTag "node")])

def edgeBlocks (e : Edge × ℕ) : List Block :=
  .tag (.start "edge" [("id", "e" ++ toString e.2), ("source", idText e.1.fromNode), ("target", idText e.1.toNode)]) ::
    .data "labelE" e.1.label :: (propertyBlocks txt "e_" e.1.properties ++ [.tag (.endTag "edge")])

/-- The definitions of the keys. -/
def keyBlocks (nodeKeys edgeKeys : KeyList) : List Block :=
  [.tag (writeKey "label" "label" "node" "string"), .tag (writeKey "labelE" "label" "edge" "string")] ++
    nodeKeys.map (fun k => .tag (writeKey ("n_" ++ k.1) k.1 "node" k.2)) ++
    edgeKeys.map (fun k => .tag (writeKey ("e_" ++ k.1) k.1 "edge" k.2))

/-- The tags around the definitions. -/
def openBlocks : List Block := [.tag .other, .tag (.start "graphml" [("xmlns", "http://graphml.graphdrawing.org/xmlns"),
  ("xmlns:xsi", "http://www.w3.org/2001/XMLSchema-instance"),
  ("xsi:schemaLocation", "http://graphml.graphdrawing.org/xmlns " ++
    "http://graphml.graphdrawing.org/xmlns/1.0/graphml.xsd")])]

def graphBlocks : List Block := [.tag (.start "graph" [("id", "G"), ("edgedefault", "directed")])]

def closeBlocks : List Block := [.tag (.endTag "graph"), .tag (.endTag "graphml")]

/-- The blocks of an exported document. -/
def exportBlocks (nodeKeys edgeKeys : KeyList) (g : Graph) : List Block :=
  openBlocks ++ keyBlocks nodeKeys edgeKeys ++ graphBlocks ++ (g.nodes.filterMap id).flatMap (nodeBlocks txt) ++
    (g.edges.filterMap id).zipIdx.flatMap (edgeBlocks txt) ++ closeBlocks

lemma events_propertyBlocks (mark : String) (properties : Properties) :
    (propertyBlocks txt mark properties).flatMap Block.events = writeProperties txt mark properties := by
  rw [propertyBlocks, List.flatMap_map]
  rfl

lemma events_nodeBlocks (n : Node) : (nodeBlocks txt n).flatMap Block.events = writeNode txt n := by
  rw [nodeBlocks, List.flatMap_cons, List.flatMap_cons, List.flatMap_append, events_propertyBlocks]
  simp [Block.events, writeNode]

lemma events_edgeBlocks (e : Edge × ℕ) : (edgeBlocks txt e).flatMap Block.events = writeEdge txt e.2 e.1 := by
  rw [edgeBlocks, List.flatMap_cons, List.flatMap_cons, List.flatMap_append, events_propertyBlocks]
  simp [Block.events, writeEdge]

lemma events_tags {α : Type} (f : α → XmlEvent) (l : List α) :
    (l.map fun a => Block.tag (f a)).flatMap Block.events = l.map f := by
  rw [List.flatMap_map]
  exact List.map_eq_flatMap.symm

lemma events_exportBlocks (nodeKeys edgeKeys : KeyList) (g : Graph) :
    (exportBlocks txt nodeKeys edgeKeys g).flatMap Block.events = exportEvents txt nodeKeys edgeKeys g := by
  have hnodes : (g.nodes.filterMap id).flatMap (fun n => (nodeBlocks txt n).flatMap Block.events) =
      (g.nodes.filterMap id).flatMap (writeNode txt) := List.flatMap_congr fun n _ => events_nodeBlocks txt n
  have hedges : (g.edges.filterMap id).zipIdx.flatMap (fun e => (edgeBlocks txt e).flatMap Block.events) =
      (g.edges.filterMap id).zipIdx.flatMap (fun e => writeEdge txt e.2 e.1) :=
    List.flatMap_congr fun e _ => events_edgeBlocks txt e
  rw [exportBlocks, keyBlocks]
  simp only [List.flatMap_append, List.flatMap_assoc, hnodes, hedges, events_tags]
  rfl

lemma plain_exportBlocks (nodeKeys edgeKeys : KeyList) (g : Graph) :
    ∀ b ∈ exportBlocks txt nodeKeys edgeKeys g, b.Plain := by
  have hproperties : ∀ mark properties, ∀ b ∈ propertyBlocks txt mark properties, b.Plain := by
    intro mark properties b hb
    obtain ⟨p, -, rfl⟩ := List.mem_map.mp hb
    trivial
  have hnode : ∀ n, ∀ b ∈ nodeBlocks txt n, b.Plain := by
    intro n
    simp only [nodeBlocks, List.forall_mem_cons, List.forall_mem_append]
    refine ⟨by simp [Block.Plain], trivial, hproperties _ _, trivial, by simp⟩
  have hedge : ∀ e, ∀ b ∈ edgeBlocks txt e, b.Plain := by
    intro e
    simp only [edgeBlocks, List.forall_mem_cons, List.forall_mem_append]
    refine ⟨by simp [Block.Plain], trivial, hproperties _ _, trivial, by simp⟩
  simp only [exportBlocks, openBlocks, keyBlocks, graphBlocks, closeBlocks, List.forall_mem_append,
    List.forall_mem_cons, List.forall_mem_map, List.forall_mem_flatMap]
  refine ⟨⟨⟨⟨⟨⟨trivial, by simp [Block.Plain], by simp⟩, ⟨⟨trivial, trivial, by simp⟩, fun _ _ => trivial⟩,
    fun _ _ => trivial⟩, by simp [Block.Plain], by simp⟩, fun n _ => hnode n⟩, fun e _ => hedge e⟩, trivial, trivial,
    by simp⟩

end GraphMl

end Io

end Maharit
