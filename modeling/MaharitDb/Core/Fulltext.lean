import MaharitDb.Core.FloatOrder
import MaharitDb.Core.GraphBackend

/-!
# Full-text indexes

The full-text indexes on string properties of nodes (`maharit-core/src/fulltext.rs`).  How a text is
cut into tokens, and how the documents that a query finds are scored, is the parameter
`TextAnalysis`; the inverted index and the manager are modelled.
-/

namespace Maharit

/-- The errors of the full-text manager. -/
inductive FulltextError where
  | indexNotFound (name : String)
  | indexAlreadyExists (name : String)
  deriving DecidableEq, Repr

/-- A document: a property of a node. -/
structure DocumentId where
  nodeId : NodeId
  property : String
  deriving DecidableEq, Repr

/-- Where a token stands in a document. -/
structure TokenPosition where
  docId : DocumentId
  positions : List ℕ
  deriving DecidableEq, Repr

/-- The documents of every token, with the lengths that the scores use. -/
structure InvertedIndex where
  index : HashMap String (List TokenPosition)
  docLengths : HashMap DocumentId ℕ
  totalDocs : ℕ
  totalLength : ℕ

namespace InvertedIndex

/-- No documents. -/
def new : InvertedIndex := ⟨∅, ∅, 0, 0⟩

/-- The positions of every token of a document. -/
def tokenPositions (tokens : List String) : HashMap String (List ℕ) :=
  (tokens.zipIdx).foldl (fun m e => HashMap.modifyDefault m e.1 (· ++ [e.2])) ∅

/-- `add_document`, given the tokens of its text.  The entries of tokens that an earlier text of the
document had, and this one has not, stay. -/
def addDocument (ix : InvertedIndex) (doc : DocumentId) (tokens : List String) : InvertedIndex :=
  { index := (tokenPositions tokens).entries.foldl (fun m e =>
      HashMap.modifyDefault m e.1 fun postings =>
        postings.filter (fun p => p.docId ≠ doc) ++ [⟨doc, e.2⟩]) ix.index
    docLengths := ix.docLengths.insert doc tokens.length
    totalDocs := if doc ∈ ix.docLengths then ix.totalDocs else ix.totalDocs + 1
    totalLength := ix.totalLength - (ix.docLengths.lookup doc).getD 0 + tokens.length }

/-- `remove_document`. -/
def removeDocument (ix : InvertedIndex) (doc : DocumentId) : InvertedIndex :=
  let postings := ix.index.entries.map fun e =>
    (⟨e.1, e.2.filter fun p => p.docId ≠ doc⟩ : Sigma fun _ : String => List TokenPosition)
  { index := (postings.filter fun e => !e.2.isEmpty).toAList
    docLengths := ix.docLengths.erase doc
    totalDocs := if doc ∈ ix.docLengths then ix.totalDocs - 1 else ix.totalDocs
    totalLength := ix.totalLength - (ix.docLengths.lookup doc).getD 0 }

end InvertedIndex

/-- A full-text index on properties of the nodes with a label. -/
structure FulltextIndex where
  name : String
  label : String
  properties : List String
  invertedIndex : InvertedIndex

/-- How texts are cut into tokens and how the documents that a query finds are ranked. -/
structure TextAnalysis where
  /-- `Tokenizer::tokenize`. -/
  tokenize : String → List String
  /-- `FulltextIndex::search`: nodes with their scores, best first. -/
  search : FulltextIndex → String → List (NodeId × F64)

/-- The full-text indexes, by name. -/
structure FulltextManager where
  indexes : HashMap String FulltextIndex

namespace FulltextManager

/-- No index. -/
def new : FulltextManager := ⟨∅⟩

def createIndex (m : FulltextManager) (name label : String) (properties : List String) :
    Except FulltextError FulltextManager :=
  if name ∈ m.indexes then .error (.indexAlreadyExists name)
  else .ok ⟨m.indexes.insert name ⟨name, label, properties, .new⟩⟩

def dropIndex (m : FulltextManager) (name : String) : Except FulltextError FulltextManager :=
  if name ∈ m.indexes then .ok ⟨m.indexes.erase name⟩ else .error (.indexNotFound name)

variable (A : TextAnalysis)

/-- Enter the string properties of a node that an index covers. -/
def indexProperties (id : NodeId) (properties : Properties) (ix : FulltextIndex) : FulltextIndex :=
  { ix with
    invertedIndex := ix.properties.foldl (fun inverted property =>
      match properties.lookup property with
      | some (.string text) => inverted.addDocument ⟨id, property⟩ (A.tokenize text)
      | _ => inverted) ix.invertedIndex }

/-- `index_node`: the properties of a node, in all indexes of the label. -/
def indexNode (m : FulltextManager) (id : NodeId) (label : String) (properties : Properties) :
    FulltextManager :=
  let names := (m.indexes.entries.filter fun e => e.2.label == label).map (·.2.name)
  ⟨names.foldl (fun ixs name => HashMap.modify ixs name (indexProperties A id properties)) m.indexes⟩

/-- `remove_node`: the documents of a node, in all indexes. -/
def removeNode (m : FulltextManager) (id : NodeId) : FulltextManager :=
  let remove := fun ix : FulltextIndex => { ix with
    invertedIndex := ix.properties.foldl (fun inverted property =>
      inverted.removeDocument ⟨id, property⟩) ix.invertedIndex }
  ⟨m.indexes.keys.foldl (fun ixs name => HashMap.modify ixs name remove) m.indexes⟩

/-- Search an index by name. -/
def search (m : FulltextManager) (name query : String) : Except FulltextError (List (NodeId × F64)) :=
  match m.indexes.lookup name with
  | some ix => .ok (A.search ix query)
  | none => .error (.indexNotFound name)

end FulltextManager

end Maharit
