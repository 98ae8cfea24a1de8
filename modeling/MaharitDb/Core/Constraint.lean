import MaharitDb.Core.GraphBackend

/-!
# Schema constraints

The constraint manager (`maharit-core/src/constraint.rs`): which constraints are registered, and the
checks made before a node or an edge is created, and before a property is set or removed.
-/

namespace Maharit

/-- The type a property may be required to have. -/
inductive PropertyType where
  | bool
  | int
  | float
  | string
  deriving DecidableEq, Repr

/-- A kind of constraint. -/
inductive ConstraintType where
  | unique
  | notNull
  | typeCheck (type : PropertyType)
  /-- A node with the constrained label also carries this one. -/
  | requiredLabel (label : String)
  /-- The labels of the endpoints of an edge. -/
  | endpointLabel (source target : String)
  deriving DecidableEq, Repr

/-- A schema constraint. -/
structure Constraint where
  name : String
  /-- The constrained label or relationship type. -/
  label : String
  /-- Several for a composite constraint. -/
  properties : List String
  constraintType : ConstraintType
  deriving DecidableEq, Repr

/-- The errors of the constraint manager.  The message of a unique violation shows the value. -/
inductive ConstraintError where
  | alreadyExists (name : String)
  | notFound (name : String)
  | uniqueViolation (name label property : String) (value : PropertyValue)
  | compositeUniqueViolation (name label : String) (properties : List String)
  | notNullViolation (name label property : String)
  | typeViolation (name label property : String) (expected : PropertyType) (actual : PropertyValue)
  | requiredLabelViolation (name label required : String)
  | endpointLabelViolation (name edgeLabel source target : String)
  deriving DecidableEq, Repr

/-- The registered constraints, by name. -/
structure ConstraintManager where
  constraints : HashMap String Constraint
  /-- Off during a bulk load. -/
  enabled : Bool

namespace ConstraintManager

/-- No constraints, checking on. -/
def new : ConstraintManager := ⟨∅, true⟩

/-- The registered constraints, in the order in which the map is iterated. -/
def values (m : ConstraintManager) : List Constraint := m.constraints.entries.map (·.2)

/-- Register a constraint.  The data is not looked at. -/
def createConstraint (m : ConstraintManager) (c : Constraint) :
    Except ConstraintError ConstraintManager :=
  if c.name ∈ m.constraints then .error (.alreadyExists c.name)
  else .ok { m with constraints := m.constraints.insert c.name c }

/-- Drop a constraint. -/
def dropConstraint (m : ConstraintManager) (name : String) :
    Except ConstraintError ConstraintManager :=
  if name ∈ m.constraints then .ok { m with constraints := m.constraints.erase name }
  else .error (.notFound name)

/-! ## The checks of a single constraint -/

variable {σ : Type} [GraphBackend σ]

/-- The other nodes with the constrained label. -/
def others (g : σ) (c : Constraint) (exclude : Option NodeId) : List Node :=
  (GraphBackend.allNodes g).filter fun n => n.hasLabel c.label && exclude != some n.id

/-- `check_unique_single`. -/
def checkUniqueSingle (g : σ) (c : Constraint) (value : PropertyValue) (exclude : Option NodeId) :
    Except ConstraintError Unit :=
  let property := c.properties.headD ""
  if (others g c exclude).any fun n => n.getProperty property == some value then
    .error (.uniqueViolation c.name c.label property value)
  else .ok ()

/-- `check_unique_composite`; it does not apply when one of the properties is missing. -/
def checkUniqueComposite (g : σ) (c : Constraint) (properties : String → Option PropertyValue)
    (exclude : Option NodeId) : Except ConstraintError Unit :=
  if c.properties.any fun p => (properties p).isNone then .ok ()
  else if (others g c exclude).any fun n =>
      c.properties.all fun p => n.getProperty p == properties p then
    .error (.compositeUniqueViolation c.name c.label c.properties)
  else .ok ()

/-- A value of the type. -/
def PropertyType.admits : PropertyType → PropertyValue → Bool
  | .bool, .bool _ | .int, .int _ | .float, .float _ | .string, .string _ => true
  | _, _ => false

/-- `check_type_single`; null is allowed. -/
def checkTypeSingle (c : Constraint) (property : String) (value : PropertyValue)
    (expected : PropertyType) : Except ConstraintError Unit :=
  if value = .null ∨ PropertyType.admits expected value then .ok ()
  else .error (.typeViolation c.name c.label property expected value)

/-- Both parts of a `NOT NULL` check on the properties of a new node. -/
def checkNotNull (c : Constraint) (properties : String → Option PropertyValue)
    (property : String) : Except ConstraintError Unit :=
  if (properties property).isNone || properties property == some .null then
    .error (.notNullViolation c.name c.label property)
  else .ok ()

/-- The check of one constraint before a node is created. -/
def checkNodeCreate (g : σ) (label : String) (properties : String → Option PropertyValue)
    (exclude : Option NodeId) (c : Constraint) : Except ConstraintError Unit :=
  if c.label ≠ label then .ok ()
  else
    match c.constraintType with
    | .unique =>
        if c.properties.length = 1 then
          match properties (c.properties.headD "") with
          | some value => checkUniqueSingle g c value exclude
          | none => .ok ()
        else checkUniqueComposite g c properties exclude
    | .notNull => c.properties.forM (checkNotNull c properties)
    | .typeCheck expected =>
        c.properties.forM fun p =>
          match properties p with
          | some value => checkTypeSingle c p value expected
          | none => .ok ()
    | .requiredLabel required =>
        -- Only the primary label is known here.
        if label ≠ required then .error (.requiredLabelViolation c.name c.label required)
        else .ok ()
    | .endpointLabel _ _ => .ok ()

/-- The check of one constraint before an edge is created. -/
def checkEdgeCreate (g : σ) (edgeLabel : String) (fromId toId : NodeId) (c : Constraint) :
    Except ConstraintError Unit :=
  if c.label ≠ edgeLabel then .ok ()
  else
    match c.constraintType with
    | .endpointLabel source target =>
        let fromHasLabel := ((GraphBackend.getNode g fromId).map (·.hasLabel source)).getD false
        let toHasLabel := ((GraphBackend.getNode g toId).map (·.hasLabel target)).getD false
        if !fromHasLabel || !toHasLabel then
          .error (.endpointLabelViolation c.name edgeLabel source target)
        else .ok ()
    | _ => .ok ()

/-- The properties of a node after one is set. -/
def updatedProps (n : Node) (property : String) (value : PropertyValue) :
    String → Option PropertyValue :=
  fun p => if p = property then some value else n.getProperty p

/-- The check of one constraint before a property is set. -/
def checkPropertySet (g : σ) (n : Node) (property : String) (value : PropertyValue)
    (c : Constraint) : Except ConstraintError Unit :=
  if !n.hasLabel c.label || property ∉ c.properties then .ok ()
  else
    match c.constraintType with
    | .unique =>
        if c.properties.length = 1 then checkUniqueSingle g c value (some n.id)
        else checkUniqueComposite g c (updatedProps n property value) (some n.id)
    | .notNull =>
        if value = .null then .error (.notNullViolation c.name c.label property) else .ok ()
    | .typeCheck expected => checkTypeSingle c property value expected
    | .requiredLabel _ | .endpointLabel _ _ => .ok ()

/-- The check of one constraint before a property is removed. -/
def checkPropertyRemove (n : Node) (property : String) (c : Constraint) :
    Except ConstraintError Unit :=
  if !n.hasLabel c.label || property ∉ c.properties then .ok ()
  else if c.constraintType = .notNull then .error (.notNullViolation c.name c.label property)
  else .ok ()

/-! ## The checks of the manager -/

/-- Apply a check to every constraint; the first violation is reported. -/
def validate (m : ConstraintManager) (check : Constraint → Except ConstraintError Unit) :
    Except ConstraintError Unit :=
  if m.enabled then m.values.forM check else .ok ()

/-- `validate_node_create`. -/
def validateNodeCreate (m : ConstraintManager) (g : σ) (label : String)
    (properties : String → Option PropertyValue) (exclude : Option NodeId) :
    Except ConstraintError Unit :=
  m.validate (checkNodeCreate g label properties exclude)

/-- `validate_edge_create`. -/
def validateEdgeCreate (m : ConstraintManager) (g : σ) (edgeLabel : String)
    (fromId toId : NodeId) : Except ConstraintError Unit :=
  m.validate (checkEdgeCreate g edgeLabel fromId toId)

/-- `validate_property_set`. -/
def validatePropertySet (m : ConstraintManager) (g : σ) (n : Node) (property : String)
    (value : PropertyValue) : Except ConstraintError Unit :=
  m.validate (checkPropertySet g n property value)

/-- `validate_property_remove`. -/
def validatePropertyRemove (m : ConstraintManager) (n : Node) (property : String) :
    Except ConstraintError Unit :=
  m.validate (checkPropertyRemove n property)

end ConstraintManager

end Maharit
