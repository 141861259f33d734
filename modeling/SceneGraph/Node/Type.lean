import SceneGraph.Node.Behavior
import SceneGraph.Text.Quoted

namespace SceneGraph

/-- The standard field groups a node type is composed from. -/
inductive Capability where
  | metadata
  | children
  | sensor
  | loadable
  deriving DecidableEq, Repr

namespace Capability

def name : Capability → String
  | metadata => "Metadata"
  | children => "Children"
  | sensor => "Sensor"
  | loadable => "Loadable"

def all : List Capability := [metadata, children, sensor, loadable]

def fields : Capability → List Declaration
  | metadata => [⟨.exposed, .single .node, "metadata", .node none⟩]
  | children =>
    [⟨.exposed, .multi .node, "children", .ofNodes []⟩,
      ⟨.eventIn, .multi .node, "addChildren", .ofNodes []⟩,
      ⟨.eventIn, .multi .node, "removeChildren", .ofNodes []⟩]
  | sensor =>
    [⟨.exposed, .single .bool, "enabled", .bool true⟩,
      ⟨.eventOut, .single .bool, "isActive", .bool false⟩]
  | loadable => [⟨.exposed, .multi .string, "url", .ofStrings []⟩]

end Capability

/-- What a loadable type does with its content: keep the bytes, or read them as a scene. -/
inductive ContentKind where
  | bytes
  | scene
  deriving DecidableEq, Repr

def ContentKind.name : ContentKind → String
  | .bytes => "Opaque"
  | .scene => "Scene"

structure NodeType where
  name : String
  table : FieldTable
  capabilities : List Capability
  content : ContentKind
  behavior : Behavior

namespace NodeType

def has (t : NodeType) (c : Capability) : Bool := c ∈ t.capabilities

/-- The position of a field that the capability `c` installs. -/
def standard? (t : NodeType) (c : Capability) (name : String) : Option Nat :=
  if t.has c then t.table.indexOf? name else none

def children? (t : NodeType) : Option Nat := t.standard? .children "children"

def addChildren? (t : NodeType) : Option Nat := t.standard? .children "addChildren"

def removeChildren? (t : NodeType) : Option Nat := t.standard? .children "removeChildren"

def enabled? (t : NodeType) : Option Nat := t.standard? .sensor "enabled"

def url? (t : NodeType) : Option Nat := t.standard? .loadable "url"

def declaration (t : NodeType) (index : Nat) : Except Error Declaration :=
  t.table.declaration t.name index

def lookup (t : NodeType) (name : String) : Except Error Nat := t.table.lookup t.name name

def summary (t : NodeType) : String :=
  "NodeType \x7b name: " ++ Text.quoted t.name ++ s!", fields: {t.table.size}, capabilities: [" ++
    String.intercalate ", " (t.capabilities.map Capability.name) ++ "], .. \x7d"

end NodeType

structure Blueprint where
  name : String
  capabilities : List Capability := []
  content : ContentKind := .bytes
  fields : List Declaration := []
  behavior : Behavior := .passive

namespace Blueprint

def of (name : String) (capabilities : List Capability) : Blueprint := { name, capabilities }

def withCapability (b : Blueprint) (c : Capability) : Blueprint :=
  if c ∈ b.capabilities then b else { b with capabilities := b.capabilities ++ [c] }

/-- Types with content are loadable. -/
def withContent (b : Blueprint) (k : ContentKind) : Blueprint :=
  { b with content := k }.withCapability .loadable

def declare (b : Blueprint) (d : Declaration) : Blueprint := { b with fields := b.fields ++ [d] }

def field (b : Blueprint) (name : String) (t : FieldType) (v : Value) : Blueprint :=
  b.declare ⟨.field, t, name, v⟩

def exposed (b : Blueprint) (name : String) (t : FieldType) (v : Value) : Blueprint :=
  b.declare ⟨.exposed, t, name, v⟩

def eventIn (b : Blueprint) (name : String) (t : FieldType) : Blueprint :=
  b.declare ⟨.eventIn, t, name, .ofType t⟩

def eventOut (b : Blueprint) (name : String) (t : FieldType) : Blueprint :=
  b.declare ⟨.eventOut, t, name, .ofType t⟩

def withBehavior (b : Blueprint) (behavior : Behavior) : Blueprint :=
  { b with behavior := behavior }

/-- The chosen capabilities in their fixed order. -/
def sortedCapabilities (b : Blueprint) : List Capability :=
  Capability.all.filter (· ∈ b.capabilities)

/-- Capability fields come first, then the type's own fields in the order declared. -/
def build (b : Blueprint) : Except Error NodeType := do
  let capabilities := b.sortedCapabilities
  let table ← FieldTable.build b.name (capabilities.flatMap Capability.fields ++ b.fields)
  return {
    name := b.name
    table
    capabilities
    content := b.content
    behavior := b.behavior }

end Blueprint

end SceneGraph
