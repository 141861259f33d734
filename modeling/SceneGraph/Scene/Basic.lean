import SceneGraph.Arena
import SceneGraph.Journal
import SceneGraph.Node.Basic
import SceneGraph.Node.Catalog
import SceneGraph.Settings
import SceneGraph.Space

namespace SceneGraph

structure Scene where
  settings : Settings
  catalog : Catalog
  nodes : Arena Node
  spaces : Arena Space
  /-- The free places for nodes; the one freed last is taken first. -/
  freePlaces : List Nat
  places : Nat
  /-- The changes not propagated yet, oldest first. -/
  pending : List (NodeId × Nat)
  /-- The nodes that are ticked, in the order of their creation. -/
  sensors : List NodeId
  loader : Option Pool
  cache : Cache
  time : Option Double
  journal : Journal

def SpaceId.main : SpaceId := ⟨0⟩

namespace Scene

def start (catalog : Catalog) (settings : Settings) : Scene where
  settings
  catalog
  nodes := .empty
  spaces := Arena.empty.insert { kind := .scene, parent := none, owner := none }
  freePlaces := []
  places := 0
  pending := []
  sensors := []
  loader := none
  cache := .empty
  time := none
  journal := []

/-- A scene with no nodes, under settings that are in order. -/
def new (catalog : Catalog) (settings : Settings) : Except Error Scene := do
  settings.validate
  return start catalog settings

def node? (s : Scene) (id : NodeId) : Option Node :=
  match id with
  | .issued k => s.nodes.get? k
  | .void => none

def space? (s : Scene) (id : SpaceId) : Option Space := s.spaces.get? id.number

def node (s : Scene) (id : NodeId) : Except Error Node :=
  match s.node? id with
  | some n => .ok n
  | none => .error .unknownNode

def space (s : Scene) (id : SpaceId) : Except Error Space :=
  match s.space? id with
  | some sp => .ok sp
  | none => .error .unknownSpace

def hasNode (s : Scene) (id : NodeId) : Bool := (s.node? id).isSome

def hasSpace (s : Scene) (id : SpaceId) : Bool := (s.space? id).isSome

def modifyNode (s : Scene) (id : NodeId) (f : Node → Node) : Scene :=
  match id with
  | .issued k => { s with nodes := s.nodes.modify k f }
  | .void => s

def modifySpace (s : Scene) (id : SpaceId) (f : Space → Space) : Scene :=
  { s with spaces := s.spaces.modify id.number f }

def liveNodes (s : Scene) : List NodeId := s.nodes.keys.map .issued

theorem mem_liveNodes {s : Scene} {id : NodeId} : id ∈ s.liveNodes ↔ s.hasNode id := by
  cases id <;> simp [liveNodes, hasNode, node?, Arena.mem_keys, Arena.contains]

def members (s : Scene) (sp : SpaceId) : List NodeId := ((s.space? sp).map Space.nodes).getD []

def isMember (s : Scene) (sp : SpaceId) (id : NodeId) : Bool := id ∈ s.members sp

def children (s : Scene) (sp : SpaceId) : List SpaceId :=
  ((s.space? sp).map Space.children).getD []

def roots (s : Scene) (sp : SpaceId) : List NodeId :=
  ((s.space? sp).map Space.roots).getD []

def named? (s : Scene) (sp : SpaceId) (name : String) : Option NodeId :=
  (s.space? sp).bind fun x => x.named? name

def log (s : Scene) (entries : List Entry) : Scene := { s with journal := s.journal ++ entries }

def emit (s : Scene) (e : Event) : Scene := s.log [.event e]

def report (s : Scene) (severity : Severity) (text : String) (cause : Option Error) : Scene :=
  s.log [.report ⟨severity, text, cause⟩]

def takeJournal (s : Scene) : Journal × Scene := (s.journal, { s with journal := [] })

def nextSpace (s : Scene) : SpaceId := ⟨s.spaces.issued⟩

def addSpace (s : Scene) (kind : SpaceKind) (parent : SpaceId) (owner : Option NodeId) : Scene :=
  let added := { s with spaces := s.spaces.insert { kind, parent := some parent, owner } }
  added.modifySpace parent (·.addChild s.nextSpace)

def openSpace (s : Scene) (kind : SpaceKind) (parent : SpaceId) (owner : Option NodeId) :
    Except Error (SpaceId × Scene) := do
  let _ ← s.space parent
  return (s.nextSpace, s.addSpace kind parent owner)

def createSpace (s : Scene) (kind : SpaceKind) (parent : SpaceId) :
    Except Error (SpaceId × Scene) :=
  s.openSpace kind parent none

def nextNode (s : Scene) : NodeId := .issued s.nodes.issued

def nextPlace (s : Scene) : Nat := s.freePlaces.headD s.places

def addNode (s : Scene) (sp : SpaceId) (type : NodeType) : Scene :=
  let added := { s with
    nodes := s.nodes.insert (.new type sp s.nextPlace)
    freePlaces := s.freePlaces.tail
    places := if s.freePlaces.isEmpty then s.places + 1 else s.places
    sensors := if type.has .sensor then s.sensors ++ [s.nextNode] else s.sensors }
  added.modifySpace sp (·.adopt s.nextNode)

def createNode (s : Scene) (sp : SpaceId) (typeName : String) :
    Except Error (NodeId × Scene) := do
  let _ ← s.space sp
  let type ← s.catalog.resolve typeName
  return (s.nextNode, s.addNode sp type)

def fieldIndex (s : Scene) (id : NodeId) (name : String) : Except Error Nat := do
  (← s.node id).fieldIndex name

def value (s : Scene) (id : NodeId) (index : Nat) : Except Error Value := do
  (← s.node id).value index

def locate (s : Scene) (id : NodeId) : Target → Except Error Nat
  | .index i => .ok i
  | .name name => s.fieldIndex id name

def hasChanged (s : Scene) (id : NodeId) (index : Nat) : Except Error Bool := do
  return (← s.node id).hasChanged index

def checkChanged (s : Scene) (id : NodeId) (index : Nat) : Except Error (Bool × Scene) := do
  let n ← s.node id
  return (n.hasChanged index,
    s.modifyNode id fun n => { n with changed := n.changed.set index false })

/-- Appends a root of a space; false if it was one already. -/
def addRoot (s : Scene) (sp : SpaceId) (id : NodeId) : Except Error (Bool × Scene) := do
  let _ ← s.node id
  let x ← s.space sp
  if id ∉ x.nodes then throw .unknownNode
  if id ∈ x.roots then return (false, s)
  return (true, s.modifySpace sp (·.addRoot id))

/-- Takes a node off the roots without destroying it; false if it was none. -/
def removeRoot (s : Scene) (sp : SpaceId) (id : NodeId) : Except Error (Bool × Scene) := do
  let x ← s.space sp
  return (decide (id ∈ x.roots), s.modifySpace sp (·.removeRoot id))

def define (s : Scene) (sp : SpaceId) (name : String) (id : NodeId) : Except Error Scene := do
  let x ← s.space sp
  if id ∉ x.nodes then throw .unknownNode
  return s.modifySpace sp (·.bind name id)

end Scene

end SceneGraph
