import SceneGraph.Content.Pool
import SceneGraph.Node.Type

namespace SceneGraph

/-- What a loadable node knows of its content. -/
structure LoadSlot where
  state : LoadState := .notLoaded
  ticket : Nat := 0
  /-- The request that a cancellation would flag. -/
  pending : Option Request := none
  content : Option Content := none
  /-- The space that holds the content when it was read as a scene. -/
  space : Option SpaceId := none

/-- The slot of a node that enters `state`. Only a load has something to cancel, and nothing is
left at the beginning. -/
def LoadSlot.enter (slot : LoadSlot) (state : LoadState) : LoadSlot :=
  match state with
  | .loading => { slot with state }
  | .complete | .failed => { slot with state, pending := none }
  | .notLoaded => { slot with state, pending := none, content := none, space := none }

structure Node where
  type : NodeType
  values : List Value
  /-- For each field whether it changed since somebody last checked. -/
  changed : List Bool
  inSetup : Bool
  space : SpaceId
  load : Option LoadSlot
  /-- Where the scene keeps the node; places are taken again. -/
  place : Nat

namespace Node

def new (type : NodeType) (space : SpaceId) (place : Nat) : Node where
  type
  values := type.table.defaults
  changed := List.replicate type.table.size false
  inSetup := true
  space
  load := if type.has .loadable then some {} else none
  place

def fieldIndex (n : Node) (name : String) : Except Error Nat := n.type.lookup name

def value (n : Node) (index : Nat) : Except Error Value :=
  match n.values[index]? with
  | some v => .ok v
  | none => .error (.field n.type.name s!"#{index}" (.outOfRange n.type.table.size))

def valueOf? (n : Node) (name : String) : Option Value :=
  (n.type.table.indexOf? name).bind fun i => n.values[i]?

def hasChanged (n : Node) (index : Nat) : Bool := n.changed[index]?.getD false

def loadState? (n : Node) : Option LoadState := n.load.map LoadSlot.state

def refs (n : Node) : List NodeId :=
  n.type.table.nodeFields.flatMap fun i => (n.values[i]?.map Value.refs).getD []

/-- Whether an outside write of `v` is admitted in a scene that has created `issued` nodes: outputs
are the node's own, plain fields are fixed after setup, and the value has the shape and lies in the
domain of the field. -/
def admits (n : Node) (issued index : Nat) (v : Value) : Except Error Unit := do
  let d ← n.type.declaration index
  if d.access = .eventOut then throw (.field n.type.name d.name .eventOut)
  if d.access = .field ∧ n.inSetup = false then throw (.field n.type.name d.name .locked)
  d.checkShape n.type.name v
  match n.type.behavior.validate issued index d v with
  | .ok () => return
  | .error reason => throw (.value n.type.name d.name (.refused reason))

def store (n : Node) (index : Nat) (v : Value) : Node :=
  { n with values := n.values.set index v }

end Node

end SceneGraph
