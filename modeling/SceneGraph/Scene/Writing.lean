import SceneGraph.Scene.Loading

namespace SceneGraph.Scene

def markChanged (s : Scene) (id : NodeId) (index : Nat) : Scene :=
  let s := s.modifyNode id fun n => { n with changed := n.changed.set index true }
  { s with pending := s.pending ++ [(id, index)] }.emit (.fieldChanged id index)

def viewOf (s : Scene) (id : NodeId) (n : Node) : NodeView where
  id
  owner := n.type.name
  table := n.type.table
  values := n.values
  time := s.time.getD 0
  issued := s.nodes.issued

/-- Runs a script of a node's behavior. Out of setup the fields it wrote count as changed, in the
order of their first write. -/
def perform (s : Scene) (id : NodeId) (script : Behavior → Script) : Scene :=
  match s.node? id with
  | none => s
  | some n =>
    let a := (script n.type.behavior).perform (s.viewOf id n)
    let s := (s.modifyNode id fun n => { n with values := a.view.values }).log
      (a.notes.map .note)
    if n.inSetup then s else a.outputs.foldl (fun s index => s.markChanged id index) s

/-- Those of `incoming` that are new, once each, after the children there are. -/
def addedChildren (children incoming : List NodeId) : List NodeId :=
  incoming.foldl (fun list id => if id ∈ list then list else list ++ [id]) children

def remainingChildren (children outgoing : List NodeId) : List NodeId :=
  children.filter (· ∉ outgoing)

def refsAt (n : Node) (index : Nat) : List NodeId := (n.values[index]?.map Value.refs).getD []

def editChildren (s : Scene) (id : NodeId) (input children : Nat)
    (edit : List NodeId → List NodeId → List NodeId) : Scene :=
  match s.node? id with
  | none => s
  | some n =>
    let before := refsAt n children
    let after := edit before (refsAt n input)
    if after = before then s
    else
      let s := s.modifyNode id fun n => n.store children (.ofNodes after)
      if n.inSetup then s else s.markChanged id children

/-- Urls and the switch for loading act on the content of a loadable node. -/
def applyLoadable (s : Scene) (id : NodeId) (type : NodeType) (index : Nat) : Scene :=
  if type.url? = some index then s.urlChanged id
  else if type.url?.isSome ∧ type.table.indexOf? "load" = some index then s.loadSwitched id index
  else s

def applyCapabilities (s : Scene) (id : NodeId) (type : NodeType) (index : Nat) : Scene :=
  match type.children? with
  | some children =>
    if type.addChildren? = some index then s.editChildren id index children addedChildren
    else if type.removeChildren? = some index then
      s.editChildren id index children remainingChildren
    else s.applyLoadable id type index
  | none => s.applyLoadable id type index

/-- Stores a value from outside the node. Out of setup the change is announced and queued, and the
capabilities and the behavior of the node's type react to it. -/
def setValue (s : Scene) (id : NodeId) (index : Nat) (v : Value) : Except Error Scene := do
  let n ← s.node id
  n.admits s.nodes.issued index v
  let s := s.modifyNode id fun n => n.store index v
  if n.inSetup then return s
  return ((s.markChanged id index).applyCapabilities id n.type index).perform id
    fun b => b.fieldChanged index

def set (s : Scene) (id : NodeId) (target : Target) (v : Value) : Except Error Scene := do
  s.setValue id (← s.locate id target) v

/-- The first `count` elements of `data` for a field, or the fault of a count too large. -/
def counted {α : Type} (s : Scene) (id : NodeId) (index : Nat) (data : List α) (count : Nat) :
    Except Error (Counted α) :=
  match Counted.withCount? data count with
  | some a => .ok a
  | none =>
    let (owner, name) := match s.node? id with
      | none => ("", "")
      | some n =>
        (n.type.name, ((n.type.table.get? index).map Declaration.name).getD s!"#{index}")
    .error (.value owner name (.countTooLarge count data.length))

def setInts (s : Scene) (id : NodeId) (index : Nat) (data : List Int32) (count : Nat) :
    Except Error Scene := do
  s.setValue id index (.ints (← s.counted id index data count))

def setFloats (s : Scene) (id : NodeId) (index : Nat) (data : List Single) (count : Nat) :
    Except Error Scene := do
  s.setValue id index (.floats (← s.counted id index data count))

def setStrings (s : Scene) (id : NodeId) (index : Nat) (data : List String) (count : Nat) :
    Except Error Scene := do
  s.setValue id index (.strings (← s.counted id index data count))

/-- Ends the setup of a node. Loadable nodes with a url start loading if there is a provider. -/
def finishSetup (s : Scene) (id : NodeId) : Except Error Scene := do
  let n ← s.node id
  if !n.inSetup then return s
  let s := (s.modifyNode id fun n => { n with inSetup := false }).perform id Behavior.setupFinished
  return if n.type.has .loadable then s.autoLoad id else s

end SceneGraph.Scene
