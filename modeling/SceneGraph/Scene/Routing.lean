import SceneGraph.Scene.Basic

namespace SceneGraph.Scene

/-- Whether a space may hold a route: both ends are its nodes, the source is readable, the
destination writable, and the field types agree. -/
def checkRoute (s : Scene) (sp : SpaceId) (r : Route) : Except Error Unit := do
  let source ← s.node r.source
  let dest ← s.node r.dest
  if !s.isMember sp r.source || !s.isMember sp r.dest then throw (.route .foreignEnd)
  let some a := source.type.table.get? r.sourceField
    | throw (.route (.noField source.type.name r.sourceField))
  let some b := dest.type.table.get? r.destField
    | throw (.route (.noField dest.type.name r.destField))
  if !a.access.isReadable then throw (.route (.notReadable source.type.name a.name a.access))
  if !b.access.isWritable then throw (.route (.notWritable dest.type.name b.name b.access))
  if a.type ≠ b.type then
    throw (.route (.mismatch source.type.name a.name a.type dest.type.name b.name b.type))

/-- Adds a route to a space; false if the space has it already. -/
def addRouteIn (s : Scene) (sp : SpaceId) (r : Route) : Except Error (Bool × Scene) := do
  let x ← s.space sp
  s.checkRoute sp r
  if x.hasRoute r then return (false, s)
  return (true, s.modifySpace sp (·.addRoute r))

def addRoute (s : Scene) (r : Route) : Except Error (Bool × Scene) := do
  s.addRouteIn (← s.node r.source).space r

/-- Removes a route from the space of its source; false if the space has no such route. -/
def removeRoute (s : Scene) (r : Route) : Bool × Scene :=
  match (s.node? r.source).bind fun n => (s.space? n.space).map fun x => (n.space, x) with
  | none => (false, s)
  | some (sp, x) => if x.hasRoute r then (true, s.modifySpace sp (·.removeRoute r)) else (false, s)

def routeByName (s : Scene) (source : NodeId) (sourceField : String) (dest : NodeId)
    (destField : String) : Except Error Route := do
  return ⟨source, ← s.fieldIndex source sourceField, dest, ← s.fieldIndex dest destField⟩

def resolve (s : Scene) (sp : SpaceId) (statement : Statement) : Except Error Route := do
  let some source := s.named? sp statement.fromNode
    | throw (.route (.unnamed statement.fromNode statement.text))
  let some dest := s.named? sp statement.toNode
    | throw (.route (.unnamed statement.toNode statement.text))
  match s.routeByName source statement.fromField dest statement.toField with
  | .ok r => return r
  | .error e => throw (.route (.unresolved statement.text e.message))

def addStatement (s : Scene) (sp : SpaceId) (statement : Statement) :
    Except Error (Bool × Scene) := do
  s.addRouteIn sp (← s.resolve sp statement)

end SceneGraph.Scene
