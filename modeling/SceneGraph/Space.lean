import SceneGraph.Route

namespace SceneGraph

inductive SpaceKind where
  | scene
  | inline
  | proto
  deriving DecidableEq, Repr

def SpaceKind.name : SpaceKind → String
  | .scene => "Scene"
  | .inline => "Inline"
  | .proto => "Proto"

/-- A scope of nodes: the names bound in it, its root nodes, and the routes between its nodes. -/
structure Space where
  kind : SpaceKind
  parent : Option SpaceId
  owner : Option NodeId
  /-- The nodes of the space, in the order of their creation. -/
  nodes : List NodeId := []
  /-- The spaces below, in the order of their creation. -/
  children : List SpaceId := []
  roots : List NodeId := []
  names : List (String × NodeId) := []
  routes : List Route := []
  /-- The same routes by the field they leave. -/
  departures : NodeId → Nat → List Route := fun _ _ => []

namespace Space

def adopt (sp : Space) (id : NodeId) : Space := { sp with nodes := sp.nodes ++ [id] }

def addChild (sp : Space) (c : SpaceId) : Space := { sp with children := sp.children ++ [c] }

def removeChild (sp : Space) (c : SpaceId) : Space :=
  { sp with children := sp.children.filter (· ≠ c) }

def addRoot (sp : Space) (id : NodeId) : Space := { sp with roots := sp.roots ++ [id] }

def removeRoot (sp : Space) (id : NodeId) : Space := { sp with roots := sp.roots.erase id }

def named? (sp : Space) (name : String) : Option NodeId := sp.names.lookup name

/-- A later binding of a name replaces the earlier one. -/
def bind (sp : Space) (name : String) (id : NodeId) : Space :=
  { sp with names := sp.names.filter (·.1 ≠ name) ++ [(name, id)] }

/-- The routes that leave a field, in the order they were added. -/
def routesFrom (sp : Space) (id : NodeId) (field : Nat) : List Route := sp.departures id field

def hasRoute (sp : Space) (r : Route) : Bool := r ∈ sp.routesFrom r.source r.sourceField

def addRoute (sp : Space) (r : Route) : Space :=
  { sp with
    routes := sp.routes ++ [r]
    departures := fun id field =>
      if r.leaves id field then sp.departures id field ++ [r] else sp.departures id field }

def removeRoute (sp : Space) (r : Route) : Space :=
  { sp with
    routes := sp.routes.filter (· ≠ r)
    departures := fun id field =>
      if r.leaves id field then (sp.departures id field).erase r else sp.departures id field }

def detach (sp : Space) (id : NodeId) : Space :=
  { sp with
    nodes := sp.nodes.filter (· ≠ id)
    roots := sp.roots.erase id
    names := sp.names.filter fun b => b.2 ≠ id
    routes := sp.routes.filter fun r => !r.touches id
    departures := fun source field =>
      (sp.departures source field).filter fun r => !r.touches id }

end Space

end SceneGraph
