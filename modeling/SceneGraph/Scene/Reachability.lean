import SceneGraph.Scene.Removal

namespace SceneGraph.Scene

theorem erase_shorter {ids : List NodeId} {id : NodeId} (h : id ∈ ids) :
    (ids.erase id).length < ids.length := by
  have := List.length_pos_of_mem h
  rw [List.length_erase_of_mem h]
  omega

/-- The nodes of `scope` that a search from `stack` along `next` finds, in depth-first order. What
was found leaves the scope, so cycles and shared nodes end the search. -/
def search (next : NodeId → List NodeId) (scope stack : List NodeId) : List NodeId :=
  match stack with
  | [] => []
  | id :: stack =>
    if _h : id ∈ scope then id :: search next (scope.erase id) (next id ++ stack)
    else search next scope stack
termination_by (scope.length, stack.length)
decreasing_by
  · exact Prod.Lex.left _ _ (erase_shorter _h)
  · exact Prod.Lex.right _ (Nat.lt_succ_self _)

def refsOf (s : Scene) (id : NodeId) : List NodeId := ((s.node? id).map Node.refs).getD []

/-- The nodes of a space that its roots reach through references among its own nodes. -/
def reachable (s : Scene) (sp : SpaceId) : List NodeId :=
  search s.refsOf (s.members sp) (s.roots sp)

def unreachable (s : Scene) (sp : SpaceId) : List NodeId :=
  (s.members sp).filter (· ∉ s.reachable sp)

/-- Removes the nodes of a space that its roots do not reach. -/
def collect (s : Scene) (sp : SpaceId) : Except Error (List NodeId × Scene) := do
  let _ ← s.space sp
  let ids := s.unreachable sp
  return (ids, ← ids.foldlM removeNode s)

end SceneGraph.Scene
