import SceneGraph.Scene.Basic

namespace SceneGraph

/-- What is to be taken down: a space with all that is in it, or a node. -/
inductive Doomed where
  | space (id : SpaceId)
  | node (id : NodeId)
  deriving DecidableEq, Repr

namespace Scene

def cancel (s : Scene) (request : Option Request) : Scene :=
  match request with
  | none => s
  | some r => { s with loader := s.loader.map fun p => p.flag [r] }

def dropSpace (s : Scene) (sp : SpaceId) (parent : Option SpaceId) : Scene :=
  let dropped := { s with spaces := s.spaces.erase sp.number }
  match parent with
  | none => dropped
  | some p => dropped.modifySpace p (·.removeChild sp)

/-- Takes the node `n` out of the table with its queued changes, cancels its load and frees its
place. -/
def dropNode (s : Scene) (k : Nat) (n : Node) : Scene :=
  { s with
    nodes := s.nodes.erase k
    sensors := s.sensors.filter (· ≠ NodeId.issued k)
    pending := s.pending.filter fun p => p.1 ≠ NodeId.issued k
    freePlaces := n.place :: s.freePlaces }.cancel (n.load.bind LoadSlot.pending)

@[simp] theorem spaces_cancel (s : Scene) (r : Option Request) :
    (s.cancel r).spaces = s.spaces := by
  cases r <;> rfl

@[simp] theorem nodes_cancel (s : Scene) (r : Option Request) : (s.cancel r).nodes = s.nodes := by
  cases r <;> rfl

@[simp] theorem spaces_dropNode (s : Scene) (k : Nat) (n : Node) :
    (s.dropNode k n).spaces = s.spaces := by
  simp [dropNode]

@[simp] theorem nodes_dropNode (s : Scene) (k : Nat) (n : Node) :
    (s.dropNode k n).nodes = s.nodes.erase k := by
  simp [dropNode]

@[simp] theorem nodes_dropSpace (s : Scene) (sp : SpaceId) (parent : Option SpaceId) :
    (s.dropSpace sp parent).nodes = s.nodes := by
  cases parent <;> rfl

theorem size_spaces_dropSpace (s : Scene) (sp : SpaceId) (parent : Option SpaceId) :
    (s.dropSpace sp parent).spaces.size = (s.spaces.erase sp.number).size := by
  cases parent
  · rfl
  · exact Arena.size_modify ..

/-- Takes down what is listed, in order. The spaces below a space and then its nodes go right after
it, and the space of a node's content right after the node. The main space stays, and so does
what is gone already. -/
def demolish (doomed : List Doomed) (s : Scene) : Scene :=
  match doomed with
  | [] => s
  | .space sp :: rest =>
    if sp = .main then demolish rest s
    else
      match _h : s.space? sp with
      | none => demolish rest s
      | some x =>
        demolish (x.children.map .space ++ x.nodes.map .node ++ rest) (s.dropSpace sp x.parent)
  | .node .void :: rest => demolish rest s
  | .node (.issued k) :: rest =>
    match _h : s.nodes.get? k with
    | none => demolish rest s
    | some n =>
      demolish ((n.load.bind LoadSlot.space).toList.map .space ++ rest) (s.dropNode k n)
termination_by (s.spaces.size, s.nodes.size, doomed.length)
decreasing_by
  · exact Prod.Lex.right _ (Prod.Lex.right _ (Nat.lt_succ_self _))
  · exact Prod.Lex.right _ (Prod.Lex.right _ (Nat.lt_succ_self _))
  · refine Prod.Lex.left _ _ ?_
    rw [size_spaces_dropSpace]
    exact Arena.size_erase_lt (Option.isSome_iff_exists.mpr ⟨x, _h⟩)
  · exact Prod.Lex.right _ (Prod.Lex.right _ (Nat.lt_succ_self _))
  · exact Prod.Lex.right _ (Prod.Lex.right _ (Nat.lt_succ_self _))
  · rw [spaces_dropNode, nodes_dropNode]
    exact Prod.Lex.right _ (Prod.Lex.left _ _
      (Arena.size_erase_lt (Option.isSome_iff_exists.mpr ⟨n, _h⟩)))

/-- Destroys a space other than the main one, the spaces below it and every node of theirs. -/
def removeSpace (s : Scene) (sp : SpaceId) : Except Error Scene := do
  if sp = .main then throw (.other "the main space cannot be removed")
  let _ ← s.space sp
  return s.demolish [.space sp]

/-- Destroys a node with its routes, names and root entry, and the space of its content. Handles
of it that other nodes hold no longer resolve. -/
def removeNode (s : Scene) (id : NodeId) : Except Error Scene := do
  let n ← s.node id
  return (s.modifySpace n.space (·.detach id)).demolish [.node id]

end Scene

end SceneGraph
