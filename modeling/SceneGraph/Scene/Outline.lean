import SceneGraph.Scene.Reachability

namespace SceneGraph.Scene

/-- What is left to write of an outline: the label of a field, or a node. -/
inductive OutlineTask where
  | label (depth : Nat) (name : String)
  | visit (depth : Nat) (id : NodeId)

def indented (n : Nat) (text : String) : String := String.ofList (List.replicate n ' ') ++ text

/-- The references of a node under the names of their fields. Inputs do not count. -/
def outlineFields (n : Node) (depth : Nat) : List OutlineTask :=
  n.type.table.nodeFields.flatMap fun i =>
    match n.type.table.get? i, (n.values[i]?.map Value.refs).getD [] with
    | some d, ref :: refs =>
      if d.access = .eventIn then []
      else .label depth d.name :: (ref :: refs).map (.visit (depth + 1))
    | _, _ => []

/-- The lines of the tasks in order. A live node is described once, as long as it is among the
`fresh` ones. -/
def outlineLines (s : Scene) (fresh : List NodeId) : List OutlineTask → List String
  | [] => []
  | .label depth name :: rest => indented (2 * depth + 1) ("." ++ name) :: outlineLines s fresh rest
  | .visit depth id :: rest =>
    match s.node? id with
    | none => indented (2 * depth) "<removed>" :: outlineLines s fresh rest
    | some n =>
      if _h : id ∈ fresh then
        indented (2 * depth) n.type.name ::
          outlineLines s (fresh.erase id) (outlineFields n depth ++ rest)
      else indented (2 * depth) ("USE " ++ n.type.name) :: outlineLines s fresh rest
termination_by tasks => (fresh.length, tasks.length)
decreasing_by
  · exact Prod.Lex.right _ (Nat.lt_succ_self _)
  · exact Prod.Lex.right _ (Nat.lt_succ_self _)
  · exact Prod.Lex.left _ _ (erase_shorter _h)
  · exact Prod.Lex.right _ (Nat.lt_succ_self _)

/-- The node graph below the roots of a space, a line per node and field label. -/
def outline (s : Scene) (sp : SpaceId) : String :=
  String.join ((s.outlineLines s.liveNodes ((s.roots sp).map (.visit 0))).map (· ++ "\n"))

end SceneGraph.Scene
