namespace SceneGraph

/-- A node handle carries the number under which a scene created the node; `void` is a handle that
no scene issues. -/
inductive NodeId where
  | issued (number : Nat)
  | void
  deriving DecidableEq, Repr

/-- The handle while it is among the first `issued`, and until then one that no scene issues. -/
def NodeId.within (issued : Nat) : NodeId → NodeId
  | .issued k => if k < issued then .issued k else .void
  | .void => .void

def NodeId.text : NodeId → String
  | .issued k => s!"n{k}"
  | .void => "NodeId(null)"

instance : ToString NodeId := ⟨NodeId.text⟩

/-- A space handle carries the number under which a scene created the space. -/
structure SpaceId where
  number : Nat
  deriving DecidableEq, Repr

end SceneGraph
