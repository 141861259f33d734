import SceneGraph.Node.Behavior

namespace SceneGraph

/-- One step of a behavior given as data, on the node's own fields. A handle in its value names the
node that the scene creates under it, also before there is one. -/
inductive Action where
  | set (target : Target) (value : Value)
  | copy (source target : Target)
  /-- One more than an integer field, which counts as zero if it holds none. -/
  | increment (target : Target)
  | time (target : Target)
  | self (target : Target)

inductive Obstacle where
  | missing
  | refused (e : Error)

namespace Action

def target : Action → Target
  | set t _ | copy _ t | increment t | time t | self t => t

/-- The value to write, unless the source does not exist. -/
def value? (v : NodeView) : Action → Option Value
  | set _ x => some (x.settle v.issued)
  | copy s _ => v.read? s
  | increment t => some (.int32 (((v.read? t).bind Value.asInt32?).getD 0 + 1))
  | time _ => some (.double v.time)
  | self _ => some (.node (some v.id))

/-- Writes the action's value and goes on with `next`; an obstacle is noted. -/
def script (describe : Obstacle → String) (a : Action) (next : Script) : Script :=
  .look fun v =>
    match a.value? v with
    | none => .note (describe .missing) next
    | some x => .act ⟨a.target, x⟩ fun
      | .ok () => next
      | .error e => .note (describe (.refused e)) next

end Action

/-- Refuses one value of one field. A handle in it names a node as in an action. -/
structure Rejection where
  field : String
  value : Value
  reason : String

structure Reaction where
  field : String
  actions : List Action

structure Rules where
  rejections : List Rejection := []
  reactions : List Reaction := []
  tick : List Action := []
  setup : List Action := []

namespace Rules

def onChange (r : Rules) (t : FieldTable) (index : Nat) : List Action :=
  (r.reactions.filter fun x => t.indexOf? x.field = some index).flatMap Reaction.actions

def validate (r : Rules) (issued : Nat) (d : Declaration) (v : Value) : Except String Unit :=
  match r.rejections.find? fun x => x.field = d.name && (x.value.settle issued).eqv v with
  | some x => .error x.reason
  | none => .ok ()

def behavior (r : Rules) (describe : Obstacle → String) : Behavior :=
  let run (actions : List Action) : Script := actions.foldr (Action.script describe) .done
  { validate := fun issued _ d v => r.validate issued d v
    fieldChanged := fun index => .look fun v => run (r.onChange v.table index)
    tick := run r.tick
    setupFinished := run r.setup }

end Rules

end SceneGraph
