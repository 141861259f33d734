import SceneGraph.Field.Table
import SceneGraph.Program

namespace SceneGraph

inductive Target where
  | index (i : Nat)
  | name (s : String)
  deriving DecidableEq, Repr

namespace FieldTable

def declaration (t : FieldTable) (owner : String) (index : Nat) : Except Error Declaration :=
  match t.get? index with
  | some d => .ok d
  | none => .error (.field owner s!"#{index}" (.outOfRange t.size))

def lookup (t : FieldTable) (owner name : String) : Except Error Nat :=
  match t.indexOf? name with
  | some i => .ok i
  | none => .error (.field owner name .unknown)

/-- A position is taken as it is, a name is looked up. -/
def locate (t : FieldTable) (owner : String) : Target → Except Error Nat
  | .index i => .ok i
  | .name s => t.lookup owner s

end FieldTable

structure NodeView where
  id : NodeId
  owner : String
  table : FieldTable
  values : List Value
  /-- The time of the tick in progress, or of the last one. -/
  time : Double
  /-- How many nodes the scene has created so far. -/
  issued : Nat

namespace NodeView

def get? (v : NodeView) (index : Nat) : Option Value := v.values[index]?

def named? (v : NodeView) (name : String) : Option Value :=
  (v.table.indexOf? name).bind v.get?

def read? (v : NodeView) : Target → Option Value
  | .index i => v.get? i
  | .name s => v.named? s

end NodeView

structure Output where
  target : Target
  value : Value

abbrev Script := Program NodeView Output (Except Error Unit)

/-- The logic of a node type. It keeps no state of its own between calls; what has to last is in
the fields of the node. -/
structure Behavior where
  /-- Refuses values outside the domain of a field, with the reason, in a scene that has created
  `issued` nodes so far. -/
  validate : (issued index : Nat) → Declaration → Value → Except String Unit :=
    fun _ _ _ _ => .ok ()
  /-- Runs after a field was set outside of setup. -/
  fieldChanged : Nat → Script := fun _ => .done
  /-- Runs once per tick on enabled sensors. -/
  tick : Script := .done
  setupFinished : Script := .done

def Behavior.passive : Behavior := {}

/-- A script at work on a node: the view so far, the fields written, each once and in the order of
their first write, and the notes. -/
structure Activation where
  view : NodeView
  outputs : List Nat := []
  notes : List String := []

namespace Activation

/-- Writes one of the node's own fields. Any access mode is writable from inside, but the value
must have the shape of the field. -/
def write (a : Activation) (o : Output) : Except Error Activation := do
  let table := a.view.table
  let index ← table.locate a.view.owner o.target
  let d ← table.declaration a.view.owner index
  d.checkShape a.view.owner o.value
  return { a with
    view := { a.view with values := a.view.values.set index o.value }
    outputs := if index ∈ a.outputs then a.outputs else a.outputs ++ [index] }

def host : Program.Host NodeView Output (Except Error Unit) Activation where
  view := Activation.view
  act a o :=
    match a.write o with
    | .ok b => (b, .ok ())
    | .error e => (a, .error e)
  note a text := { a with notes := a.notes ++ [text] }

end Activation

def Script.perform (s : Script) (view : NodeView) : Activation :=
  s.run Activation.host { view }

/-- Writes an output by name and goes on; a refusal is noted. -/
def Script.publish (name : String) (value : Value) (next : Script) : Script :=
  .act ⟨.name name, value⟩ fun
    | .ok () => next
    | .error e => .note ("Behavior output rejected: " ++ e.message) next

end SceneGraph
