import SceneGraph.Scene.Writing
import SceneGraph.Document.Fault

namespace SceneGraph

/-- Where a text is read: the space it is for, and the end of the text. -/
structure Surroundings where
  space : SpaceId
  stop : Nat

/-- A text on its way into a scene: the scene with what was read so far, the nodes that were made
for the text, and its routes with their places in the text, which wait for the end. -/
structure Draft where
  scene : Scene
  created : List NodeId := []
  routes : List (Statement × Nat) := []

namespace Draft

def named? (env : Surroundings) (d : Draft) (name : String) : Option NodeId :=
  d.scene.named? env.space name

def create (env : Surroundings) (d : Draft) (start : Nat) (typeName : String) :
    Except Fault (NodeId × Draft) :=
  match d.scene.createNode env.space typeName with
  | .error e => .error (.textual start (.refused e))
  | .ok (id, s) => .ok (id, { d with scene := s, created := d.created ++ [id] })

def define (env : Surroundings) (d : Draft) (name : String) (id : NodeId) : Except Fault Draft :=
  match d.scene.define env.space name id with
  | .error e => .error (.refusal e)
  | .ok s => .ok { d with scene := s }

def locate (d : Draft) (id : NodeId) (start : Nat) (name : String) :
    Except Fault (Nat × FieldType) :=
  match d.scene.fieldIndex id name with
  | .error e => .error (.textual start (.refused e))
  | .ok index =>
    match (d.scene.node? id).bind fun n => n.type.table.get? index with
    | none => .error (.textual start (.undeclared name))
    | some declared => .ok (index, declared.type)

/-- Writes a field; its value stands at `start`. -/
def set (d : Draft) (id : NodeId) (index start : Nat) (v : Value) : Except Fault Draft :=
  match d.scene.setValue id index v with
  | .error e => .error (.textual start (.refused e))
  | .ok s => .ok { d with scene := s }

def addRoute (d : Draft) (statement : Statement) (start : Nat) : Draft :=
  { d with routes := d.routes ++ [(statement, start)] }

/-- Gives the text up: its nodes are removed, the last one first. -/
def rollBack (d : Draft) : Scene :=
  d.created.reverse.foldl (fun s id => (s.removeNode id).toOption.getD s) d.scene

end Draft

end SceneGraph
