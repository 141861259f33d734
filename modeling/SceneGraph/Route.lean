import SceneGraph.Error
import SceneGraph.Handle
import SceneGraph.Text.Blank

namespace SceneGraph

structure Route where
  source : NodeId
  sourceField : Nat
  dest : NodeId
  destField : Nat
  deriving DecidableEq, Repr

namespace Route

def touches (r : Route) (id : NodeId) : Bool := r.source = id || r.dest = id

def leaves (r : Route) (id : NodeId) (field : Nat) : Bool := r.source = id && r.sourceField = field

def text (r : Route) : String :=
  s!"Route \x7b source: {r.source}, source_field: {r.sourceField}, " ++
    s!"dest: {r.dest}, dest_field: {r.destField} \x7d"

end Route

structure Statement where
  fromNode : String
  fromField : String
  toNode : String
  toField : String
  deriving DecidableEq, Repr

namespace Statement

def text (s : Statement) : String :=
  "ROUTE " ++ s.fromNode ++ "." ++ s.fromField ++ " TO " ++ s.toNode ++ "." ++ s.toField

instance : ToString Statement := ⟨text⟩

/-- A node name and a field name around a single point. -/
def endpoint (cs : List Char) : Except Error (String × String) :=
  let node := cs.takeWhile (· ≠ '.')
  let field := (cs.dropWhile (· ≠ '.')).drop 1
  if node = [] ∨ field = [] ∨ '.' ∈ field then
    .error (.route (.endpoint (String.ofList cs)))
  else .ok (String.ofList node, String.ofList field)

/-- Reads `ROUTE A.x TO B.y` with any blanks around the words. -/
def parse (s : String) : Except Error Statement :=
  match Text.words s.toList with
  | [['R', 'O', 'U', 'T', 'E'], source, ['T', 'O'], dest] => do
    let (fromNode, fromField) ← endpoint source
    let (toNode, toField) ← endpoint dest
    return ⟨fromNode, fromField, toNode, toField⟩
  | _ => .error (.route (.statement s))

end Statement

end SceneGraph
