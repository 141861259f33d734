import SceneGraph.Field.Counted
import SceneGraph.Field.Type
import SceneGraph.Handle
import SceneGraph.Number.Decimal
import SceneGraph.Text.Quoted

namespace SceneGraph

/-- What a field holds. A node reference does not keep its node alive. -/
inductive Value where
  | bool (b : Bool)
  | int32 (i : Int32)
  | float (x : Single)
  | double (x : Double)
  | string (s : String)
  | node (id : Option NodeId)
  | bools (a : Counted Bool)
  | ints (a : Counted Int32)
  | floats (a : Counted Single)
  | doubles (a : Counted Double)
  | strings (a : Counted String)
  | nodes (a : Counted NodeId)
  deriving DecidableEq

namespace Value

def ofBools (xs : List Bool) : Value := bools (.ofList xs)

def ofInts (xs : List Int32) : Value := ints (.ofList xs)

def ofFloats (xs : List Single) : Value := floats (.ofList xs)

def ofDoubles (xs : List Double) : Value := doubles (.ofList xs)

def ofStrings (xs : List String) : Value := strings (.ofList xs)

def ofNodes (xs : List NodeId) : Value := nodes (.ofList xs)

def kind : Value → Kind
  | bool _ => ⟨false, .bool⟩
  | int32 _ => ⟨false, .int32⟩
  | float _ => ⟨false, .float⟩
  | double _ => ⟨false, .double⟩
  | string _ => ⟨false, .string⟩
  | node _ => ⟨false, .node⟩
  | bools _ => ⟨true, .bool⟩
  | ints _ => ⟨true, .int32⟩
  | floats _ => ⟨true, .float⟩
  | doubles _ => ⟨true, .double⟩
  | strings _ => ⟨true, .string⟩
  | nodes _ => ⟨true, .node⟩

def validCount : Value → Nat
  | bools a => a.count
  | ints a => a.count
  | floats a => a.count
  | doubles a => a.count
  | strings a => a.count
  | nodes a => a.count
  | bool _ | int32 _ | float _ | double _ | string _ | node _ => 1

/-- The same array with only its first `count` elements valid; a single value stays as it is. -/
def limit? (count : Nat) : Value → Option Value
  | bools a => (a.limit? count).map bools
  | ints a => (a.limit? count).map ints
  | floats a => (a.limit? count).map floats
  | doubles a => (a.limit? count).map doubles
  | strings a => (a.limit? count).map strings
  | nodes a => (a.limit? count).map nodes
  | v => some v

def ofType (t : FieldType) : Value :=
  match t.isMulti, t.element with
  | false, .bool => bool false
  | false, .int32 => int32 0
  | false, .float => float 0
  | false, .double | false, .time => double 0
  | false, .string => string ""
  | false, .node => node none
  | false, .rotation => ofFloats [0, 0, 1, 0]
  | false, .vec2f | false, .vec3f | false, .color | false, .colorRGBA =>
    ofFloats (List.replicate t.components 0)
  | true, .bool => ofBools []
  | true, .int32 => ofInts []
  | true, .double | true, .time => ofDoubles []
  | true, .string => ofStrings []
  | true, .node => ofNodes []
  | true, .float | true, .vec2f | true, .vec3f | true, .color | true, .colorRGBA
  | true, .rotation => ofFloats []

def asBool? : Value → Option Bool
  | bool b => some b
  | _ => none

def asInt32? : Value → Option Int32
  | int32 i => some i
  | _ => none

def asFloat? : Value → Option Single
  | float x => some x
  | _ => none

def asDouble? : Value → Option Double
  | double x => some x
  | _ => none

def asString? : Value → Option String
  | string s => some s
  | _ => none

def asNode? : Value → Option NodeId
  | node id => id
  | _ => none

def asBools? : Value → Option (List Bool)
  | bools a => some a.toList
  | _ => none

def asInts? : Value → Option (List Int32)
  | ints a => some a.toList
  | _ => none

def asFloats? : Value → Option (List Single)
  | floats a => some a.toList
  | _ => none

def asDoubles? : Value → Option (List Double)
  | doubles a => some a.toList
  | _ => none

def asStrings? : Value → Option (List String)
  | strings a => some a.toList
  | _ => none

def asNodes? : Value → Option (List NodeId)
  | nodes a => some a.toList
  | _ => none

def asTuple? (width : Nat) (v : Value) : Option (List Single) :=
  v.asFloats?.filter fun xs => xs.length = width

def refs : Value → List NodeId
  | node (some id) => [id]
  | nodes a => a.toList
  | _ => []

/-- The value as it stands when `issued` nodes were created. -/
def settle (issued : Nat) : Value → Value
  | node id => node (id.map (NodeId.within issued))
  | nodes a => nodes (a.map (NodeId.within issued))
  | v => v

/-- Equality of the valid content; floats are compared as numbers. -/
def eqv : Value → Value → Bool
  | bool a, bool b => a == b
  | int32 a, int32 b => a == b
  | float a, float b => a.eqv b
  | double a, double b => a.eqv b
  | string a, string b => a == b
  | node a, node b => a == b
  | bools a, bools b => a.eqv (· == ·) b
  | ints a, ints b => a.eqv (· == ·) b
  | floats a, floats b => a.eqv Binary.eqv b
  | doubles a, doubles b => a.eqv Binary.eqv b
  | strings a, strings b => a.eqv (· == ·) b
  | nodes a, nodes b => a.eqv (· == ·) b
  | _, _ => false

def boolText (b : Bool) : String := if b then "TRUE" else "FALSE"

def listText {α : Type} (item : α → String) (xs : List α) : String :=
  "[" ++ String.intercalate " " (xs.map item) ++ "]"

def text : Value → String
  | bool b => boolText b
  | int32 i => toString i.toInt
  | float x => x.text
  | double x => x.text
  | string s => Text.quoted s
  | node (some id) => id.text
  | node none => "NULL"
  | bools a => listText boolText a.toList
  | ints a => listText (fun i => toString i.toInt) a.toList
  | floats a => listText Binary.text a.toList
  | doubles a => listText Binary.text a.toList
  | strings a => listText Text.quoted a.toList
  | nodes a => listText NodeId.text a.toList

end Value

end SceneGraph
