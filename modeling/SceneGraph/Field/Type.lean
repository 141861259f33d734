namespace SceneGraph

/-- How a field may be written: at construction only, at any time and from routes, as an input, or
by its own node alone. -/
inductive Access where
  | field
  | exposed
  | eventIn
  | eventOut
  deriving DecidableEq, Repr

namespace Access

def isReadable : Access → Bool
  | exposed | eventOut => true
  | field | eventIn => false

def isWritable : Access → Bool
  | exposed | eventIn => true
  | field | eventOut => false

def keyword : Access → String
  | field => "field"
  | exposed => "exposedField"
  | eventIn => "eventIn"
  | eventOut => "eventOut"

end Access

inductive Scalar where
  | bool
  | int32
  | float
  | double
  | string
  | node
  deriving DecidableEq, Repr

def Scalar.name : Scalar → String
  | bool => "Bool"
  | int32 => "Int32"
  | float => "Float"
  | double => "Double"
  | string => "String"
  | node => "Node"

/-- The shape of a value: one scalar or an array of them. -/
structure Kind where
  isArray : Bool
  scalar : Scalar
  deriving DecidableEq, Repr

namespace Kind

def isNode (k : Kind) : Bool := k.scalar = .node

def name (k : Kind) : String := k.scalar.name ++ if k.isArray then "Array" else ""

end Kind

inductive Element where
  | bool
  | int32
  | float
  | double
  | time
  | string
  | node
  | vec2f
  | vec3f
  | color
  | colorRGBA
  | rotation
  deriving DecidableEq, Repr

namespace Element

def name : Element → String
  | bool => "Bool"
  | int32 => "Int32"
  | float => "Float"
  | double => "Double"
  | time => "Time"
  | string => "String"
  | node => "Node"
  | vec2f => "Vec2f"
  | vec3f => "Vec3f"
  | color => "Color"
  | colorRGBA => "ColorRGBA"
  | rotation => "Rotation"

def scalar : Element → Scalar
  | bool => .bool
  | int32 => .int32
  | double | time => .double
  | string => .string
  | node => .node
  | float | vec2f | vec3f | color | colorRGBA | rotation => .float

def components : Element → Nat
  | vec2f => 2
  | vec3f | color => 3
  | colorRGBA | rotation => 4
  | bool | int32 | float | double | time | string | node => 1

def all : List Element :=
  [bool, int32, float, double, time, string, node, vec2f, vec3f, color, colorRGBA, rotation]

theorem components_pos (e : Element) : 0 < e.components := by cases e <;> decide

end Element

structure FieldType where
  isMulti : Bool
  element : Element
  deriving DecidableEq, Repr

namespace FieldType

def single (e : Element) : FieldType := ⟨false, e⟩

def multi (e : Element) : FieldType := ⟨true, e⟩

def name (t : FieldType) : String := (if t.isMulti then "MF" else "SF") ++ t.element.name

instance : ToString FieldType := ⟨name⟩

def components (t : FieldType) : Nat := t.element.components

/-- A single element of several components is stored as an array of that exact length. -/
def isFixedTuple (t : FieldType) : Bool := !t.isMulti && 1 < t.components

def kind (t : FieldType) : Kind := ⟨t.isMulti || 1 < t.components, t.element.scalar⟩

def all : List FieldType := Element.all.flatMap fun e => [single e, multi e]

def ofName? (name : String) : Option FieldType := all.find? fun t => t.name = name

theorem components_pos (t : FieldType) : 0 < t.components := t.element.components_pos

end FieldType

end SceneGraph
