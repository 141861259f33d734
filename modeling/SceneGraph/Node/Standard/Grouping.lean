import SceneGraph.Node.Type

namespace SceneGraph.Standard

def origin : Value := .ofFloats [0, 0, 0]

/-- A bounding box of negative size is unknown. -/
def unknownSize : Value := .ofFloats [-1, -1, -1]

def noRotation : Value := .ofFloats [0, 0, 1, 0]

def squaredLength (x y z : Single) : Single := x * x + y * y + z * z

/-- A rotation needs an axis: the first three components may not vanish. -/
def hasAxis (v : Value) : Bool :=
  match v.asTuple? 4 with
  | some [x, y, z, _] => !(squaredLength x y z).eqv 0
  | _ => false

def transforming : Behavior where
  validate _ _ d v :=
    if d.type = .single .rotation ∧ !hasAxis v then .error "rotation axis must be non-zero"
    else .ok ()

def group : Blueprint :=
  Blueprint.of "Group" [.metadata, .children]
    |>.field "bboxCenter" (.single .vec3f) origin
    |>.field "bboxSize" (.single .vec3f) unknownSize

def transform : Blueprint :=
  (Blueprint.of "Transform" [.metadata, .children]).withBehavior transforming
    |>.exposed "center" (.single .vec3f) origin
    |>.exposed "rotation" (.single .rotation) noRotation
    |>.exposed "scale" (.single .vec3f) (.ofFloats [1, 1, 1])
    |>.exposed "scaleOrientation" (.single .rotation) noRotation
    |>.exposed "translation" (.single .vec3f) origin
    |>.field "bboxCenter" (.single .vec3f) origin
    |>.field "bboxSize" (.single .vec3f) unknownSize

/-- A node whose content is a scene of its own, read into a space below the node's. -/
def inlineScene : Blueprint :=
  (Blueprint.of "Inline" [.metadata]).withContent .scene
    |>.exposed "load" (.single .bool) (.bool true)
    |>.field "bboxCenter" (.single .vec3f) origin
    |>.field "bboxSize" (.single .vec3f) unknownSize

end SceneGraph.Standard
