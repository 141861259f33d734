import SceneGraph.Node.Type

namespace SceneGraph.Standard

namespace Interpolator

/-- Neighboring keys never decrease. -/
def ascending : List Single → Bool
  | a :: b :: rest => !b.lt a && ascending (b :: rest)
  | _ => true

/-- The first pair of neighboring keys around `t`, with the position of its lower end. -/
def segment? (t : Single) : List Single → Option (Nat × Single × Single)
  | a :: b :: rest =>
    if a.le t && t.lt b then some (0, a, b)
    else (segment? t (b :: rest)).map fun (i, s) => (i + 1, s)
  | _ => none

/-- The `i`-th group of `width` values. -/
def row (values : List Single) (width i : Nat) : List Single := (values.drop (i * width)).take width

def blend (s a b : Single) : Single := a + (b - a) * s

/-- The value at `t` of the piecewise linear function through the key values, each of `width`
components. Before the first key and after the last one it is constant. -/
def interpolate (keys values : List Single) (width : Nat) (t : Single) : Option (List Single) :=
  let keys := keys.take (values.length / max width 1)
  match keys.head?, keys.getLast? with
  | some first, some last =>
    if t.le first then some (row values width 0)
    else if last.le t then some (row values width (keys.length - 1))
    else
      (segment? t keys).map fun (i, a, b) =>
        let span := b - a
        let s := if (0 : Single).lt span then (t - a) / span else 0
        List.zipWith (blend s) (row values width i) (row values width (i + 1))
  | _, _ => none

def floatsField (v : NodeView) (name : String) : List Single :=
  ((v.named? name).bind Value.asFloats?).getD []

/-- The value to publish once the fraction is set; single floats for a single output, else
vectors. -/
def answer? (v : NodeView) (index out : Nat) : Option Value :=
  let t := ((v.get? index).bind Value.asFloat?).getD 0
  let keys := floatsField v "key"
  let values := floatsField v "keyValue"
  match (v.get? out).bind Value.asFloat? with
  | some _ => ((interpolate keys values 1 t).bind List.head?).map .float
  | none => (interpolate keys values 3 t).map .ofFloats

def behavior : Behavior where
  validate _ _ d v :=
    if d.name = "key" ∧ !ascending (v.asFloats?.getD []) then
      .error "keys must be non-decreasing"
    else .ok ()
  fieldChanged index := .look fun v =>
    if v.table.indexOf? "set_fraction" = some index then
      match (v.table.indexOf? "value_changed").bind (answer? v index) with
      | some value => Script.publish "value_changed" value .done
      | none => .done
    else .done

end Interpolator

def interpolator (name : String) (keyValue value : FieldType) : Blueprint :=
  (Blueprint.of name [.metadata]).withBehavior Interpolator.behavior
    |>.eventIn "set_fraction" (.single .float)
    |>.exposed "key" (.multi .float) (.ofFloats [])
    |>.exposed "keyValue" keyValue (.ofFloats [])
    |>.eventOut "value_changed" value

def scalarInterpolator : Blueprint :=
  interpolator "ScalarInterpolator" (.multi .float) (.single .float)

def positionInterpolator : Blueprint :=
  interpolator "PositionInterpolator" (.multi .vec3f) (.single .vec3f)

end SceneGraph.Standard
