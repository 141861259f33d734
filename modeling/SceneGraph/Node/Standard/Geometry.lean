import SceneGraph.Node.Type

namespace SceneGraph.Standard

def solid (b : Blueprint) : Blueprint := b.field "solid" (.single .bool) (.bool true)

def indices : Value := .ofInts []

def firstBelow? (least : Int) (xs : List Int32) : Option (Nat × Int) :=
  (xs.findIdx? fun i => i.toInt < least).bind fun k => xs[k]?.map fun i => (k, i.toInt)

def checkEntries (least : Int) (v : Value) : Except String Unit :=
  match firstBelow? least (v.asInts?.getD []) with
  | some (k, i) => .error s!"entry {k} is {i}, must be >= {least}"
  | none => .ok ()

def primitive : Behavior where
  validate _ _ d v :=
    if d.name = "radius" ∧ v.asFloat?.any fun r => !(0 : Single).lt r then
      .error "radius must be greater than 0"
    else if d.name = "size" ∧ (v.asTuple? 3).any fun cs => cs.any fun c => !(0 : Single).lt c then
      .error "every size component must be greater than 0"
    else .ok ()

/-- Counts of vertices are at least two, coordinate indices at least -1, and a new index list
replaces the one fixed at construction. -/
def indexed : Behavior where
  validate _ _ d v :=
    if d.name = "vertexCount" then checkEntries 2 v
    else if d.name = "coordIndex" ∨ d.name = "set_coordIndex" then checkEntries (-1) v
    else if d.name = "creaseAngle" ∧ v.asFloat?.any fun a => !(0 : Single).le a then
      .error "creaseAngle must not be negative"
    else .ok ()
  fieldChanged index := .look fun view =>
    if view.table.indexOf? "set_coordIndex" = some index
        ∧ (view.table.indexOf? "coordIndex").isSome then
      match view.get? index with
      | some v => Script.publish "coordIndex" v .done
      | none => .done
    else .done

def shape : Blueprint :=
  Blueprint.of "Shape" [.metadata]
    |>.exposed "appearance" (.single .node) (.node none)
    |>.exposed "geometry" (.single .node) (.node none)

def sphere : Blueprint :=
  (Blueprint.of "Sphere" [.metadata]).withBehavior primitive
    |>.field "radius" (.single .float) (.float 1)
    |> solid

def box : Blueprint :=
  (Blueprint.of "Box" [.metadata]).withBehavior primitive
    |>.field "size" (.single .vec3f) (.ofFloats [2, 2, 2])
    |> solid

def lineSet : Blueprint :=
  (Blueprint.of "LineSet" [.metadata]).withBehavior indexed
    |>.exposed "color" (.single .node) (.node none)
    |>.exposed "coord" (.single .node) (.node none)
    |>.exposed "vertexCount" (.multi .int32) indices

def indexedFaceSet : Blueprint :=
  (Blueprint.of "IndexedFaceSet" [.metadata]).withBehavior indexed
    |>.exposed "color" (.single .node) (.node none)
    |>.exposed "coord" (.single .node) (.node none)
    |>.eventIn "set_coordIndex" (.multi .int32)
    |>.field "ccw" (.single .bool) (.bool true)
    |>.field "coordIndex" (.multi .int32) indices
    |>.field "creaseAngle" (.single .float) (.float 0)
    |> solid

def coordinate : Blueprint :=
  Blueprint.of "Coordinate" [.metadata]
    |>.exposed "point" (.multi .vec3f) (.ofFloats [])

end SceneGraph.Standard
