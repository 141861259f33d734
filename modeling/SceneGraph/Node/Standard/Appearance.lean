import SceneGraph.Node.Type

namespace SceneGraph.Standard

def inUnitRange (x : Single) : Bool := (0 : Single).le x && x.le 1

/-- Intensities and color components lie in the unit range. -/
def bounded : Behavior where
  validate _ _ d v :=
    let ok := match v with
      | .float x => inUnitRange x
      | .floats a => a.toList.all inUnitRange
      | _ => true
    if ok then .ok () else .error (d.name ++ " must lie within [0, 1]")

def appearance : Blueprint :=
  Blueprint.of "Appearance" [.metadata]
    |>.exposed "material" (.single .node) (.node none)
    |>.exposed "texture" (.single .node) (.node none)

def material : Blueprint :=
  (Blueprint.of "Material" [.metadata]).withBehavior bounded
    |>.exposed "ambientIntensity" (.single .float) (.float 0.2)
    |>.exposed "diffuseColor" (.single .color) (.ofFloats [0.8, 0.8, 0.8])
    |>.exposed "emissiveColor" (.single .color) (.ofFloats [0, 0, 0])
    |>.exposed "shininess" (.single .float) (.float 0.2)
    |>.exposed "specularColor" (.single .color) (.ofFloats [0, 0, 0])
    |>.exposed "transparency" (.single .float) (.float 0)

def imageTexture : Blueprint :=
  Blueprint.of "ImageTexture" [.metadata, .loadable]
    |>.field "repeatS" (.single .bool) (.bool true)
    |>.field "repeatT" (.single .bool) (.bool true)

end SceneGraph.Standard
