import SceneGraph.Node.Standard.Appearance
import SceneGraph.Node.Standard.Geometry
import SceneGraph.Node.Standard.Grouping
import SceneGraph.Node.Standard.Information
import SceneGraph.Node.Standard.Interpolator
import SceneGraph.Node.Standard.TimeSensor
import SceneGraph.Node.Standard.Toggle

namespace SceneGraph

structure Catalog where
  types : List NodeType

namespace Catalog

def empty : Catalog := ⟨[]⟩

def size (c : Catalog) : Nat := c.types.length

def get? (c : Catalog) (name : String) : Option NodeType := c.types.find? fun t => t.name = name

def contains (c : Catalog) (name : String) : Bool := (c.get? name).isSome

def unregister (c : Catalog) (name : String) : Catalog :=
  ⟨c.types.filter fun t => t.name ≠ name⟩

/-- A type replaces the one registered under its name before. -/
def register (c : Catalog) (t : NodeType) : Catalog := ⟨(c.unregister t.name).types ++ [t]⟩

def resolve (c : Catalog) (name : String) : Except Error NodeType :=
  match c.get? name with
  | some t => .ok t
  | none => .error (.unknownType name)

def names (c : Catalog) : List String := c.types.map NodeType.name

end Catalog

def Standard.blueprints : List Blueprint :=
  [group, transform, shape, appearance, material, sphere, box, lineSet, indexedFaceSet, coordinate,
    worldInfo, metadataString, timeSensor, scalarInterpolator, positionInterpolator, booleanToggle,
    imageTexture, inlineScene]

def Catalog.standard : Catalog :=
  ⟨Standard.blueprints.filterMap fun b => b.build.toOption⟩

end SceneGraph
