import SceneGraph.Node.Type

namespace SceneGraph.Standard

def worldInfo : Blueprint :=
  Blueprint.of "WorldInfo" [.metadata]
    |>.field "info" (.multi .string) (.ofStrings [])
    |>.field "title" (.single .string) (.string "")

def metadataString : Blueprint :=
  Blueprint.of "MetadataString" [.metadata]
    |>.exposed "name" (.single .string) (.string "")
    |>.exposed "reference" (.single .string) (.string "")
    |>.exposed "value" (.multi .string) (.ofStrings [])

end SceneGraph.Standard
