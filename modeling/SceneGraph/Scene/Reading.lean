import SceneGraph.Document.Lexer
import SceneGraph.Document.Reader
import SceneGraph.Scene.Routing

namespace SceneGraph.Scene

/-- Adds the route of a statement; one that cannot be added is skipped with a warning. -/
def addStatementOrWarn (text : String) (sp : SpaceId) (s : Scene) (r : Statement × Nat) : Scene :=
  match s.addStatement sp r.1 with
  | .ok (_, s) => s
  | .error (.route fault) =>
    s.warn "Skipping unresolved route." (some (readingError text r.2 fault.text))
  | .error e => s.warn "Skipping unresolved route." (some e)

/-- Completes a text that was read: its top-level nodes become roots, its routes are added, and the
setup of its nodes ends. -/
def commit (sp : SpaceId) (text : String) (roots : List NodeId) (d : Draft) : Attempt :=
  match inTurn (fun id s => s.keep ((s.addRoot sp id).map Prod.snd)) roots d.scene with
  | (.error e, s) => (.error e, s)
  | (.ok (), s) =>
    inTurn (fun id s => s.keep (s.finishSetup id)) d.created
      (d.routes.foldl (addStatementOrWarn text sp) s)

/-- Reads a text into a space. The result is the nodes at its top level. A text with a fault is
given up. -/
def load (s : Scene) (sp : SpaceId) (text : String) : Except Error (List NodeId) × Scene :=
  let fail (s : Scene) (e : Error) : Except Error (List NodeId) × Scene :=
    (.error e, s.report .fatal "Scene content could not be read." (some e))
  if !s.hasSpace sp then (.error .unknownSpace, s)
  else
    match Lexer.tokenize text with
    | .error offset => fail s (readingError text offset Complaint.strayCharacter.text)
    | .ok tokens =>
      match Reader.document ⟨sp, text.utf8ByteSize⟩ ⟨s, [], []⟩ tokens with
      | .error (fault, d) => fail d.rollBack (fault.error text)
      | .ok (roots, d) =>
        match commit sp text roots d with
        | (.ok (), s) => (.ok roots, s)
        | (.error e, s) => (.error e, s)

end SceneGraph.Scene
