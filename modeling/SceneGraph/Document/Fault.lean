import SceneGraph.Document.Token
import SceneGraph.Error

namespace SceneGraph

inductive Complaint where
  | strayCharacter
  | expected (wanted : String) (found : Option Token)
  | prototype
  | undefined (name : String)
  | undeclared (name : String)
  | tooWide (n : Int)
  | refused (e : Error)
  deriving DecidableEq

def Complaint.text : Complaint → String
  | strayCharacter => "unexpected character"
  | expected wanted found =>
    "expected " ++ wanted ++ ", found " ++ (found.map Token.describe).getD "end of input"
  | prototype => "prototype declarations are not supported"
  | undefined name => s!"USE of undefined name '{name}'"
  | undeclared name => s!"no declaration for '{name}'"
  | tooWide n => s!"{n} does not fit in 32 bits"
  | refused e => e.message

/-- The line and the column of the byte at `offset`, both counted from one, columns in bytes. -/
def position (offset : Nat) (cs : List Char) : Nat × Nat :=
  go cs 0 1 1
where
  go : List Char → Nat → Nat → Nat → Nat × Nat
    | [], _, line, column => (line, column)
    | c :: cs, here, line, column =>
      if offset ≤ here then (line, column)
      else if c = '\n' then go cs (here + 1) (line + 1) 1
      else go cs (here + c.utf8Size) line (column + c.utf8Size)

def readingError (text : String) (offset : Nat) (message : String) : Error :=
  let (line, column) := position offset text.toList
  .reading line column message

/-- What ends the reading of a text: a complaint about what stands at one of its bytes, or a refusal
of the scene that no place in the text is to blame for. -/
inductive Fault where
  | textual (offset : Nat) (complaint : Complaint)
  | refusal (e : Error)
  deriving DecidableEq

def Fault.error (text : String) : Fault → Error
  | textual offset complaint => readingError text offset complaint.text
  | refusal e => e

end SceneGraph
