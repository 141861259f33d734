import SceneGraph.Error
import SceneGraph.Handle

namespace SceneGraph

inductive Event where
  | fieldChanged (node : NodeId) (field : Nat)
  | loadState (node : NodeId) (field : Nat) (state : LoadState)
  | contentReady (node : NodeId) (field : Nat)
  | tickFinished (time : Double) (fired : Nat)
  deriving DecidableEq, Repr

inductive Severity where
  | message
  | warning
  | error
  | fatal
  deriving DecidableEq, Repr

def Severity.name : Severity → String
  | .message => "Message"
  | .warning => "Warning"
  | .error => "Error"
  | .fatal => "Fatal"

structure Report where
  severity : Severity
  text : String
  cause : Option Error
  deriving DecidableEq, Repr

inductive Entry where
  | event (e : Event)
  | report (r : Report)
  | note (text : String)
  deriving DecidableEq, Repr

abbrev Journal := List Entry

namespace Journal

def events (j : Journal) : List Event :=
  j.filterMap fun
    | .event e => some e
    | _ => none

def reports (j : Journal) : List Report :=
  j.filterMap fun
    | .report r => some r
    | _ => none

def notes (j : Journal) : List String :=
  j.filterMap fun
    | .note text => some text
    | _ => none

end Journal

def countSeverity (reports : List Report) (s : Severity) : Nat :=
  (reports.filter fun r => r.severity = s).length

end SceneGraph
