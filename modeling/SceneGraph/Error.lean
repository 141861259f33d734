import SceneGraph.Field.Type
import SceneGraph.Node.LoadState
import SceneGraph.Number.Decimal

namespace SceneGraph

inductive FieldFault where
  | unknown
  | outOfRange (fields : Nat)
  | eventOut
  | locked
  | kind (declared : FieldType) (given : Kind)
  | badDefault (cause : String)
  | nameTaken (spelling owner : String)
  | notLoadable
  | other (text : String)
  deriving DecidableEq, Repr

def FieldFault.text : FieldFault → String
  | unknown => "no such field"
  | outOfRange n => s!"index out of range (type has {n} fields)"
  | eventOut => "eventOut fields are written only by their node"
  | locked => "initialize-only field can only be set during setup"
  | kind t k => t.name ++ " field does not accept a " ++ k.name ++ " value"
  | badDefault cause => cause
  | nameTaken spelling owner => s!"name '{spelling}' already resolves to field '{owner}'"
  | notLoadable => "node type is not loadable"
  | other text => text

inductive ValueFault where
  | notExactly (type : FieldType) (count : Nat)
  | notMultiple (type : FieldType) (count : Nat)
  | countTooLarge (count length : Nat)
  | refused (reason : String)
  deriving DecidableEq, Repr

def ValueFault.text : ValueFault → String
  | notExactly t n => t.name ++ s!" needs exactly {t.components} components, got {n}"
  | notMultiple t n => t.name ++ s!" needs a multiple of {t.components} components, got {n}"
  | countTooLarge n length => s!"count {n} exceeds array length {length}"
  | refused reason => reason

/-- Why a route is not admitted or its statement not understood. -/
inductive RouteFault where
  | statement (text : String)
  | endpoint (text : String)
  | foreignEnd
  | noField (type : String) (index : Nat)
  | notReadable (type field : String) (access : Access)
  | notWritable (type field : String) (access : Access)
  | mismatch (sourceType sourceField : String) (source : FieldType)
      (destType destField : String) (dest : FieldType)
  | unnamed (name statement : String)
  | unresolved (statement cause : String)
  | other (text : String)
  deriving DecidableEq, Repr

def RouteFault.text : RouteFault → String
  | statement s => s!"expected 'ROUTE A.x TO B.y', got '{s}'"
  | endpoint s => s!"expected 'Node.field', got '{s}'"
  | foreignEnd => "both ends must belong to the space adding the route"
  | noField type index => s!"{type} has no field #{index}"
  | notReadable type field access =>
    s!"{type}.{field} is an " ++ access.keyword ++ " and cannot be routed from"
  | notWritable type field access =>
    s!"{type}.{field} is an " ++ access.keyword ++ " and cannot be routed to"
  | mismatch st sf s dt df d => s!"type mismatch: {st}.{sf} is {s}, {dt}.{df} is {d}"
  | unnamed name source => s!"no node named '{name}' in {source}"
  | unresolved source cause => s!"{source}: {cause}"
  | other text => text

inductive SettingsFault where
  | loaderThreads
  | cascadeSteps
  | noWorker
  | other (text : String)
  deriving DecidableEq, Repr

def SettingsFault.text : SettingsFault → String
  | loaderThreads => "max_loader_threads must be >= 1"
  | cascadeSteps => "max_cascade_steps must be >= 1"
  | noWorker => "loader needs at least one thread"
  | other text => text

inductive ContentFault where
  | missing (url : String)
  | cancelled
  | notText (url : String)
  | other (text : String)
  deriving DecidableEq, Repr

def ContentFault.text : ContentFault → String
  | missing url => s!"no content for '{url}'"
  | cancelled => "load cancelled"
  | notText url => s!"'{url}' is not UTF-8 text"
  | other text => text

inductive Error where
  | field (type name : String) (fault : FieldFault)
  | value (type name : String) (fault : ValueFault)
  | route (fault : RouteFault)
  | unknownType (name : String)
  | unknownNode
  | unknownSpace
  | loadState (source target : LoadState)
  | reading (line column : Nat) (message : String)
  | earlier (previous requested : Double)
  | settings (fault : SettingsFault)
  | content (fault : ContentFault)
  | io
  | other (text : String)
  deriving DecidableEq, Repr

namespace Error

def message : Error → String
  | field type name fault => s!"invalid field '{name}' on {type}: " ++ fault.text
  | value type name fault => s!"invalid value for field '{name}' on {type}: " ++ fault.text
  | route fault => "invalid route: " ++ fault.text
  | unknownType name => s!"unknown node type '{name}'"
  | unknownNode => "node does not exist in this scene"
  | unknownSpace => "execution space does not exist in this scene"
  | loadState s t => "illegal load state transition " ++ s.name ++ " -> " ++ t.name
  | reading line column message => s!"parse error at {line}:{column}: {message}"
  | earlier previous requested =>
    s!"timestamp {requested} is earlier than the previous tick at {previous}"
  | settings fault => "invalid configuration: " ++ fault.text
  | content fault => "content error: " ++ fault.text
  | io => ""
  | other text => text

def isFieldError : Error → Bool
  | field .. | value .. => true
  | _ => false

end Error

end SceneGraph
