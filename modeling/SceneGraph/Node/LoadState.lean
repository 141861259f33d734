namespace SceneGraph

inductive LoadState where
  | notLoaded
  | loading
  | complete
  | failed
  deriving DecidableEq, Repr

namespace LoadState

def name : LoadState → String
  | notLoaded => "NotLoaded"
  | loading => "Loading"
  | complete => "Complete"
  | failed => "Failed"

def text : LoadState → String
  | notLoaded => "not loaded"
  | loading => "loading"
  | complete => "complete"
  | failed => "failed"

/-- A load starts from `notLoaded`, ends in any other state, and every state returns to
`notLoaded`. -/
def canBecome : LoadState → LoadState → Bool
  | notLoaded, loading => true
  | loading, complete | loading, failed | loading, notLoaded => true
  | complete, notLoaded | failed, notLoaded => true
  | _, _ => false

end LoadState

end SceneGraph
