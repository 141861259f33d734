import SceneGraph.Error

namespace SceneGraph

structure Settings where
  loaderThreads : Nat := 4
  cascadeSteps : Nat := 100000
  /-- Whether a tick before the last one is refused; otherwise it runs at the time of the last. -/
  rejectRegression : Bool := true
  deriving DecidableEq, Repr

def Settings.validate (s : Settings) : Except Error Unit :=
  if s.loaderThreads = 0 then .error (.settings .loaderThreads)
  else if s.cascadeSteps = 0 then .error (.settings .cascadeSteps)
  else .ok ()

end SceneGraph
