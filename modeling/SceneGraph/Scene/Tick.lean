import SceneGraph.Scene.Delivery

namespace SceneGraph

structure Tally where
  time : Double
  fired : Nat := 0
  /-- Deliveries that the destination refused. -/
  errors : Nat := 0
  /-- Routes met again after they had fired. -/
  loops : Nat := 0
  loads : Nat := 0
  /-- Whether the limit of firings cut a cascade short. -/
  truncated : Bool := false
  deriving DecidableEq

def Tally.count (t : Tally) (delivered : Bool) : Tally :=
  { t with fired := t.fired + 1, errors := if delivered then t.errors else t.errors + 1 }

structure HookWrite where
  node : NodeId
  target : Target
  value : Value

/-- What a hook does in one tick: it may look at the scene and set fields. -/
abbrev HookProgram := Program Scene HookWrite (Except Error Unit)

namespace Scene

def advanceClock (s : Scene) (requested : Double) : Except Error (Double × Scene) := do
  if !requested.isFinite then
    throw (.other s!"tick time {requested} is not finite")
  match s.time with
  | some previous =>
    if requested < previous then
      if s.settings.rejectRegression then throw (.earlier previous requested)
      return (previous,
        s.warn s!"Tick time {requested} is before {previous}; clamped." none)
    return (requested, { s with time := some requested })
  | none => return (requested, { s with time := some requested })

/-- Whether a sensor is switched on; without a switch it is. -/
def isEnabled (n : Node) : Bool :=
  ((n.type.enabled?.bind fun i => n.values[i]?).bind Value.asBool?).getD true

def tickSensor (s : Scene) (id : NodeId) : Scene :=
  match s.node? id with
  | none => s
  | some n => if n.inSetup || !isEnabled n then s else s.perform id Behavior.tick

def tickSensors (s : Scene) : Scene := s.sensors.foldl tickSensor s

def send (s : Scene) (r : Route) : Except Error Scene := do
  s.setValue r.dest r.destField (← s.value r.source r.sourceField)

def routesFor (s : Scene) (id : NodeId) (field : Nat) : List Route :=
  match (s.node? id).bind fun n => s.space? n.space with
  | none => []
  | some sp => sp.routesFrom id field

def fire (s : Scene) (r : Route) : Bool × Scene :=
  match s.send r with
  | .ok s => (true, s)
  | .error e => (false, s.report .error ("Route " ++ r.text ++ " could not deliver.") (some e))

def truncate (s : Scene) (t : Tally) : Tally × Scene :=
  ({ t with truncated := true },
    { s with pending := [] }.warn
      s!"Cascade stopped after {t.fired} route firings; pending events dropped." none)

/-- Works off the routes that wait to fire and then the queued changes, oldest first. A route fires
once; `limit` bounds the firings of the tick. -/
def cascade (limit : Nat) (waiting fired : List Route) (t : Tally) (s : Scene) : Tally × Scene :=
  match waiting with
  | r :: waiting =>
    if r ∈ fired then cascade limit waiting fired { t with loops := t.loops + 1 } s
    else if limit ≤ t.fired then s.truncate t
    else
      let (delivered, s) := s.fire r
      cascade limit waiting (r :: fired) (t.count delivered) s
  | [] =>
    match _h : s.pending with
    | [] => (t, s)
    | (id, field) :: pending =>
      cascade limit (s.routesFor id field) fired t { s with pending }
termination_by (limit - t.fired, s.pending.length, waiting.length)
decreasing_by
  · exact Prod.Lex.right _ (Prod.Lex.right _ (Nat.lt_succ_self _))
  · exact Prod.Lex.left _ _ (by simp only [Tally.count]; omega)
  · exact Prod.Lex.right _ (Prod.Lex.left _ _ (by simp only [_h, List.length_cons]; omega))

def hookHost : Program.Host Scene HookWrite (Except Error Unit) Scene where
  view := id
  act s w :=
    match s.set w.node w.target w.value with
    | .ok s => (s, .ok ())
    | .error e => (s, .error e)
  note s text := s.log [.note text]

def runHook (s : Scene) (p : HookProgram) : Scene := p.run hookHost s

/-- One tick: finished loads are applied, enabled sensors ticked, changes cascade along the routes,
then the hooks run, and what they changed cascades anew. Only a bad time makes it fail. -/
def tick (s : Scene) (hooks : List HookProgram) (requested : Double) :
    Except Error (Tally × Scene) := do
  let (time, s) ← s.advanceClock requested
  let (loads, s) := s.drainLoads
  let limit := s.settings.cascadeSteps
  let (t, s) := cascade limit [] [] { time, loads } s.tickSensors
  let (t, s) :=
    if hooks.isEmpty then (t, s) else cascade limit [] [] t (hooks.foldl runHook s)
  return (t, s.emit (.tickFinished time t.fired))

end Scene

end SceneGraph
