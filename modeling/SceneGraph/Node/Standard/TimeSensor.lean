import SceneGraph.Node.Type

namespace SceneGraph.Standard

namespace TimeSensor

structure Timing where
  now : Double
  start : Double
  stop : Double
  interval : Double
  loop : Bool
  wasActive : Bool
  cycleTime : Double

def boolField (v : NodeView) (name : String) : Bool :=
  ((v.named? name).bind Value.asBool?).getD false

def doubleField (v : NodeView) (name : String) : Double :=
  ((v.named? name).bind Value.asDouble?).getD 0

def Timing.ofView (v : NodeView) : Timing where
  now := v.time
  start := doubleField v "startTime"
  stop := doubleField v "stopTime"
  interval := doubleField v "cycleInterval"
  loop := boolField v "loop"
  wasActive := boolField v "isActive"
  cycleTime := doubleField v "cycleTime"

namespace Timing

variable (t : Timing)

def elapsed : Double := t.now - t.start

/-- A stop at or before the start is no stop. -/
def beforeStop : Bool := t.stop.le t.start || t.now.lt t.stop

def active : Bool :=
  t.start.le t.now && t.beforeStop && (t.loop || t.elapsed.lt t.interval)

def cycleStart : Double := t.start + (t.elapsed / t.interval).floor * t.interval

def fraction : Single := ((t.elapsed % t.interval) / t.interval).convert .single

def outputs : List (String × Value) :=
  if t.interval.le 0 then []
  else if t.active then
    (if t.wasActive then [] else [("isActive", .bool true)]) ++
    (if !t.wasActive || t.cycleTime.lt t.cycleStart then [("cycleTime", .double t.cycleStart)]
      else []) ++
    [("fraction_changed", .float t.fraction), ("time", .double t.now)]
  else if t.wasActive then
    (if !t.loop && t.beforeStop && t.interval.le t.elapsed then [("fraction_changed", .float 1)]
      else []) ++
    [("time", .double t.now), ("isActive", .bool false)]
  else []

end Timing

def publishAll (outputs : List (String × Value)) : Script :=
  outputs.foldr (fun o rest => Script.publish o.1 o.2 rest) .done

def switched (index : Nat) (v : NodeView) : List (String × Value) :=
  if v.table.indexOf? "enabled" = some index ∧ !boolField v "enabled" ∧ boolField v "isActive" then
    [("isActive", .bool false)]
  else []

def behavior : Behavior where
  validate _ _ d v :=
    if d.name = "cycleInterval" ∧ v.asDouble?.any fun c => !(0 : Double).lt c then
      .error "cycleInterval must be greater than 0"
    else .ok ()
  fieldChanged index := .look fun v => publishAll (switched index v)
  tick := .look fun v => publishAll (Timing.ofView v).outputs

end TimeSensor

def timeSensor : Blueprint :=
  (Blueprint.of "TimeSensor" [.metadata, .sensor]).withBehavior TimeSensor.behavior
    |>.exposed "cycleInterval" (.single .time) (.double 1)
    |>.exposed "loop" (.single .bool) (.bool false)
    |>.exposed "startTime" (.single .time) (.double 0)
    |>.exposed "stopTime" (.single .time) (.double 0)
    |>.eventOut "cycleTime" (.single .time)
    |>.eventOut "fraction_changed" (.single .float)
    |>.eventOut "time" (.single .time)

end SceneGraph.Standard
