import SceneGraph.Node.Type

namespace SceneGraph.Standard

/-- Each TRUE that arrives flips the state. -/
def toggling : Behavior where
  fieldChanged index := .look fun v =>
    if v.table.indexOf? "set_boolean" = some index
        ∧ (v.get? index).bind Value.asBool? = some true then
      Script.publish "toggle" (.bool !(((v.named? "toggle").bind Value.asBool?).getD false)) .done
    else .done

def booleanToggle : Blueprint :=
  (Blueprint.of "BooleanToggle" [.metadata]).withBehavior toggling
    |>.eventIn "set_boolean" (.single .bool)
    |>.exposed "toggle" (.single .bool) (.bool false)

end SceneGraph.Standard
