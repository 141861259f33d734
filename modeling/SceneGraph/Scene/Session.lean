import SceneGraph.Scene.Tick

namespace SceneGraph

/-- A hook runs at the end of every tick. What it does may depend on how often it ran before. -/
structure Hook where
  program : Nat → HookProgram
  calls : Nat := 0

structure Session where
  scene : Scene
  hooks : List Hook := []

namespace Session

def addHook (s : Session) (program : Nat → HookProgram) : Session :=
  { s with hooks := s.hooks ++ [{ program }] }

def tick (s : Session) (requested : Double) : Except Error (Tally × Session) := do
  let (t, scene) ← s.scene.tick (s.hooks.map fun h => h.program h.calls) requested
  return (t, ⟨scene, s.hooks.map fun h => { h with calls := h.calls + 1 }⟩)

def summary (s : Session) : String :=
  let time := match s.scene.time with
    | some t => "Some(" ++ t.explicitText ++ ")"
    | none => "None"
  s!"Scene \x7b nodes: {s.scene.nodes.size}, spaces: {s.scene.spaces.size}, " ++
    s!"pending: {s.scene.pending.length}, time: " ++ time ++ ", .. \x7d"

end Session

end SceneGraph
