namespace SceneGraph

/-- Logic that a host runs against a state it does not hold itself: it looks at a view of the
state, asks for writes and hears how each one went, and leaves notes. -/
inductive Program (View Write Answer : Type) where
  | done
  | look (next : View → Program View Write Answer)
  | act (write : Write) (next : Answer → Program View Write Answer)
  | note (text : String) (next : Program View Write Answer)

namespace Program

variable {View Write Answer State : Type}

/-- What a host offers to programs. -/
structure Host (View Write Answer State : Type) where
  view : State → View
  act : State → Write → State × Answer
  note : State → String → State

def run (host : Host View Write Answer State) : Program View Write Answer → State → State
  | done, s => s
  | look next, s => run host (next (host.view s)) s
  | act w next, s => run host (next (host.act s w).2) (host.act s w).1
  | note text next, s => run host next (host.note s text)

end Program

end SceneGraph
