import SceneGraph.Scene.Reading

namespace SceneGraph.Scene

def complete (s : Scene) (id : NodeId) (content : Content) (space : Option SpaceId) : Attempt :=
  (s.modifySlot id fun slot => { slot with content := some content, space }).setLoadState id
    .complete

/-- Gives a loading node its content. A scene is read into a new space below the node's; a text
that cannot be read fails the load and leaves no space. -/
def applyContent (s : Scene) (id : NodeId) (content : Content) : Attempt :=
  match s.node? id with
  | none => (.error .unknownNode, s)
  | some n =>
    match n.type.content with
    | .bytes => s.complete id content none
    | .scene =>
      match content.text? with
      | none =>
        (s.report .fatal "Inline content could not be read."
          (some (.content (.notText content.url)))).setLoadState id .failed
      | some text =>
        match s.openSpace .inline n.space (some id) with
        | .error e => (.error e, s)
        | .ok (sp, s) =>
          match s.load sp text with
          | (.ok _, s) => s.complete id content (some sp)
          | (.error _, s) =>
            match s.removeSpace sp with
            | .error e => (.error e, s)
            | .ok s => s.setLoadState id .failed

/-- Whether a completion answers the node's latest request, and the node still waits for it. -/
def awaits (s : Scene) (c : Completion) : Bool :=
  ((s.node? c.request.node).bind Node.load).any fun slot =>
    slot.ticket = c.request.ticket && slot.state = .loading

def applyCompletion (s : Scene) (c : Completion) : Attempt :=
  match c.outcome with
  | .loaded content => s.applyContent c.request.node content
  | .failed reason =>
    (s.warn ("Content load failed: " ++ reason) none).setLoadState c.request.node .failed
  | .cancelled => s.setLoadState c.request.node .notLoaded

/-- Applies completions in order and counts them; late ones are dropped. -/
def applyCompletions : List Completion → Scene → Nat × Scene
  | [], s => (0, s)
  | c :: rest, s =>
    if s.awaits c then
      let s := match s.applyCompletion c with
        | (.ok (), s) => s
        | (.error e, s) => s.report .error "Could not apply a load result." (some e)
      let (n, s) := applyCompletions rest s
      (n + 1, s)
    else applyCompletions rest s

def drainLoads (s : Scene) : Nat × Scene :=
  match s.loader with
  | none => (0, s)
  | some p => applyCompletions p.drain.1 { s with loader := some p.drain.2 }

end SceneGraph.Scene
