import SceneGraph.Scene.Removal

namespace SceneGraph

/-- The outcome of an operation whose effects stay when it fails. -/
abbrev Attempt := Except Error Unit × Scene

namespace Scene

def modifySlot (s : Scene) (id : NodeId) (f : LoadSlot → LoadSlot) : Scene :=
  s.modifyNode id fun n => { n with load := some (f (n.load.getD {})) }

def warn (s : Scene) (text : String) (cause : Option Error) : Scene :=
  s.report .warning text cause

/-- What listeners hear when the node with its urls at `field` enters `state`. -/
def loadEvent (id : NodeId) (field : Nat) : LoadState → Event
  | .complete => .contentReady id field
  | state => .loadState id field state

def discard (s : Scene) : Option SpaceId → Except Error Scene
  | none => .ok s
  | some sp => s.removeSpace sp

/-- Moves a loadable node to `state`. Leaving a load cancels it, and going back to the beginning
lets go of the content and destroys its space. -/
def setLoadState (s : Scene) (id : NodeId) (state : LoadState) : Attempt :=
  match s.node? id with
  | none => (.error .unknownNode, s)
  | some n =>
    match n.type.url? with
    | none => (.error (.field n.type.name "url" .notLoadable), s)
    | some field =>
      let slot := n.load.getD {}
      if !slot.state.canBecome state then (.error (.loadState slot.state state), s)
      else
        let entered := (s.modifySlot id (·.enter state)).cancel
          (if state = .loading then none else slot.pending)
        match entered.discard (if state = .notLoaded then slot.space else none) with
        | .error e => (.error e, entered)
        | .ok s => (.ok (), s.emit (loadEvent id field state))

def urls (n : Node) : List String :=
  ((n.type.url?.bind fun i => n.values[i]?).bind Value.asStrings?).getD []

/-- Hands the urls of a loading node to the pool under a new ticket. -/
def submit (s : Scene) (id : NodeId) (ticket : Nat) (urls : List String) : Scene :=
  let request : Request := ⟨id, ticket⟩
  let s := s.modifySlot id fun slot => { slot with ticket, pending := some request }
  { s with loader := s.loader.map fun p => p.submit { request, urls } }

/-- Starts loading a node. Without urls or without a provider the load fails at once. -/
def requestLoad (s : Scene) (id : NodeId) : Attempt :=
  match s.node? id with
  | none => (.error .unknownNode, s)
  | some n =>
    match s.setLoadState id .loading with
    | (.error e, s) => (.error e, s)
    | (.ok (), s) =>
      if (urls n).isEmpty then
        (s.warn "Loadable node has no url to load." none).setLoadState id .failed
      else if s.loader.isNone then
        (s.warn "No content provider set; cannot load external content." none).setLoadState id
          .failed
      else (.ok (), s.submit id ((n.load.getD {}).ticket + 1) (urls n))

def cancelLoad (s : Scene) (id : NodeId) : Attempt := s.setLoadState id .notLoaded

/-- Flags every load in flight; the nodes hear of it when the loader is drained. -/
def terminateLoads (s : Scene) : Nat × Scene :=
  match s.loader with
  | none => (0, s)
  | some p => (p.terminate.1, { s with loader := some p.terminate.2 })

def pendingLoads (s : Scene) : Nat := (s.loader.map Pool.inFlight).getD 0

/-- The content that nodes have, that workers are about to post, and that was posted. -/
def held (s : Scene) : List Content :=
  (s.liveNodes.filterMap fun id => ((s.node? id).bind Node.load).bind LoadSlot.content) ++
    ((s.loader.map fun p =>
      p.running.filterMap (fun r => r.outcome?.bind Outcome.content?) ++
        p.completions.filterMap Completion.content?).getD [])

/-- Whether a node starts to load by itself: there is a loader, loading is not switched off, there
is a url, and nothing was loaded yet. -/
def wantsLoad (s : Scene) (id : NodeId) : Bool :=
  match s.node? id with
  | none => false
  | some n =>
    s.loader.isSome && ((n.valueOf? "load").bind Value.asBool?).getD true &&
      (((n.type.url?.bind fun i => n.values[i]?).map Value.validCount).getD 0 != 0) &&
      n.loadState? == some .notLoaded

/-- Goes on with what an attempt leaves; a failure is only warned of. -/
def orWarn (text : String) : Attempt → Scene
  | (.ok (), s) => s
  | (.error e, s) => s.warn text (some e)

def autoLoad (s : Scene) (id : NodeId) : Scene :=
  if s.wantsLoad id then orWarn "Automatic content load failed to start." (s.requestLoad id)
  else s

/-- New urls make the old content void. -/
def urlChanged (s : Scene) (id : NodeId) : Scene :=
  let state := (s.node? id).bind Node.loadState?
  let s :=
    if state.any (· ≠ .notLoaded) then
      orWarn "Could not reset load state." (s.setLoadState id .notLoaded)
    else s
  s.autoLoad id

def loadSwitched (s : Scene) (id : NodeId) (index : Nat) : Scene :=
  match s.node? id with
  | none => s
  | some n =>
    if ((n.values[index]?).bind Value.asBool?).getD true then s.autoLoad id
    else if n.loadState? ≠ some .notLoaded then
      orWarn "Could not unload content." (s.setLoadState id .notLoaded)
    else s

def interrupted (s : Scene) : List NodeId :=
  let loading := s.liveNodes.filterMap fun id =>
    (s.node? id).bind fun n =>
      if n.loadState? = some .loading then some (n.place, id) else none
  (loading.mergeSort fun a b => a.1 ≤ b.1).map Prod.snd

/-- What a failed operation without effects leaves: the scene as it was. -/
def keep (s : Scene) : Except Error Scene → Attempt
  | .ok s => (.ok (), s)
  | .error e => (.error e, s)

/-- Makes an attempt for each of the items in order, up to the first that fails. -/
def inTurn {α : Type} (f : α → Scene → Attempt) : List α → Scene → Attempt
  | [], s => (.ok (), s)
  | a :: rest, s =>
    match f a s with
    | (.error e, s) => (.error e, s)
    | (.ok (), s) => inTurn f rest s

/-- Starts a new pool on `provider`. Loads that the old pool had not finished start again. -/
def setProvider (s : Scene) (provider : Provider) : Attempt :=
  match Pool.new provider s.settings.loaderThreads with
  | .error e => (.error e, s)
  | .ok pool =>
    let ids := s.interrupted
    match inTurn (fun id s => s.setLoadState id .notLoaded) ids s with
    | (.error e, s) => (.error e, s)
    | (.ok (), s) => (.ok (), ids.foldl autoLoad { s with loader := some pool })

/-- One step of the pool. Without `fetches` it waits where it would ask the provider. -/
def workStep (fetches : Bool) (s : Scene) : Scene :=
  match s.loader with
  | none => s
  | some p =>
    let (p, cache) := p.stepFirst fetches s.held s.cache
    { s with loader := some p, cache }

/-- Lets the pool work until it has nothing to do, or waits for a fetch it may not make. -/
def work (fetches : Bool) (s : Scene) : Scene :=
  Nat.repeat (workStep fetches) ((s.loader.map Pool.effort).getD 0) s

end Scene

end SceneGraph
