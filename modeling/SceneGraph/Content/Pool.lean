import SceneGraph.Content.Cache
import SceneGraph.Handle

namespace SceneGraph

/-- One load of one node. Later requests of the node have larger tickets. -/
structure Request where
  node : NodeId
  ticket : Nat
  deriving DecidableEq, Repr

inductive Outcome where
  | loaded (content : Content)
  | failed (reason : String)
  | cancelled

def Outcome.content? : Outcome → Option Content
  | loaded content => some content
  | failed _ | cancelled => none

structure Completion where
  request : Request
  outcome : Outcome

def Completion.content? (c : Completion) : Option Content := c.outcome.content?

structure Job where
  request : Request
  urls : List String
  cancelled : Bool := false
  /-- What the pool knows the job by. -/
  number : Nat := 0

/-- How far a worker is with its job. It has urls left to try, or waits for a fetch. A job that has
ended is struck off the active ones first, then its completion is posted, and last it is counted
off. -/
inductive Stage where
  | trying (urls : List String) (failure : Option String)
  | fetching (url : String) (rest : List String) (failure : Option String)
  | ended (outcome : Outcome)
  | struck (outcome : Outcome)
  | posted

structure Run where
  job : Job
  stage : Stage

namespace Run

/-- The stage that the worker's next step leads to. A cancelled job ends, cached content is taken
before the provider is asked, and a failed url gives way to the next. -/
def step (r : Run) (provider : Provider) (held : List Content) (cache : Cache) : Stage × Cache :=
  match r.stage with
  | .trying [] failure => (.ended (.failed (failure.getD "no url to load")), cache)
  | .trying (url :: rest) failure =>
    if r.job.cancelled then (.ended .cancelled, cache)
    else
      match cache.get held url with
      | (some content, cache) => (.ended (.loaded content), cache)
      | (none, cache) => (.fetching url rest failure, cache)
  | .fetching url rest _ =>
    if r.job.cancelled then (.ended .cancelled, cache)
    else
      match provider.fetch url with
      | .ok bytes =>
        let (content, cache) := cache.mint url bytes
        (.ended (.loaded content), cache.insert url content)
      | .error e => (.trying rest (some (url ++ ": " ++ e.message)), cache)
  | .ended outcome => (.struck outcome, cache)
  | .struck _ | .posted => (.posted, cache)

def awaitsFetch (r : Run) : Bool :=
  match r.stage with
  | .fetching .. => !r.job.cancelled
  | .trying .. | .ended _ | .struck _ | .posted => false

/-- What the worker holds of a job that has ended. -/
def outcome? (r : Run) : Option Outcome :=
  match r.stage with
  | .ended outcome | .struck outcome => some outcome
  | .trying .. | .fetching .. | .posted => none

def effort (r : Run) : Nat :=
  match r.stage with
  | .trying urls _ => 2 * urls.length + 4
  | .fetching _ rest _ => 2 * rest.length + 5
  | .ended _ => 3
  | .struck _ => 2
  | .posted => 1

end Run

/-- Workers that fetch content. Jobs wait in the order they were sent; what was posted waits to be
drained. -/
structure Pool where
  provider : Provider
  workers : Nat
  queue : List Job
  running : List Run
  /-- The numbers of the jobs that a termination would flag. -/
  active : List Nat
  completions : List Completion
  /-- How many numbers were given to jobs. -/
  issued : Nat
  /-- How many jobs were counted in and not counted off yet. -/
  inFlight : Nat

namespace Pool

def new (provider : Provider) (workers : Nat) : Except Error Pool :=
  if workers = 0 then .error (.settings .noWorker)
  else .ok ⟨provider, workers, [], [], [], [], 0, 0⟩

section submission

/-- Gives a number to a job. -/
def issue (p : Pool) : Nat × Pool := (p.issued, { p with issued := p.issued + 1 })

def enroll (p : Pool) (number : Nat) : Pool := { p with active := p.active ++ [number] }

def countIn (p : Pool) : Pool := { p with inFlight := p.inFlight + 1 }

def send (p : Pool) (job : Job) : Pool := { p with queue := p.queue ++ [job] }

def submit (p : Pool) (job : Job) : Pool :=
  let (number, p) := p.issue
  ((p.enroll number).countIn).send { job with number }

end submission

/-- Marks as cancelled the jobs that `hit` picks. -/
def mark (p : Pool) (hit : Job → Bool) : Pool :=
  let mark (job : Job) : Job := { job with cancelled := job.cancelled || hit job }
  { p with
    queue := p.queue.map mark
    running := p.running.map fun r => { r with job := mark r.job } }

def flag (p : Pool) (requests : List Request) : Pool :=
  p.mark fun job => decide (job.request ∈ requests)

/-- Flags every job not flagged this way before, and counts them. -/
def terminate (p : Pool) : Nat × Pool :=
  (p.active.length, { p.mark fun job => decide (job.number ∈ p.active) with active := [] })

def drain (p : Pool) : List Completion × Pool := (p.completions, { p with completions := [] })

section worker

def take (p : Pool) : Pool :=
  match p.queue with
  | [] => p
  | job :: queue =>
    if p.running.length < p.workers then
      { p with queue, running := p.running ++ [⟨job, .trying job.urls none⟩] }
    else p

def enter (p : Pool) (i : Nat) (r : Run) (stage : Stage) : Pool :=
  { p with running := p.running.set i { r with stage } }

def strike (p : Pool) (number : Nat) : Pool := { p with active := p.active.erase number }

def post (p : Pool) (c : Completion) : Pool := { p with completions := p.completions ++ [c] }

/-- The worker counts its job off and is free. -/
def leave (p : Pool) (i : Nat) : Pool :=
  { p with running := p.running.eraseIdx i, inFlight := p.inFlight - 1 }

/-- What the step of a worker to `stage` does to the pool. -/
def proceed (p : Pool) (i : Nat) (r : Run) (stage : Stage) : Pool :=
  match r.stage with
  | .trying .. | .fetching .. => p.enter i r stage
  | .ended _ => (p.strike r.job.number).enter i r stage
  | .struck outcome => (p.post ⟨r.job.request, outcome⟩).enter i r stage
  | .posted => p.leave i

def advance (p : Pool) (i : Nat) (held : List Content) (cache : Cache) : Pool × Cache :=
  match p.running[i]? with
  | none => (p, cache)
  | some r =>
    let (stage, cache) := r.step p.provider held cache
    (p.proceed i r stage, cache)

end worker

/-- One step of a pool that works on one job at a time. Without `fetches` a worker that needs the
provider waits. -/
def stepFirst (p : Pool) (fetches : Bool) (held : List Content) (cache : Cache) : Pool × Cache :=
  match p.running with
  | [] => (p.take, cache)
  | r :: _ => if r.awaitsFetch && !fetches then (p, cache) else p.advance 0 held cache

def effort (p : Pool) : Nat :=
  (p.queue.map fun job => 2 * job.urls.length + 5).foldr (· + ·) 0 +
    (p.running.map Run.effort).foldr (· + ·) 0

end Pool

end SceneGraph
