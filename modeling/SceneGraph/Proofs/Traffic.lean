import Mathlib
import SceneGraph.Content.Pool

/-!
A pool at work.

A submission takes four steps. In between there may come other submissions, flags, terminations and
drains, and the steps of the workers. Whatever the order, each job is posted once before it is
counted off.
-/

namespace SceneGraph

/-- What the pool knows a job by, and what it is for. -/
def Job.tag (job : Job) : Nat × Request := (job.number, job.request)

/-- A submission under way: its job has a number, or is among the active ones, or is counted in. -/
inductive Offer where
  | numbered (job : Job)
  | enrolled (job : Job)
  | counted (job : Job)

namespace Offer

def job : Offer → Job
  | numbered job | enrolled job | counted job => job

def map (f : Job → Job) : Offer → Offer
  | numbered job => numbered (f job)
  | enrolled job => enrolled (f job)
  | counted job => counted (f job)

/-- The job, once it is counted in. -/
def begun : Offer → List (Nat × Request)
  | counted job => [job.tag]
  | numbered _ | enrolled _ => []

@[simp] theorem job_numbered (job : Job) : (numbered job).job = job := rfl

@[simp] theorem job_enrolled (job : Job) : (enrolled job).job = job := rfl

@[simp] theorem job_counted (job : Job) : (counted job).job = job := rfl

@[simp] theorem begun_numbered (job : Job) : (numbered job).begun = [] := rfl

@[simp] theorem begun_enrolled (job : Job) : (enrolled job).begun = [] := rfl

@[simp] theorem begun_counted (job : Job) : (counted job).begun = [job.tag] := rfl

end Offer

namespace Run

/-- What the next step of the worker posts. -/
def posting (r : Run) : List (Nat × Completion) :=
  match r.stage with
  | .struck outcome => [(r.job.number, ⟨r.job.request, outcome⟩)]
  | .trying .. | .fetching .. | .ended _ | .posted => []

/-- The job, once its completion is posted. -/
def spent (r : Run) : List (Nat × Request) :=
  match r.stage with
  | .posted => [r.job.tag]
  | .trying .. | .fetching .. | .ended _ | .struck _ => []

theorem spent_eq_nil {r : Run} (h : r.stage ≠ .posted) : r.spent = [] := by
  unfold spent
  split
  · next hs => exact absurd hs h
  all_goals rfl

theorem spent_posted {r : Run} (h : r.stage = .posted) : r.spent = [r.job.tag] := by
  rw [spent, h]

theorem effort_step_lt {r : Run} (h : r.stage ≠ .posted) (provider : Provider)
    (held : List Content) (cache : Cache) :
    effort { r with stage := (r.step provider held cache).1 } < r.effort := by
  cases hs : r.stage with
  | posted => exact absurd hs h
  | ended | struck => simp [effort, step, hs]
  | fetching url rest failure =>
    rw [step, hs]
    dsimp only
    split
    · simp [effort, hs]
    split
    · simp [effort, hs]
    · simp [effort, hs]
  | trying urls failure =>
    cases urls with
    | nil => simp [effort, step, hs]
    | cons url rest =>
      rw [step, hs]
      dsimp only
      split
      · simp [effort, hs]
      split
      · simp [effort, hs]
      · simp [effort, hs]
        omega

/-- What is done once the completion is posted is no more than counting off. -/
theorem step_posted {r : Run} {provider : Provider} {held : List Content} {cache : Cache}
    (h : (r.step provider held cache).1 = .posted) :
    (∃ outcome, r.stage = .struck outcome) ∨ r.stage = .posted := by
  unfold step at h
  split at h
  · cases h
  · split at h
    · cases h
    split at h <;> cases h
  · split at h
    · cases h
    split at h <;> cases h
  · cases h
  · next hs => exact .inl ⟨_, hs⟩
  · next hs => exact .inr hs

end Run

/-- A pool with the submissions under way, and what became of its jobs: those that were counted in,
what was posted for them, those that were counted off, and what was drained. -/
structure Traffic where
  pool : Pool
  offers : List Offer := []
  started : List (Nat × Request) := []
  posts : List (Nat × Completion) := []
  left : List (Nat × Request) := []
  drained : List Completion := []

namespace Traffic

/-- A step of a worker: it takes a job, or goes on with the one it has. A provider need not answer
alike each time. -/
inductive Works : Traffic → Traffic → Prop
  | take {w job queue} (hq : w.pool.queue = job :: queue)
      (free : w.pool.running.length < w.pool.workers) : Works w { w with pool := w.pool.take }
  | go {w i r} (hr : w.pool.running[i]? = some r) (provider held cache) :
      Works w { w with
        pool := w.pool.proceed i r (r.step provider held cache).1
        posts := w.posts ++ r.posting
        left := w.left ++ r.spent }

/-- A step of a submission. -/
inductive Submits : Traffic → Traffic → Prop
  | number (w) (job : Job) : Submits w { w with
      pool := w.pool.issue.2
      offers := w.offers ++ [.numbered { job with number := w.pool.issue.1 }] }
  | enroll {w i job} (h : w.offers[i]? = some (.numbered job)) : Submits w { w with
      pool := w.pool.enroll job.number
      offers := w.offers.set i (.enrolled job) }
  | countIn {w i job} (h : w.offers[i]? = some (.enrolled job)) : Submits w { w with
      pool := w.pool.countIn
      offers := w.offers.set i (.counted job)
      started := w.started ++ [job.tag] }
  | send {w i job} (h : w.offers[i]? = some (.counted job)) : Submits w { w with
      pool := w.pool.send job
      offers := w.offers.eraseIdx i }

/-- Jobs are cancelled, also those that are being submitted, or completions are fetched. -/
inductive Steers : Traffic → Traffic → Prop
  | flag (w requests) : Steers w { w with
      pool := w.pool.flag requests
      offers := w.offers.map (·.map fun job ↦
        { job with cancelled := job.cancelled || decide (job.request ∈ requests) }) }
  | terminate (w) : Steers w { w with
      pool := w.pool.terminate.2
      offers := w.offers.map (·.map fun job ↦
        { job with cancelled := job.cancelled || decide (job.number ∈ w.pool.active) }) }
  | drain (w) : Steers w { w with
      pool := w.pool.drain.2
      drained := w.drained ++ w.pool.drain.1 }

inductive Step (w w' : Traffic) : Prop
  | work (h : Works w w')
  | submit (h : Submits w w')
  | steer (h : Steers w w')

/-- The steps may lead here from a new pool. -/
def Reached (provider : Provider) (workers : Nat) (w : Traffic) : Prop :=
  ∃ p, Pool.new provider workers = .ok p ∧ Relation.ReflTransGen Step { pool := p } w

/-- The numbers of all jobs there ever were. -/
def numbers (w : Traffic) : List Nat :=
  w.offers.map (·.job.number) ++ (w.pool.queue.map Job.number ++
    (w.pool.running.map (·.job.number) ++ w.left.map Prod.fst))

/-- The jobs that are counted in and not counted off. -/
def ongoing (w : Traffic) : List (Nat × Request) :=
  w.offers.flatMap Offer.begun ++ (w.pool.queue.map Job.tag ++ w.pool.running.map (·.job.tag))

structure Sound (w : Traffic) : Prop where
  manned : 0 < w.pool.workers
  numbered : w.numbers.Perm (List.range w.pool.issued)
  started : w.started.Perm (w.ongoing ++ w.left)
  posted :
    (w.posts.map fun a ↦ (a.1, a.2.request)).Perm (w.pool.running.flatMap Run.spent ++ w.left)
  kept : w.posts.map Prod.snd = w.drained ++ w.pool.completions
  inFlight : w.pool.inFlight = w.ongoing.length

theorem exists_split {α : Type} {l : List α} {i : Nat} {a : α} (h : l[i]? = some a) :
    ∃ l₁ l₂, l = l₁ ++ a :: l₂ ∧ (∀ b, (l₁ ++ a :: l₂).set i b = l₁ ++ b :: l₂) ∧
      (l₁ ++ a :: l₂).eraseIdx i = l₁ ++ l₂ := by
  obtain ⟨hi, rfl⟩ := List.getElem?_eq_some_iff.mp h
  have split : l.take i ++ l[i] :: l.drop (i + 1) = l := by
    rw [List.getElem_cons_drop, List.take_append_drop]
  refine ⟨l.take i, l.drop (i + 1), split.symm, fun b ↦ ?_, ?_⟩
  · rw [split, List.set_eq_take_append_cons_drop, if_pos hi]
  · rw [split, List.eraseIdx_eq_take_drop_succ]

namespace Sound

variable {w w' : Traffic}

theorem start {provider : Provider} {workers : Nat} {p : Pool}
    (h : Pool.new provider workers = .ok p) : Sound { pool := p } := by
  unfold Pool.new at h
  split at h
  · cases h
  · next hw =>
    cases h
    exact ⟨Nat.pos_of_ne_zero hw, .refl _, .refl _, .refl _, rfl, rfl⟩

/-- Marked jobs are the same jobs. -/
theorem mark (h : w.Sound) (hit : Job → Bool) (active : List Nat) : Sound { w with
    pool := { w.pool.mark hit with active }
    offers := w.offers.map (·.map fun job ↦
      { job with cancelled := job.cancelled || hit job }) } := by
  generalize hw : Traffic.mk .. = w'
  have numbers : w'.numbers = w.numbers := by
    subst hw
    simp only [Traffic.numbers, Pool.mark, List.map_map]
    congr 1
    exact List.map_congr_left fun o _ ↦ by cases o <;> rfl
  have ongoing : w'.ongoing = w.ongoing := by
    subst hw
    simp only [Traffic.ongoing, Pool.mark, List.map_map, List.flatMap_map]
    congr 1
    exact List.flatMap_congr fun o _ ↦ by cases o <;> rfl
  have spent : w'.pool.running.flatMap Run.spent = w.pool.running.flatMap Run.spent := by
    subst hw
    simp only [Pool.mark, List.flatMap_map]
    rfl
  obtain ⟨manned, numbered, started, posted, kept, inFlight⟩ := h
  rw [← numbers] at numbered
  rw [← ongoing] at started inFlight
  rw [← spent] at posted
  subst hw
  exact ⟨manned, numbered, started, posted, kept, inFlight⟩

theorem steer (h : w.Sound) (hs : Steers w w') : w'.Sound := by
  cases hs with
  | flag requests => exact h.mark _ w.pool.active
  | terminate => exact h.mark _ []
  | drain =>
    obtain ⟨manned, numbered, started, posted, kept, inFlight⟩ := h
    exact ⟨manned, numbered, started, posted, by simpa [Pool.drain] using kept, inFlight⟩

theorem submit (h : w.Sound) (hs : Submits w w') : w'.Sound := by
  obtain ⟨manned, numbered, started, posted, kept, inFlight⟩ := h
  cases hs with
  | number job =>
    refine ⟨manned, ?_, ?_, posted, kept, ?_⟩
    · have last : (w.numbers ++ [w.pool.issued]).Perm (List.range (w.pool.issued + 1)) := by
        rw [List.range_succ]
        exact numbered.append_right _
      refine .trans (List.perm_iff_count.mpr fun k ↦ ?_) last
      simp [numbers, Pool.issue, List.count_append, List.count_cons]
      omega
    · simpa [ongoing, Pool.issue] using started
    · simpa [ongoing, Pool.issue] using inFlight
  | @enroll i job ho =>
    obtain ⟨l₁, l₂, he, hset, -⟩ := exists_split ho
    refine ⟨manned, ?_, ?_, posted, kept, ?_⟩
    · simpa [numbers, Pool.enroll, he, hset] using numbered
    · simpa [ongoing, Pool.enroll, he, hset] using started
    · simpa [ongoing, Pool.enroll, he, hset] using inFlight
  | @countIn i job ho =>
    obtain ⟨l₁, l₂, he, hset, -⟩ := exists_split ho
    refine ⟨manned, ?_, ?_, posted, kept, ?_⟩
    · simpa [numbers, Pool.countIn, he, hset] using numbered
    · refine .trans (started.append_right [job.tag]) (List.perm_iff_count.mpr fun a ↦ ?_)
      simp [ongoing, Pool.countIn, he, hset, List.count_append, List.count_cons]
      omega
    · simp [ongoing, Pool.countIn, he, hset] at inFlight ⊢
      omega
  | @send i job ho =>
    obtain ⟨l₁, l₂, he, -, herase⟩ := exists_split ho
    refine ⟨manned, ?_, ?_, posted, kept, ?_⟩
    · refine .trans (List.perm_iff_count.mpr fun k ↦ ?_) numbered
      simp [numbers, Pool.send, he, herase, List.count_append, List.count_cons]
      omega
    · refine started.trans (List.perm_iff_count.mpr fun a ↦ ?_)
      simp [ongoing, Pool.send, he, herase, List.count_append, List.count_cons]
      omega
    · simp [ongoing, Pool.send, he, herase] at inFlight ⊢
      omega

/-- A worker goes on with its job, but does not post it. -/
theorem enter (h : w.Sound) {i : Nat} {r : Run} (hr : w.pool.running[i]? = some r) {stage : Stage}
    (before : r.spent = []) (after : { r with stage }.spent = []) (active : List Nat) :
    Sound { w with pool := { w.pool.enter i r stage with active } } := by
  obtain ⟨l₁, l₂, he, hset, -⟩ := exists_split hr
  obtain ⟨manned, numbered, started, posted, kept, inFlight⟩ := h
  refine ⟨manned, ?_, ?_, ?_, kept, ?_⟩
  · simpa [numbers, Pool.enter, he, hset] using numbered
  · simpa [ongoing, Pool.enter, he, hset] using started
  · simpa [Pool.enter, he, hset, before, after] using posted
  · simpa [ongoing, Pool.enter, he, hset] using inFlight

/-- A worker posts what came of its job. -/
theorem post (h : w.Sound) {i : Nat} {r : Run} (hr : w.pool.running[i]? = some r)
    {outcome : Outcome} (hs : r.stage = .struck outcome) : Sound { w with
      pool := (w.pool.post ⟨r.job.request, outcome⟩).enter i r .posted
      posts := w.posts ++ [(r.job.number, ⟨r.job.request, outcome⟩)] } := by
  have before : r.spent = [] := Run.spent_eq_nil (by rw [hs]; nofun)
  have after : { r with stage := .posted }.spent = [r.job.tag] := Run.spent_posted rfl
  obtain ⟨l₁, l₂, he, hset, -⟩ := exists_split hr
  obtain ⟨manned, numbered, started, posted, kept, inFlight⟩ := h
  refine ⟨manned, ?_, ?_, ?_, ?_, ?_⟩
  · simpa [numbers, Pool.post, Pool.enter, he, hset] using numbered
  · simpa [ongoing, Pool.post, Pool.enter, he, hset] using started
  · rw [List.map_append]
    refine .trans (posted.append_right _) (List.perm_iff_count.mpr fun a ↦ ?_)
    simp [Pool.post, Pool.enter, he, hset, before, after, Job.tag, List.count_append,
      List.count_cons]
    omega
  · simp [Pool.post, Pool.enter, kept]
  · simpa [ongoing, Pool.post, Pool.enter, he, hset] using inFlight

/-- A worker counts its job off. -/
theorem leave (h : w.Sound) {i : Nat} {r : Run} (hr : w.pool.running[i]? = some r)
    (hs : r.stage = .posted) :
    Sound { w with pool := w.pool.leave i, left := w.left ++ [r.job.tag] } := by
  have spent : r.spent = [r.job.tag] := Run.spent_posted hs
  obtain ⟨l₁, l₂, he, -, herase⟩ := exists_split hr
  obtain ⟨manned, numbered, started, posted, kept, inFlight⟩ := h
  refine ⟨manned, ?_, ?_, ?_, kept, ?_⟩
  · refine .trans (List.perm_iff_count.mpr fun k ↦ ?_) numbered
    simp [numbers, Pool.leave, he, herase, Job.tag, List.count_append, List.count_cons]
    omega
  · refine started.trans (List.perm_iff_count.mpr fun a ↦ ?_)
    simp [ongoing, Pool.leave, he, herase, List.count_append, List.count_cons]
    omega
  · refine posted.trans (List.perm_iff_count.mpr fun a ↦ ?_)
    simp [Pool.leave, he, herase, spent, List.count_append, List.count_cons]
    omega
  · simp [ongoing, Pool.leave, he, herase] at inFlight ⊢
    omega

theorem work (h : w.Sound) (hs : Works w w') : w'.Sound := by
  cases hs with
  | @take job queue hq free =>
    obtain ⟨manned, numbered, started, posted, kept, inFlight⟩ := h
    have taken : w.pool.take = { w.pool with
        queue, running := w.pool.running ++ [⟨job, .trying job.urls none⟩] } := by
      simp [Pool.take, hq, free]
    rw [taken]
    refine ⟨manned, ?_, ?_, ?_, kept, ?_⟩
    · refine .trans (List.perm_iff_count.mpr fun k ↦ ?_) numbered
      simp [numbers, hq, List.count_append, List.count_cons]
      omega
    · refine started.trans (List.perm_iff_count.mpr fun a ↦ ?_)
      simp [ongoing, hq, List.count_append, List.count_cons]
      omega
    · simpa [Run.spent] using posted
    · simp [ongoing, hq] at inFlight ⊢
      omega
  | @go i r hr provider held cache =>
    generalize hstage : (r.step provider held cache).1 = stage
    -- a job that is not struck off yet is neither posted now nor after the step
    have working (hs : ∀ outcome, r.stage ≠ .struck outcome) (hp : r.stage ≠ .posted) :
        r.posting = [] ∧ r.spent = [] ∧ { r with stage }.spent = [] := by
      refine ⟨?_, Run.spent_eq_nil hp, Run.spent_eq_nil fun he ↦ ?_⟩
      · unfold Run.posting
        split
        · next outcome he => exact absurd he (hs outcome)
        all_goals rfl
      · rcases Run.step_posted (hstage.trans he) with ⟨outcome, hs'⟩ | hp'
        · exact hs outcome hs'
        · exact hp hp'
    cases hs : r.stage with
    | trying | fetching =>
      obtain ⟨idle, before, after⟩ := working (by rw [hs]; nofun) (by rw [hs]; nofun)
      have entered : w.pool.proceed i r stage = w.pool.enter i r stage := by rw [Pool.proceed, hs]
      rw [entered, idle, before, List.append_nil, List.append_nil]
      exact h.enter hr before after w.pool.active
    | ended outcome =>
      obtain ⟨idle, before, after⟩ := working (by rw [hs]; nofun) (by rw [hs]; nofun)
      have entered : w.pool.proceed i r stage =
          (w.pool.strike r.job.number).enter i r stage := by rw [Pool.proceed, hs]
      rw [entered, idle, before, List.append_nil, List.append_nil]
      exact h.enter hr before after (w.pool.active.erase r.job.number)
    | struck outcome =>
      obtain rfl : stage = .posted := by rw [← hstage, Run.step, hs]
      have posted : w.pool.proceed i r .posted =
          (w.pool.post ⟨r.job.request, outcome⟩).enter i r .posted := by rw [Pool.proceed, hs]
      have before : r.spent = [] := Run.spent_eq_nil (by rw [hs]; nofun)
      have posting : r.posting = [(r.job.number, ⟨r.job.request, outcome⟩)] := by
        rw [Run.posting, hs]
      rw [posted, before, posting, List.append_nil]
      exact h.post hr hs
    | posted =>
      have left : w.pool.proceed i r stage = w.pool.leave i := by rw [Pool.proceed, hs]
      have idle : r.posting = [] := by rw [Run.posting, hs]
      rw [left, idle, Run.spent_posted hs, List.append_nil]
      exact h.leave hr hs

theorem step (h : w.Sound) (hs : Step w w') : w'.Sound := by
  cases hs with
  | work hs => exact h.work hs
  | submit hs => exact h.submit hs
  | steer hs => exact h.steer hs

end Sound

variable {w w' : Traffic}

section effort

theorem effort_eq (p : Pool) : p.effort =
    (p.queue.map fun job ↦ 2 * job.urls.length + 5).sum + (p.running.map Run.effort).sum := by
  rw [Pool.effort, List.sum_eq_foldr, List.sum_eq_foldr]

theorem effort_enter {p : Pool} {i : Nat} {r : Run} (hr : p.running[i]? = some r) (stage : Stage) :
    (p.enter i r stage).effort + r.effort = p.effort + Run.effort { r with stage } := by
  obtain ⟨l₁, l₂, he, hset, -⟩ := exists_split hr
  simp [effort_eq, Pool.enter, he, hset]
  omega

theorem effort_proceed {p : Pool} {i : Nat} {r : Run} (hs : r.stage ≠ .posted) (stage : Stage) :
    (p.proceed i r stage).effort = (p.enter i r stage).effort := by
  unfold Pool.proceed
  split
  · rfl
  · rfl
  · rfl
  · rfl
  · next posted => exact absurd posted hs

theorem Works.effort_lt (h : Works w w') : w'.pool.effort < w.pool.effort := by
  cases h with
  | @take job queue hq free =>
    simp [effort_eq, Pool.take, hq, free, Run.effort]
    omega
  | @go i r hr provider held cache =>
    have less (hs : r.stage ≠ .posted) := Run.effort_step_lt hs provider held cache
    generalize (r.step provider held cache).1 = stage at less ⊢
    have entered := effort_enter hr stage
    by_cases hs : r.stage = .posted
    · obtain ⟨l₁, l₂, he, -, herase⟩ := exists_split hr
      simp [effort_eq, Pool.proceed, hs, Pool.leave, he, herase, Run.effort]
    · specialize less hs
      rw [effort_proceed hs]
      omega

theorem Steers.effort_eq (h : Steers w w') : w'.pool.effort = w.pool.effort := by
  cases h with
  | flag | terminate =>
    simp [Traffic.effort_eq, Pool.flag, Pool.terminate, Pool.mark, Function.comp_def]
    rfl
  | drain => rfl

/-- So many steps of workers lead on, with flags, terminations and drains in between. -/
inductive Goes (w : Traffic) : Nat → Traffic → Prop
  | refl : Goes w 0 w
  | work {n v v'} (h : Goes w n v) (hs : Works v v') : Goes w (n + 1) v'
  | steer {n v v'} (h : Goes w n v) (hs : Steers v v') : Goes w n v'

theorem Goes.effort_le {n : Nat} (h : Goes w n w') : n + w'.pool.effort ≤ w.pool.effort := by
  induction h with
  | refl => omega
  | work _ hs ih =>
    have := hs.effort_lt
    omega
  | steer _ hs ih => rwa [hs.effort_eq]

end effort

/-- What holds of the jobs whatever was done in between. -/
structure Accounted (w : Traffic) : Prop where
  numbered : (w.started.map Prod.fst).Nodup
  once : (w.posts.map Prod.fst).Nodup
  own : ∀ {k c}, (k, c) ∈ w.posts → (k, c.request) ∈ w.started
  /-- A job is counted off after its completion is posted. -/
  left : ∀ a ∈ w.left, ∃ c, (a.1, c) ∈ w.posts ∧ c.request = a.2
  kept : w.posts.map Prod.snd = w.drained ++ w.pool.completions
  inFlight : w.pool.inFlight = (w.started.filter (· ∉ w.left)).length
  idle : w.offers = [] → w.pool.inFlight = w.pool.queue.length + w.pool.running.length
  /-- A worker that counts its job off finds it counted in. -/
  positive : ∀ r ∈ w.pool.running, r.stage = .posted → 0 < w.pool.inFlight
  /-- When the count is down, just the jobs that were counted in are posted, each of them once. -/
  done : w.pool.inFlight = 0 → (w.posts.map fun a ↦ (a.1, a.2.request)).Perm w.started
  /-- Workers do not stop before all is done. -/
  busy : w.offers = [] → w.pool.inFlight ≠ 0 → ∃ w', Works w w'
  ends : ∀ {n w'}, Goes w n w' → n ≤ w.pool.effort

namespace Sound

theorem mem_posts (h : w.Sound) {a : Nat × Request} :
    (∃ c, (a.1, c) ∈ w.posts ∧ c.request = a.2) ↔
      a ∈ w.pool.running.flatMap Run.spent ∨ a ∈ w.left := by
  rw [← List.mem_append, ← h.posted.mem_iff, List.mem_map]
  constructor
  · rintro ⟨c, hc, he⟩
    exact ⟨(a.1, c), hc, by rw [he]⟩
  · rintro ⟨⟨k, c⟩, hc, rfl⟩
    exact ⟨c, hc, rfl⟩

theorem begun_sublist (offers : List Offer) :
    ((offers.flatMap Offer.begun).map Prod.fst).Sublist (offers.map (·.job.number)) := by
  induction offers with
  | nil => exact .slnil
  | cons o offers ih =>
    cases o with
    | counted job => exact ih.cons_cons job.number
    | numbered job | enrolled job => exact ih.cons job.number

theorem spent_sublist (running : List Run) :
    (running.flatMap Run.spent).Sublist (running.map (·.job.tag)) := by
  induction running with
  | nil => exact .slnil
  | cons r running ih =>
    rw [List.flatMap_cons, List.map_cons]
    by_cases hs : r.stage = .posted
    · rw [Run.spent_posted hs]
      exact ih.cons_cons r.job.tag
    · rw [Run.spent_eq_nil hs]
      exact ih.cons r.job.tag

/-- Jobs that are counted in have a number each. -/
theorem nodup_ongoing (h : w.Sound) : ((w.ongoing ++ w.left).map Prod.fst).Nodup := by
  have nodup : w.numbers.Nodup := h.numbered.nodup_iff.mpr List.nodup_range
  have sub : ((w.ongoing ++ w.left).map Prod.fst).Sublist w.numbers := by
    simp only [ongoing, numbers, List.map_append, List.append_assoc, List.map_map]
    exact (begun_sublist w.offers).append (List.Sublist.refl _)
  exact nodup.sublist sub

theorem accounted (h : w.Sound) : w.Accounted where
  numbered := (h.started.map _).nodup_iff.mpr h.nodup_ongoing
  once := by
    have sub : (w.pool.running.flatMap Run.spent ++ w.left).Sublist (w.ongoing ++ w.left) :=
      List.Sublist.append (((spent_sublist _).trans (List.sublist_append_right _ _)).trans
        (List.sublist_append_right _ _)) (List.Sublist.refl _)
    have nodup := h.nodup_ongoing.sublist (sub.map Prod.fst)
    have same := (h.posted.map Prod.fst).nodup_iff.mpr nodup
    rwa [List.map_map] at same
  own {k c} hp := by
    rw [h.started.mem_iff, List.mem_append]
    refine (h.mem_posts.mp ⟨c, hp, rfl⟩).imp_left fun hs ↦ ?_
    exact List.mem_append_right _ (List.mem_append_right _ ((spent_sublist _).subset hs))
  left a ha := h.mem_posts.mpr (.inr ha)
  kept := h.kept
  inFlight := by
    have nodup : (w.ongoing ++ w.left).Nodup := h.nodup_ongoing.of_map
    have apart := List.disjoint_of_nodup_append nodup
    have stay : w.ongoing.filter (· ∉ w.left) = w.ongoing :=
      List.filter_eq_self.mpr fun a ha ↦ decide_eq_true fun hl ↦ apart ha hl
    have go : w.left.filter (· ∉ w.left) = [] := List.filter_eq_nil_iff.mpr (by simp)
    rw [h.inFlight, (h.started.filter _).length_eq, List.filter_append, stay, go, List.append_nil]
  idle idle := by
    rw [h.inFlight, ongoing, idle, List.flatMap_nil, List.nil_append, List.length_append,
      List.length_map, List.length_map]
  positive r hr hs := by
    have ongoing : r.job.tag ∈ w.ongoing :=
      List.mem_append_right _ (List.mem_append_right _ (List.mem_map.mpr ⟨r, hr, rfl⟩))
    rw [h.inFlight]
    exact List.length_pos_of_mem ongoing
  done empty := by
    have none : w.ongoing = [] := List.length_eq_zero_iff.mp (h.inFlight ▸ empty)
    have running : w.pool.running = [] := by
      simp only [ongoing, List.append_eq_nil_iff, List.map_eq_nil_iff] at none
      exact none.2.2
    have started := h.started
    have posted := h.posted
    rw [none] at started
    rw [running] at posted
    exact posted.trans started.symm
  busy idle busy := by
    cases hr : w.pool.running with
    | cons r running =>
      have first : w.pool.running[0]? = some r := by rw [hr]; rfl
      exact ⟨_, .go first w.pool.provider [] .empty⟩
    | nil =>
      cases hq : w.pool.queue with
      | cons job queue => exact ⟨_, .take hq (by rw [hr]; exact h.manned)⟩
      | nil =>
        refine absurd ?_ busy
        rw [h.inFlight, ongoing, idle, hq, hr]
        rfl
  ends hg := by
    have := hg.effort_le
    omega

end Sound

/-- A submission that nothing comes in between of. -/
theorem submitted (w : Traffic) (job : Job) : Relation.ReflTransGen Step w { w with
    pool := w.pool.submit job
    started := w.started ++ [(w.pool.issued, job.request)] } := by
  have last (o : Offer) : (w.offers ++ [o])[w.offers.length]? = some o := by simp
  have changed (o o' : Offer) : (w.offers ++ [o]).set w.offers.length o' = w.offers ++ [o'] := by
    simp
  have gone (o : Offer) : (w.offers ++ [o]).eraseIdx w.offers.length = w.offers := by
    simp [List.eraseIdx_append_of_length_le]
  have numbered := Submits.number w job
  have enrolled := Submits.enroll (w := { w with
    pool := w.pool.issue.2
    offers := w.offers ++ [.numbered { job with number := w.pool.issue.1 }] }) (last _)
  rw [changed] at enrolled
  have counted := Submits.countIn (w := { w with
    pool := w.pool.issue.2.enroll w.pool.issue.1
    offers := w.offers ++ [.enrolled { job with number := w.pool.issue.1 }] }) (last _)
  rw [changed] at counted
  have sent := Submits.send (w := { w with
    pool := (w.pool.issue.2.enroll w.pool.issue.1).countIn
    offers := w.offers ++ [.counted { job with number := w.pool.issue.1 }]
    started := w.started ++ [(w.pool.issued, job.request)] }) (last _)
  rw [gone] at sent
  exact .head (.submit numbered) (.head (.submit enrolled)
    (.head (.submit counted) (.single (.submit sent))))

section Reached

variable {provider : Provider} {workers : Nat}

theorem Reached.sound (h : w.Reached provider workers) : w.Sound := by
  obtain ⟨p, hp, steps⟩ := h
  induction steps with
  | refl => exact .start hp
  | tail _ hs ih => exact ih.step hs

theorem Reached.steps (h : w.Reached provider workers) (hs : Relation.ReflTransGen Step w w') :
    w'.Reached provider workers := by
  obtain ⟨p, hp, steps⟩ := h
  exact ⟨p, hp, steps.trans hs⟩

end Reached

end Traffic

end SceneGraph
