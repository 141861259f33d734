import SceneGraph.Proofs.Owing
import SceneGraph.Proofs.Shelving

/-!
A worker with one job.

It tries the urls one after the other, and looks into the cache before it asks the provider. Between
its steps others use the cache, take and drop content, and may cancel the job; a provider need not
answer alike each time.
-/

namespace SceneGraph

/-- What a worker finds when it takes a step. -/
structure Moment where
  provider : Provider
  held : List Content
  cache : Cache
  cancelled : Bool

/-- The url that the provider is asked for. -/
def Stage.asked? : Stage → Option String
  | fetching url _ _ => some url
  | trying .. | ended _ | struck _ | posted => none

namespace Job

variable (job : Job) (env : Nat → Moment)

/-- How far the job is before step `k`, when the worker finds `env` at its steps. -/
def stage : Nat → Stage
  | 0 => .trying job.urls none
  | k + 1 => (Run.step ⟨{ job with cancelled := (env k).cancelled }, stage k⟩ (env k).provider
      (env k).held (env k).cache).1

/-- The worker before step `k`, with the job flagged as it is then. -/
def run (k : Nat) : Run := ⟨{ job with cancelled := (env k).cancelled }, job.stage env k⟩

/-- The cache as step `k` leaves it. -/
def leaves (k : Nat) : Cache :=
  ((job.run env k).step (env k).provider (env k).held (env k).cache).2

/-- The urls that the provider was asked for before step `k`. -/
def asked : Nat → List String
  | 0 => []
  | k + 1 => asked k ++ (job.stage env (k + 1)).asked?.toList

variable {job env}

theorem stage_succ (k : Nat) : job.stage env (k + 1) =
    ((job.run env k).step (env k).provider (env k).held (env k).cache).1 := rfl

theorem asked_succ (k : Nat) : job.asked env (k + 1) =
    job.asked env k ++ (job.stage env (k + 1)).asked?.toList := rfl

/-- A worker of a pool takes the steps of its job. -/
theorem advance_run {p : Pool} {i k : Nat} (hr : p.running[i]? = some (job.run env k))
    (hp : p.provider = (env k).provider) :
    (p.advance i (env k).held (env k).cache).2 = job.leaves env k ∧
      (job.stage env k ≠ .posted → (p.advance i (env k).held (env k).cache).1.running[i]? =
        some { job.run env k with stage := job.stage env (k + 1) }) := by
  obtain ⟨hi, -⟩ := List.getElem?_eq_some_iff.mp hr
  refine ⟨by rw [Pool.advance, hr, hp]; rfl, fun working ↦ ?_⟩
  rw [Pool.advance_eq hr, hp, ← stage_succ]
  unfold Pool.proceed
  split
  case h_5 hs => exact absurd hs working
  all_goals exact List.getElem?_set_self hi

section steps

variable {k : Nat} {url : String} {rest : List String} {failure : Option String}
  {content : Content} {bytes : ByteArray} {e : Error} {outcome : Outcome}

theorem stage_of_cancelled (hs : (job.run env k).url? = some url) (hc : (env k).cancelled = true) :
    job.stage env (k + 1) = .ended .cancelled ∧ job.leaves env k = (env k).cache := by
  rw [stage_succ, leaves, Run.step]
  have flagged : (job.run env k).job.cancelled = true := hc
  split
  · next he =>
    rw [Run.url?, he] at hs
    cases hs
  · rw [if_pos flagged]
    exact ⟨rfl, rfl⟩
  · rw [if_pos flagged]
    exact ⟨rfl, rfl⟩
  all_goals
    next he =>
    rw [Run.url?, he] at hs
    cases hs

section uncancelled

variable (hc : (env k).cancelled = false)
include hc

theorem stage_of_found (hs : job.stage env k = .trying (url :: rest) failure)
    (found : ((env k).cache.get (env k).held url).1 = some content) :
    job.stage env (k + 1) = .ended (.loaded content) := by
  rw [stage_succ, Run.step, run, hs]
  simp only [hc, Bool.false_eq_true, if_false]
  split
  · next he => rw [← Option.some.inj (found.symm.trans (congrArg Prod.fst he))]
  · next he => cases found.symm.trans (congrArg Prod.fst he)

theorem stage_of_absent (hs : job.stage env k = .trying (url :: rest) failure)
    (absent : ((env k).cache.get (env k).held url).1 = none) :
    job.stage env (k + 1) = .fetching url rest failure := by
  rw [stage_succ, Run.step, run, hs]
  simp only [hc, Bool.false_eq_true, if_false]
  split
  · next he => cases absent.symm.trans (congrArg Prod.fst he)
  · rfl

theorem stage_of_fetched (hs : job.stage env k = .fetching url rest failure)
    (ok : (env k).provider.fetch url = .ok bytes) :
    job.stage env (k + 1) = .ended (.loaded ((env k).cache.mint url bytes).1) ∧
      job.leaves env k = ((env k).cache.mint url bytes).2.insert url
        ((env k).cache.mint url bytes).1 := by
  constructor
  · rw [stage_succ, Run.step, run, hs]
    simp only [hc, Bool.false_eq_true, if_false, ok]
  · rw [leaves, Run.step, run, hs]
    simp only [hc, Bool.false_eq_true, if_false, ok]

theorem stage_of_failed (hs : job.stage env k = .fetching url rest failure)
    (failed : (env k).provider.fetch url = .error e) :
    job.stage env (k + 1) = .trying rest (some (url ++ ": " ++ e.message)) := by
  rw [stage_succ, Run.step, run, hs]
  simp only [hc, Bool.false_eq_true, if_false, failed]

end uncancelled

theorem stage_of_exhausted (hs : job.stage env k = .trying [] failure) :
    job.stage env (k + 1) = .ended (.failed (failure.getD "no url to load")) := by
  rw [stage_succ, Run.step, run, hs]

/-- Once a job has ended the worker is done with it, and uses neither provider nor cache. -/
theorem stage_of_ended (hs : job.stage env k = .ended outcome) {j : Nat} (hj : k ≤ j) :
    (job.stage env j = .ended outcome ∧ j = k ∨ job.stage env j = .struck outcome ∨
        job.stage env j = .posted) ∧
      job.asked env j = job.asked env k ∧ job.leaves env j = (env j).cache := by
  have idle {j : Nat} (h : job.stage env j = .ended outcome ∧ j = k ∨
      job.stage env j = .struck outcome ∨ job.stage env j = .posted) :
      job.leaves env j = (env j).cache := by
    rw [leaves, Run.step, run]
    rcases h with ⟨he, -⟩ | he | he <;> rw [he]
  induction j, hj using Nat.le_induction with
  | base => exact ⟨.inl ⟨hs, rfl⟩, rfl, idle (.inl ⟨hs, rfl⟩)⟩
  | succ j hj ih =>
    obtain ⟨past, same, -⟩ := ih
    have onward : job.stage env (j + 1) = .struck outcome ∨ job.stage env (j + 1) = .posted := by
      rw [stage_succ, Run.step, run]
      rcases past with ⟨he, -⟩ | he | he
      · exact .inl (by rw [he])
      · exact .inr (by rw [he])
      · exact .inr (by rw [he])
    refine ⟨.inr onward, ?_, idle (.inr onward)⟩
    have quiet : (job.stage env (j + 1)).asked? = none := by
      rcases onward with he | he <;> rw [he] <;> rfl
    rw [asked_succ, same, quiet, Option.toList_none, List.append_nil]

theorem ended_unique {i j : Nat} {outcome' : Outcome} (hi : job.stage env i = .ended outcome)
    (hj : job.stage env j = .ended outcome') : i = j := by
  rcases Nat.le_total i j with h | h
  · obtain ⟨⟨-, he⟩ | he | he, -⟩ := stage_of_ended hi h
    · exact he.symm
    · cases hj.symm.trans he
    · cases hj.symm.trans he
  · obtain ⟨⟨-, he⟩ | he | he, -⟩ := stage_of_ended hj h
    · exact he
    · cases hi.symm.trans he
    · cases hi.symm.trans he

end steps

/-- The url is tried in vain: it is not in the cache, and the provider does not have it. -/
structure Missed (env : Nat → Moment) (i : Nat) (url : String) : Prop where
  looked : (env (2 * i)).cancelled = false
  absent : ((env (2 * i)).cache.get (env (2 * i)).held url).1 = none
  waited : (env (2 * i + 1)).cancelled = false
  failed : ∃ e, (env (2 * i + 1)).provider.fetch url = .error e

/-- The urls before the one at `i` are tried in vain. -/
def Vain (job : Job) (env : Nat → Moment) (i : Nat) : Prop :=
  ∀ j < i, ∀ url, job.urls[j]? = some url → Missed env j url

theorem Vain.succ {i : Nat} {url : String} (h : job.Vain env i) (hu : job.urls[i]? = some url)
    (missed : Missed env i url) : job.Vain env (i + 1) := by
  intro j hj u hu'
  rcases Nat.lt_succ_iff_lt_or_eq.mp hj with hj | rfl
  · exact h j hj u hu'
  · cases hu.symm.trans hu'
    exact missed

/-- Two steps for each url that is tried in vain. -/
theorem Vain.stage {i : Nat} (h : job.Vain env i) (hi : i ≤ job.urls.length) :
    ∃ failure, job.stage env (2 * i) = .trying (job.urls.drop i) failure ∧
      job.asked env (2 * i) = job.urls.take i ∧
      ∀ j url e, j + 1 = i → job.urls[j]? = some url →
        (env (2 * j + 1)).provider.fetch url = .error e →
          failure = some (url ++ ": " ++ e.message) := by
  induction i with
  | zero => exact ⟨none, rfl, rfl, fun j _ _ hj ↦ by omega⟩
  | succ i ih =>
    obtain ⟨failure, trying, asked, -⟩ := ih (fun j hj ↦ h j (by omega)) (by omega)
    have hu := List.getElem?_eq_getElem hi
    obtain ⟨looked, absent, waited, e, failed⟩ := h i (Nat.lt_succ_self i) _ hu
    rw [List.drop_eq_getElem_cons hi] at trying
    have fetching := stage_of_absent looked trying absent
    have onward := stage_of_failed waited fetching failed
    refine ⟨_, onward, ?_, fun j url e' hj hu' failed' ↦ ?_⟩
    · rw [Nat.mul_succ, asked_succ, asked_succ, asked, fetching, onward, List.take_add_one, hu]
      exact List.append_nil _
    · cases Nat.succ.inj hj
      cases hu.symm.trans hu'
      cases failed.symm.trans failed'
      rfl

/-- Either all urls are tried in vain, or there is a first that is not. -/
theorem exists_first (job : Job) (env : Nat → Moment) : job.Vain env job.urls.length ∨
    ∃ i url, job.urls[i]? = some url ∧ job.Vain env i ∧ ¬Missed env i url := by
  have upTo (n : Nat) (hn : n ≤ job.urls.length) : job.Vain env n ∨
      ∃ i url, job.urls[i]? = some url ∧ job.Vain env i ∧ ¬Missed env i url := by
    induction n with
    | zero => exact .inl fun j hj ↦ absurd hj (Nat.not_lt_zero j)
    | succ n ih =>
      rcases ih (by omega) with h | found
      · have hu := List.getElem?_eq_getElem hn
        by_cases missed : Missed env n job.urls[n]
        · exact .inl (h.succ hu missed)
        · exact .inr ⟨n, _, hu, h, missed⟩
      · exact .inr found
  exact upTo _ (Nat.le_refl _)

/-- How a job ends that nobody cancels: with the content of the first url that is alive in the cache
or that the provider has, or with the failure of the last url. -/
inductive Yields (job : Job) (env : Nat → Moment) : Nat → Outcome → Prop
  | cached {i url content} (hu : job.urls[i]? = some url) (vain : job.Vain env i)
      (found : ((env (2 * i)).cache.get (env (2 * i)).held url).1 = some content)
      (asked : job.asked env (2 * i + 1) = job.urls.take i) :
      Yields job env (2 * i + 1) (.loaded content)
  | fetched {i url content} (hu : job.urls[i]? = some url) (vain : job.Vain env i)
      (absent : ((env (2 * i)).cache.get (env (2 * i)).held url).1 = none)
      (served : (env (2 * i + 1)).provider.fetch url = .ok content.bytes)
      (from_url : content.url = url)
      (asked : job.asked env (2 * i + 2) = job.urls.take (i + 1))
      (entered : ∀ held, content ∈ held → (∀ c ∈ held, c.serial = content.serial → c = content) →
        ((job.leaves env (2 * i + 1)).get held url).1 = some content) :
      Yields job env (2 * i + 2) (.loaded content)
  | exhausted {url e} (vain : job.Vain env job.urls.length) (last : job.urls.getLast? = some url)
      (failed : (env (2 * job.urls.length - 1)).provider.fetch url = .error e)
      (asked : job.asked env (2 * job.urls.length + 1) = job.urls) :
      Yields job env (2 * job.urls.length + 1) (.failed (url ++ ": " ++ e.message))

section yields

variable {i : Nat} {url : String} {content : Content} {bytes : ByteArray}

theorem Vain.trying (h : job.Vain env i) (hu : job.urls[i]? = some url) :
    ∃ failure, job.stage env (2 * i) = .trying (url :: job.urls.drop (i + 1)) failure ∧
      job.asked env (2 * i) = job.urls.take i := by
  obtain ⟨hi, rfl⟩ := List.getElem?_eq_some_iff.mp hu
  obtain ⟨failure, trying, asked, -⟩ := h.stage (Nat.le_of_lt hi)
  exact ⟨failure, by rw [trying, List.drop_eq_getElem_cons hi], asked⟩

theorem Vain.found (h : job.Vain env i) (hu : job.urls[i]? = some url)
    (looked : (env (2 * i)).cancelled = false)
    (found : ((env (2 * i)).cache.get (env (2 * i)).held url).1 = some content) :
    job.stage env (2 * i + 1) = .ended (.loaded content) ∧
      Yields job env (2 * i + 1) (.loaded content) := by
  obtain ⟨failure, trying, asked⟩ := h.trying hu
  have ended := stage_of_found looked trying found
  refine ⟨ended, .cached hu h found ?_⟩
  rw [asked_succ, asked, ended]
  exact List.append_nil _

theorem Vain.fetching (h : job.Vain env i) (hu : job.urls[i]? = some url)
    (looked : (env (2 * i)).cancelled = false)
    (absent : ((env (2 * i)).cache.get (env (2 * i)).held url).1 = none) :
    (∃ failure, job.stage env (2 * i + 1) = .fetching url (job.urls.drop (i + 1)) failure) ∧
      job.asked env (2 * i + 1) = job.urls.take (i + 1) := by
  obtain ⟨failure, trying, asked⟩ := h.trying hu
  have fetching := stage_of_absent looked trying absent
  refine ⟨⟨failure, fetching⟩, ?_⟩
  rw [asked_succ, asked, fetching, List.take_add_one, hu]
  rfl

theorem Vain.fetched (h : job.Vain env i) (hu : job.urls[i]? = some url)
    (looked : (env (2 * i)).cancelled = false)
    (absent : ((env (2 * i)).cache.get (env (2 * i)).held url).1 = none)
    (waited : (env (2 * i + 1)).cancelled = false)
    (ok : (env (2 * i + 1)).provider.fetch url = .ok bytes) :
    ∃ content, job.stage env (2 * i + 2) = .ended (.loaded content) ∧
      Yields job env (2 * i + 2) (.loaded content) := by
  obtain ⟨⟨failure, fetching⟩, asked⟩ := h.fetching hu looked absent
  obtain ⟨ended, stored⟩ := stage_of_fetched waited fetching ok
  refine ⟨_, ended, .fetched hu h absent ok rfl ?_ fun held hc unique ↦ ?_⟩
  · rw [asked_succ, asked, ended]
    exact List.append_nil _
  · rw [stored, Cache.get_fst, Cache.serial?_insert, if_pos rfl, Option.bind_some]
    cases hf : held.find? fun c ↦ c.serial = ((env (2 * i + 1)).cache.mint url bytes).1.serial with
    | none => exact absurd (List.find?_eq_none.mp hf _ hc) (by simp)
    | some c =>
      have same : c.serial = ((env (2 * i + 1)).cache.mint url bytes).1.serial := by
        simpa using List.find?_some hf
      exact congrArg some (unique c (List.mem_of_find?_eq_some hf) same)

/-- A job none of whose urls leads to content fails as the last of them did. -/
theorem Vain.exhausted (h : job.Vain env job.urls.length) (urls : job.urls ≠ []) :
    ∃ reason, job.stage env (2 * job.urls.length + 1) = .ended (.failed reason) ∧
      Yields job env (2 * job.urls.length + 1) (.failed reason) := by
  obtain ⟨failure, trying, asked, last⟩ := h.stage (Nat.le_refl _)
  obtain ⟨n, hn⟩ : ∃ n, n + 1 = job.urls.length :=
    ⟨_, Nat.succ_pred_eq_of_ne_zero (mt List.length_eq_zero_iff.mp urls)⟩
  obtain ⟨url, hu⟩ : ∃ url, job.urls[n]? = some url :=
    ⟨_, List.getElem?_eq_getElem (hn ▸ Nat.lt_succ_self n)⟩
  obtain ⟨-, -, -, e, failed⟩ := h n (by omega) url hu
  rw [List.drop_length] at trying
  have ended := stage_of_exhausted trying
  rw [last n _ e hn hu failed, Option.getD_some] at ended
  refine ⟨_, ended, .exhausted h ?_ ?_ ?_⟩
  · rw [List.getLast?_eq_getElem?, ← hn]
    exact hu
  · rw [← hn]
    exact failed
  · rw [asked_succ, asked, ended, List.take_length]
    exact List.append_nil _

end yields

/-- Every job ends, and unless it is cancelled it yields the first content that there is. -/
theorem exists_end (job : Job) (env : Nat → Moment) (urls : job.urls ≠ []) :
    ∃ k outcome, job.stage env k = .ended outcome ∧
      ((∀ j, (env j).cancelled = false) → Yields job env k outcome) := by
  rcases exists_first job env with vain | ⟨i, url, hu, vain, reached⟩
  · obtain ⟨reason, ended, yields⟩ := vain.exhausted urls
    exact ⟨_, _, ended, fun _ ↦ yields⟩
  obtain ⟨failure, trying, -⟩ := vain.trying hu
  cases looked : (env (2 * i)).cancelled with
  | true =>
    have ended := stage_of_cancelled (by rw [Run.url?, run, trying]; rfl) looked
    exact ⟨_, _, ended.1, fun free ↦ by cases looked.symm.trans (free _)⟩
  | false =>
    cases absent : ((env (2 * i)).cache.get (env (2 * i)).held url).1 with
    | some content =>
      obtain ⟨ended, yields⟩ := vain.found hu looked absent
      exact ⟨_, _, ended, fun _ ↦ yields⟩
    | none =>
      obtain ⟨⟨failure, fetching⟩, -⟩ := vain.fetching hu looked absent
      cases waited : (env (2 * i + 1)).cancelled with
      | true =>
        have ended := stage_of_cancelled (by rw [Run.url?, run, fetching]; rfl) waited
        exact ⟨_, _, ended.1, fun free ↦ by cases waited.symm.trans (free _)⟩
      | false =>
        cases ok : (env (2 * i + 1)).provider.fetch url with
        | error e => exact absurd ⟨looked, absent, waited, e, ok⟩ reached
        | ok bytes =>
          obtain ⟨content, ended, yields⟩ := vain.fetched hu looked absent waited ok
          exact ⟨_, _, ended, fun _ ↦ yields⟩

/-- A job with urls ends, and then nothing more is asked for or put into the cache. If nobody
cancels it, it yields the first content that there is, or fails as its last url does. If it was
cancelled before it began, nothing is asked for, the cache is left alone, and it ends as cancelled.
And whenever a worker that is at a url finds its job cancelled, before it looks for the url or when
the fetch returns with whatever result, the job ends as cancelled at once, and nothing is put into
the cache. -/
theorem ends (job : Job) (urls : job.urls ≠ []) (env : Nat → Moment) :
    ∃ k outcome, job.stage env k = .ended outcome ∧
      (∀ j, k ≤ j → job.asked env j = job.asked env k ∧ job.leaves env j = (env j).cache) ∧
      ((∀ j, (env j).cancelled = false) → Yields job env k outcome) ∧
      ((env 0).cancelled = true → outcome = .cancelled ∧
        ∀ j, job.asked env j = [] ∧ job.leaves env j = (env j).cache) ∧
      ∀ j url, (job.run env j).url? = some url → (env j).cancelled = true →
        k = j + 1 ∧ outcome = .cancelled ∧
          ∀ i, j ≤ i → job.asked env i = job.asked env j ∧ job.leaves env i = (env i).cache := by
  obtain ⟨k, outcome, ended, yields⟩ := exists_end job env urls
  have stopped {j : Nat} {url : String} (hu : (job.run env j).url? = some url)
      (hc : (env j).cancelled = true) : k = j + 1 ∧ outcome = .cancelled ∧
        ∀ i, j ≤ i → job.asked env i = job.asked env j ∧ job.leaves env i = (env i).cache := by
    obtain ⟨now, left⟩ := stage_of_cancelled hu hc
    cases ended_unique ended now
    cases ended.symm.trans now
    have same : job.asked env (j + 1) = job.asked env j := by
      rw [asked_succ, now]
      exact List.append_nil _
    refine ⟨rfl, rfl, fun i hi ↦ ?_⟩
    rcases Nat.lt_or_eq_of_le hi with hi | rfl
    · obtain ⟨-, later, idle⟩ := stage_of_ended now hi
      exact ⟨later.trans same, idle⟩
    · exact ⟨rfl, left⟩
  refine ⟨k, outcome, ended, fun j hj ↦ (stage_of_ended ended hj).2, yields, fun hc ↦ ?_,
    fun j url hu hc ↦ stopped hu hc⟩
  obtain ⟨url, hu⟩ : ∃ url, job.urls.head? = some url := by
    cases h : job.urls with
    | nil => exact absurd h urls
    | cons url rest => exact ⟨url, rfl⟩
  obtain ⟨-, outcome, idle⟩ := stopped (j := 0) hu hc
  exact ⟨outcome, fun j ↦ idle j (Nat.zero_le j)⟩

/-- Content is wanted from one of two urls. -/
def quest : Job := { request := ⟨.issued 0, 1⟩, urls := ["a", "b"] }

/-- The provider has the second of them. -/
def met (cancelled : Nat → Bool) (k : Nat) : Moment :=
  ⟨.ofEntries [("b", .empty)], [], .empty, cancelled k⟩

theorem fetching_quest (cancelled : Nat → Bool) (free : ∀ k < 3, cancelled k = false) :
    (∃ failure, quest.stage (met cancelled) 3 = .fetching "b" [] failure) ∧
      quest.asked (met cancelled) 3 = ["a", "b"] := by
  have vain : quest.Vain (met cancelled) 1 := by
    intro j hj url hu
    obtain rfl : j = 0 := by omega
    cases hu
    exact ⟨free 0 (by decide), rfl, free 1 (by decide), _, rfl⟩
  exact vain.fetching rfl (free 2 (by decide)) rfl

/-- The second url leads to content, unless the job is cancelled while that is fetched. -/
theorem ends_quest : (∃ content, Yields quest (met fun _ ↦ false) 4 (.loaded content)) ∧
    quest.stage (met fun k ↦ decide (3 ≤ k)) 4 = .ended .cancelled ∧
      quest.asked (met fun k ↦ decide (3 ≤ k)) 4 = ["a", "b"] ∧
        quest.leaves (met fun k ↦ decide (3 ≤ k)) 3 = .empty := by
  have urls : quest.urls ≠ [] := nofun
  constructor
  · obtain ⟨k, outcome, ended, -, yields, -⟩ := ends quest urls (met fun _ ↦ false)
    obtain ⟨⟨failure, fetching⟩, -⟩ := fetching_quest (fun _ ↦ false) fun _ _ ↦ rfl
    have ok : (met (fun _ ↦ false) 3).provider.fetch "b" = .ok .empty := rfl
    obtain ⟨loaded, -⟩ := stage_of_fetched rfl fetching ok
    cases ended_unique ended loaded
    cases ended.symm.trans loaded
    exact ⟨_, yields fun _ ↦ rfl⟩
  · obtain ⟨k, outcome, ended, -, -, -, stopped⟩ := ends quest urls (met fun k ↦ decide (3 ≤ k))
    obtain ⟨⟨failure, fetching⟩, asked⟩ := fetching_quest (fun k ↦ decide (3 ≤ k))
      fun k hk ↦ decide_eq_false (Nat.not_le_of_lt hk)
    obtain ⟨rfl, rfl, idle⟩ := stopped 3 "b" (by rw [Run.url?, run, fetching]; rfl) rfl
    exact ⟨ended, (idle 4 (by decide)).1.trans asked, (idle 3 (by decide)).2⟩

end Job

end SceneGraph
