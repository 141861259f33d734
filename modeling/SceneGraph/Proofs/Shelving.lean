import Mathlib.Data.List.Basic
import Mathlib.Data.List.Nodup
import Mathlib.Logic.Relation
import SceneGraph.Content.Cache

/-!
The cache and those who hold content.

An entry stands until it is displaced by another insertion for its url, removed, cleared, purged
while nobody holds its content, or read while nobody does. The cache answers with the content of a
standing entry for as long as somebody holds it; and content that nobody holds any more does not
come back.
-/

namespace SceneGraph

section lookup

variable {l : List (String × Nat)} {url u : String} {k : Nat}

theorem lookup_cons_eq : ((u, k) :: l).lookup url = if url = u then some k else l.lookup url := by
  rw [List.lookup_cons]
  by_cases hu : url = u
  · simp [hu]
  · rw [if_neg hu, beq_false_of_ne hu]

theorem lookup_filter_ne (l : List (String × Nat)) (url u : String) :
    (l.filter fun e ↦ e.1 ≠ u).lookup url = if url = u then none else l.lookup url := by
  induction l with
  | nil => simp
  | cons e l ih =>
    obtain ⟨v, k⟩ := e
    rw [lookup_cons_eq]
    by_cases hv : v = u
    · subst hv
      rw [List.filter_cons_of_neg (by simp), ih]
      split <;> rfl
    · rw [List.filter_cons_of_pos (by simpa using hv), lookup_cons_eq, ih]
      by_cases hu : url = v
      · rw [if_pos hu, if_pos hu, if_neg (hu ▸ hv)]
      · rw [if_neg hu, if_neg hu]

theorem mem_map_fst_iff : url ∈ l.map Prod.fst ↔ ∃ k, l.lookup url = some k := by
  induction l with
  | nil => simp
  | cons e l ih =>
    obtain ⟨v, k⟩ := e
    rw [List.map_cons, List.mem_cons, ih, lookup_cons_eq]
    by_cases hu : url = v
    · simp [hu]
    · simp [hu]

/-- Under one url there is one entry at most, so that none is found once that is filtered out. -/
theorem lookup_filter_snd (hl : (l.map Prod.fst).Nodup) (p : Nat → Bool) :
    (l.filter fun e ↦ p e.2).lookup url = (l.lookup url).filter p := by
  induction l with
  | nil => rfl
  | cons e l ih =>
    obtain ⟨v, k⟩ := e
    obtain ⟨new, rest⟩ := List.nodup_cons.mp hl
    rw [lookup_cons_eq, List.filter_cons]
    by_cases hu : url = v
    · subst hu
      have single : l.lookup url = none := by
        rw [Option.eq_none_iff_forall_ne_some]
        exact fun k hk ↦ new (mem_map_fst_iff.mpr ⟨k, hk⟩)
      rw [if_pos rfl, Option.filter_some]
      split
      · rw [lookup_cons_eq, if_pos rfl]
      · rw [ih rest, single, Option.filter_none]
    · rw [if_neg hu]
      split
      · rw [lookup_cons_eq, if_neg hu, ih rest]
      · exact ih rest

end lookup

namespace Cache

variable {c : Cache} {held : List Content} {url u : String} {content : Content} {k : Nat}

/-- The serial number of the content that is kept under `url`. -/
def serial? (c : Cache) (url : String) : Option Nat := c.entries.lookup url

def urls (c : Cache) : List String := c.entries.map Prod.fst

theorem mem_urls : url ∈ c.urls ↔ ∃ k, c.serial? url = some k := mem_map_fst_iff

@[simp] theorem serial?_mint (c : Cache) (u : String) (bytes : ByteArray) :
    (c.mint u bytes).2.serial? url = c.serial? url := rfl

theorem serial?_remove (c : Cache) (url u : String) :
    (c.remove u).2.serial? url = if url = u then none else c.serial? url :=
  lookup_filter_ne c.entries url u

theorem serial?_insert (c : Cache) (url u : String) (content : Content) :
    (c.insert u content).serial? url = if url = u then some content.serial else c.serial? url := by
  rw [serial?, insert, List.lookup_append]
  change ((c.remove u).2.serial? url).or _ = _
  rw [serial?_remove]
  by_cases hu : url = u
  · simp [hu]
  · simp [hu, lookup_cons_eq]

theorem serial?_purge (hc : c.urls.Nodup) (held : List Content) (url : String) :
    (c.purge held).2.serial? url =
      (c.serial? url).filter fun k ↦ held.any fun content ↦ content.serial = k :=
  lookup_filter_snd hc fun k ↦ held.any fun content ↦ content.serial = k

theorem get_fst (c : Cache) (held : List Content) (url : String) :
    (c.get held url).1 =
      (c.serial? url).bind fun k ↦ held.find? fun content ↦ content.serial = k := by
  unfold get serial?
  cases c.entries.lookup url with
  | none => rfl
  | some k =>
    rw [Option.bind_some]
    dsimp only
    split
    · next hf => exact hf.symm
    · next hf => exact hf.symm

/-- Reading changes the cache where it finds nothing, and there only at the url that is read. -/
theorem get_snd (c : Cache) (held : List Content) (u : String) :
    (c.get held u).2 = c ∧ ((c.get held u).1 = none → c.serial? u = none) ∨
      (c.get held u).2 = (c.remove u).2 ∧ (c.get held u).1 = none := by
  unfold get serial?
  split
  · next hl => exact .inl ⟨rfl, fun _ ↦ hl⟩
  · split
    · exact .inl ⟨rfl, nofun⟩
    · exact .inr ⟨rfl, rfl⟩

@[simp] theorem issued_get (c : Cache) (held : List Content) (u : String) :
    (c.get held u).2.issued = c.issued := by
  rcases get_snd c held u with ⟨he, -⟩ | ⟨he, -⟩
  · rw [he]
  · rw [he]
    rfl

theorem serial?_get (c : Cache) (held : List Content) (url u : String) :
    (c.get held u).2.serial? url =
      if url = u ∧ (c.get held u).1 = none then none else c.serial? url := by
  rcases get_snd c held u with ⟨he, gone⟩ | ⟨he, hn⟩
  · rw [he]
    split
    · next hu => rw [hu.1, gone hu.2]
    · rfl
  · rw [he, serial?_remove]
    by_cases hu : url = u
    · simp [hu, hn]
    · simp [hu]

theorem find?_serial_eq_some (unique : ∀ a ∈ held, ∀ b ∈ held, a.serial = b.serial → a = b) :
    (held.find? fun content ↦ content.serial = k) = some content ↔
      content ∈ held ∧ content.serial = k := by
  constructor
  · intro hf
    exact ⟨List.mem_of_find?_eq_some hf, by simpa using List.find?_some hf⟩
  · rintro ⟨hm, rfl⟩
    cases hf : held.find? fun a ↦ a.serial = content.serial with
    | none => exact absurd (List.find?_eq_none.mp hf content hm) (by simp)
    | some a =>
      have same : a.serial = content.serial := by simpa using List.find?_some hf
      rw [unique a (List.mem_of_find?_eq_some hf) content hm same]

/-- The cache answers with what is held under the serial number it has for the url. -/
theorem get_eq_some (unique : ∀ a ∈ held, ∀ b ∈ held, a.serial = b.serial → a = b) :
    (c.get held url).1 = some content ↔ c.serial? url = some content.serial ∧ content ∈ held := by
  rw [get_fst, Option.bind_eq_some_iff]
  constructor
  · rintro ⟨k, hk, hf⟩
    obtain ⟨hm, rfl⟩ := (find?_serial_eq_some unique).mp hf
    exact ⟨hk, hm⟩
  · rintro ⟨hk, hm⟩
    exact ⟨_, hk, (find?_serial_eq_some unique).mpr ⟨hm, rfl⟩⟩

theorem get_eq_none : (c.get held url).1 = none ↔
    ∀ k, c.serial? url = some k → ∀ content ∈ held, content.serial ≠ k := by
  rw [get_fst, Option.bind_eq_none_iff]
  refine forall_congr' fun k ↦ imp_congr_right fun _ ↦ ?_
  rw [List.find?_eq_none]
  simp

/-- A read leaves the entry that it is for if somebody holds its content. -/
theorem serial?_get_self : (c.get held url).2.serial? url = some k ↔
    c.serial? url = some k ∧ ∃ content ∈ held, content.serial = k := by
  rw [serial?_get]
  by_cases hn : (c.get held url).1 = none
  · rw [if_pos ⟨rfl, hn⟩]
    refine iff_of_false nofun ?_
    rintro ⟨hk, content, hc, rfl⟩
    exact get_eq_none.mp hn _ hk content hc rfl
  · rw [if_neg fun he ↦ hn he.2, iff_self_and]
    intro hk
    by_contra dead
    refine hn (get_eq_none.mpr fun k' hk' content hc same ↦ dead ⟨content, hc, ?_⟩)
    cases hk.symm.trans hk'
    exact same

section urls

theorem urls_remove_sublist (c : Cache) (u : String) : (c.remove u).2.urls.Sublist c.urls :=
  List.filter_sublist.map _

theorem nodup_urls_insert (hc : c.urls.Nodup) (u : String) (content : Content) :
    (c.insert u content).urls.Nodup := by
  have before : (c.remove u).2.urls.Nodup := hc.sublist (urls_remove_sublist c u)
  have new : u ∉ (c.remove u).2.urls := by
    rw [mem_urls, serial?_remove, if_pos rfl]
    rintro ⟨k, hk⟩
    cases hk
  rw [urls, insert, List.map_append]
  exact before.append (List.nodup_singleton _) (by simpa using new)

theorem nodup_urls_get (hc : c.urls.Nodup) (held : List Content) (u : String) :
    (c.get held u).2.urls.Nodup := by
  rcases get_snd c held u with ⟨he, -⟩ | ⟨he, -⟩
  · rwa [he]
  · rw [he]
    exact hc.sublist (urls_remove_sublist c u)

theorem nodup_urls_purge (hc : c.urls.Nodup) (held : List Content) :
    (c.purge held).2.urls.Nodup :=
  hc.sublist (List.filter_sublist.map _)

end urls

end Cache

/-- A cache, and the content that is held: once for everybody who holds it. -/
structure Shelf where
  cache : Cache
  held : List Content

namespace Shelf

/-- What is done to a shelf. New content comes up, and holders take and drop content; the rest goes
to the cache. Who reads the cache holds what was found. -/
inductive Move
  | fetch (url : String) (bytes : ByteArray)
  | share (content : Content)
  | drop (content : Content)
  | insert (url : String) (content : Content)
  | get (url : String)
  | remove (url : String)
  | purge
  | clear

/-- What the cache has under `url`. -/
def answer (s : Shelf) (url : String) : Option Content := (s.cache.get s.held url).1

inductive Made : Move → Shelf → Shelf → Prop
  | fetch {s url bytes} : Made (.fetch url bytes) s
      ⟨(s.cache.mint url bytes).2, s.held ++ [(s.cache.mint url bytes).1]⟩
  | share {s content} (h : content ∈ s.held) : Made (.share content) s
      { s with held := s.held ++ [content] }
  | drop {s content before after} (h : s.held = before ++ content :: after) : Made (.drop content) s
      { s with held := before ++ after }
  | insert {s url content} (h : content ∈ s.held) : Made (.insert url content) s
      { s with cache := s.cache.insert url content }
  | get {s url} : Made (.get url) s
      ⟨(s.cache.get s.held url).2, s.held ++ (s.answer url).toList⟩
  | remove {s url} : Made (.remove url) s { s with cache := (s.cache.remove url).2 }
  | purge {s} : Made .purge s { s with cache := (s.cache.purge s.held).2 }
  | clear {s} : Made .clear s { s with cache := s.cache.clear }

/-- Moves lead from one shelf to another. Each stands with the shelf that it was made in. -/
inductive Leads (s₀ : Shelf) : List (Move × Shelf) → Shelf → Prop
  | refl : Leads s₀ [] s₀
  | next {ms s s' m} (h : Leads s₀ ms s) (hm : Made m s s') : Leads s₀ (ms ++ [(m, s)]) s'

def blank : Shelf := ⟨.empty, []⟩

/-- The move puts something else under the url, or nothing. -/
inductive Displaces (url : String) : Move → Prop
  | insert (content) : Displaces url (.insert url content)
  | remove : Displaces url (.remove url)
  | clear : Displaces url .clear

/-- The move drops the entry of dead content. -/
inductive Sweeps (url : String) : Move → Prop
  | purge : Sweeps url .purge
  | get : Sweeps url (.get url)

/-- The content was inserted under the url, and neither displaced since nor swept while it was
dead. -/
def Standing (ms : List (Move × Shelf)) (url : String) (content : Content) : Prop :=
  ∃ before σ after, ms = before ++ (.insert url content, σ) :: after ∧
    ∀ m ∈ after, ¬Displaces url m.1 ∧ (Sweeps url m.1 → content ∈ m.2.held)

variable {ms later : List (Move × Shelf)} {m : Move} {s s' t : Shelf} {url : String}
  {content : Content}

theorem standing_snoc : Standing (ms ++ [(m, s)]) url content ↔
    m = .insert url content ∨
      Standing ms url content ∧ ¬Displaces url m ∧ (Sweeps url m → content ∈ s.held) := by
  constructor
  · rintro ⟨before, σ, after, he, hs⟩
    rcases List.eq_nil_or_concat' after with rfl | ⟨after, last, rfl⟩
    · obtain ⟨-, he⟩ := List.append_inj' he rfl
      cases he
      exact .inl rfl
    · have he : ms ++ [(m, s)] = (before ++ (.insert url content, σ) :: after) ++ [last] := by
        simpa using he
      obtain ⟨rfl, same⟩ := List.append_inj' he rfl
      cases List.singleton_inj.mp same
      obtain ⟨earlier, last⟩ := List.forall_mem_append.mp hs
      exact .inr ⟨⟨before, σ, after, rfl, earlier⟩, last _ List.mem_cons_self⟩
  · rintro (rfl | ⟨⟨before, σ, after, rfl, hs⟩, last⟩)
    · exact ⟨ms, s, [], rfl, nofun⟩
    · refine ⟨before, σ, after ++ [(m, s)], by simp, ?_⟩
      exact List.forall_mem_append.mpr ⟨hs, List.forall_mem_singleton.mpr last⟩

/-- Moves that leave what stands under the url as it is. -/
theorem standing_snoc_of_idle (hd : ¬Displaces url m) (hs : Sweeps url m → content ∈ s.held) :
    Standing (ms ++ [(m, s)]) url content ↔ Standing ms url content := by
  rw [standing_snoc, or_iff_right]
  · exact and_iff_left ⟨hd, hs⟩
  · rintro rfl
    exact hd (.insert content)

/-- Somebody holds the content, or held it when one of the moves was made. -/
def Known (ms : List (Move × Shelf)) (s : Shelf) (content : Content) : Prop :=
  content ∈ s.held ∨ ∃ m ∈ ms, content ∈ m.2.held

namespace Made

/-- Content that nobody held comes up under a serial number of its own. -/
theorem held (h : Made m s s') (hc : content ∈ s'.held) :
    content ∈ s.held ∨
      ∃ url bytes, m = .fetch url bytes ∧ content = (s.cache.mint url bytes).1 := by
  cases h with
  | fetch =>
    rcases List.mem_append.mp hc with hc | hc
    · exact .inl hc
    · exact .inr ⟨_, _, rfl, List.mem_singleton.mp hc⟩
  | share hm =>
    rcases List.mem_append.mp hc with hc | hc
    · exact .inl hc
    · cases List.mem_singleton.mp hc
      exact .inl hm
  | drop he =>
    rw [he]
    rcases List.mem_append.mp hc with hc | hc
    · exact .inl (List.mem_append_left _ hc)
    · exact .inl (List.mem_append_right _ (List.mem_cons_of_mem _ hc))
  | get =>
    rcases List.mem_append.mp hc with hc | hc
    · exact .inl hc
    · have found := Option.mem_toList.mp hc
      rw [answer, Cache.get_fst, Option.bind_eq_some_iff] at found
      obtain ⟨k, -, hf⟩ := found
      exact .inl (List.mem_of_find?_eq_some hf)
  | insert | remove | purge | clear => exact .inl hc

theorem issued (h : Made m s s') : s'.cache.issued = s.cache.issued ∨
    (∃ url bytes, m = .fetch url bytes) ∧ s'.cache.issued = s.cache.issued + 1 := by
  cases h with
  | fetch => exact .inr ⟨⟨_, _, rfl⟩, rfl⟩
  | get => exact .inl (Cache.issued_get ..)
  | share | drop | insert | remove | purge | clear => exact .inl rfl

theorem urls (h : Made m s s') (hs : s.cache.urls.Nodup) : s'.cache.urls.Nodup := by
  cases h with
  | fetch | share | drop => exact hs
  | insert => exact Cache.nodup_urls_insert hs ..
  | get => exact Cache.nodup_urls_get hs ..
  | remove => exact hs.sublist (Cache.urls_remove_sublist ..)
  | purge => exact Cache.nodup_urls_purge hs _
  | clear => exact List.nodup_nil

end Made

/-- What holds of a shelf that moves led to. -/
structure Kept (ms : List (Move × Shelf)) (s : Shelf) : Prop where
  urls : s.cache.urls.Nodup
  older : ∀ {a}, Known ms s a → a.serial < s.cache.issued
  unique : ∀ {a b}, Known ms s a → Known ms s b → a.serial = b.serial → a = b
  inserted : ∀ {url content σ}, (Move.insert url content, σ) ∈ ms → content ∈ σ.held
  standing : ∀ {url k}, s.cache.serial? url = some k ↔
    ∃ content, Standing ms url content ∧ content.serial = k

namespace Kept

theorem known (h : Kept ms s) (hs : Standing ms url content) : Known ms s content := by
  obtain ⟨before, σ, after, rfl, -⟩ := hs
  have mem : (Move.insert url content, σ) ∈ before ++ (.insert url content, σ) :: after :=
    List.mem_append_right _ List.mem_cons_self
  exact .inr ⟨_, mem, h.inserted mem⟩

theorem unique_held (h : Kept ms s) : ∀ a ∈ s.held, ∀ b ∈ s.held, a.serial = b.serial → a = b :=
  fun _ ha _ hb ↦ h.unique (.inl ha) (.inl hb)

/-- The content of a standing entry is alive just if there is held what the entry leads to. -/
theorem alive_iff (h : Kept ms s) (hs : Standing ms url content) :
    (∃ a ∈ s.held, a.serial = content.serial) ↔ content ∈ s.held := by
  refine ⟨?_, fun hc ↦ ⟨content, hc, rfl⟩⟩
  rintro ⟨a, ha, same⟩
  rwa [← h.unique (.inl ha) (h.known hs) same]

theorem answer_eq_some (h : Kept ms s) :
    s.answer url = some content ↔ Standing ms url content ∧ content ∈ s.held := by
  rw [answer, Cache.get_eq_some h.unique_held, h.standing]
  refine and_congr_left fun hc ↦ ⟨?_, fun hs ↦ ⟨content, hs, rfl⟩⟩
  rintro ⟨a, ha, same⟩
  rwa [h.unique (h.known ha) (.inl hc) same] at ha

theorem known_next (h : Made m s s') (hk : Known (ms ++ [(m, s)]) s' content) :
    Known ms s content ∨ ∃ url bytes, m = .fetch url bytes ∧
      content = (s.cache.mint url bytes).1 := by
  rcases hk with hc | ⟨p, hp, hc⟩
  · exact (h.held hc).imp_left .inl
  · rcases List.mem_append.mp hp with hp | hp
    · exact .inl (.inr ⟨p, hp, hc⟩)
    · cases List.mem_singleton.mp hp
      exact .inl (.inl hc)

section standing

variable {k : Nat}

theorem standing_of_idle (h : Kept ms s) (hd : ¬Displaces url m) (hs : ¬Sweeps url m) :
    s.cache.serial? url = some k ↔
      ∃ content, Standing (ms ++ [(m, s)]) url content ∧ content.serial = k := by
  rw [h.standing]
  refine exists_congr fun content ↦ and_congr_left fun _ ↦ ?_
  exact (standing_snoc_of_idle hd fun hs' ↦ absurd hs' hs).symm

theorem not_standing_of_displaces (hd : Displaces url m) (hi : ∀ content, m ≠ .insert url content) :
    ¬∃ content, Standing (ms ++ [(m, s)]) url content ∧ content.serial = k := by
  rintro ⟨content, hs, -⟩
  rcases standing_snoc.mp hs with he | ⟨-, hd', -⟩
  · exact hi content he
  · exact hd' hd

theorem standing_insert : content.serial = k ↔
    ∃ a, Standing (ms ++ [(.insert url content, s)]) url a ∧ a.serial = k := by
  constructor
  · rintro rfl
    exact ⟨content, standing_snoc.mpr (.inl rfl), rfl⟩
  · rintro ⟨a, ha, rfl⟩
    rcases standing_snoc.mp ha with he | ⟨-, hd, -⟩
    · cases he
      rfl
    · exact absurd (.insert content) hd

/-- What is swept goes on standing if somebody holds its content. -/
theorem standing_of_sweeps (h : Kept ms s) (hd : ¬Displaces url m) (hs : Sweeps url m) :
    (s.cache.serial? url = some k ∧ ∃ a ∈ s.held, a.serial = k) ↔
      ∃ content, Standing (ms ++ [(m, s)]) url content ∧ content.serial = k := by
  rw [h.standing]
  constructor
  · rintro ⟨⟨content, hc, rfl⟩, alive⟩
    have held := (h.alive_iff hc).mp alive
    exact ⟨content, (standing_snoc_of_idle hd fun _ ↦ held).mpr hc, rfl⟩
  · rintro ⟨content, hc, rfl⟩
    rcases standing_snoc.mp hc with rfl | ⟨hc, -, alive⟩
    · exact absurd (.insert content) hd
    · exact ⟨⟨content, hc, rfl⟩, content, alive hs, rfl⟩

theorem standing_next (h : Kept ms s) (hm : Made m s s') : s'.cache.serial? url = some k ↔
    ∃ content, Standing (ms ++ [(m, s)]) url content ∧ content.serial = k := by
  cases hm with
  | fetch | share | drop => exact h.standing_of_idle nofun nofun
  | @insert _ u content =>
    rw [Cache.serial?_insert]
    by_cases hu : url = u
    · rw [if_pos hu, Option.some_inj, hu]
      exact standing_insert
    · rw [if_neg hu]
      refine h.standing_of_idle ?_ nofun
      rintro ⟨⟩
      exact hu rfl
  | @remove _ u =>
    rw [Cache.serial?_remove]
    by_cases hu : url = u
    · subst hu
      rw [if_pos rfl]
      exact iff_of_false nofun (not_standing_of_displaces .remove nofun)
    · rw [if_neg hu]
      refine h.standing_of_idle ?_ nofun
      rintro ⟨⟩
      exact hu rfl
  | clear => exact iff_of_false nofun (not_standing_of_displaces .clear nofun)
  | purge =>
    refine Iff.trans ?_ (h.standing_of_sweeps nofun .purge)
    rw [Cache.serial?_purge h.urls, Option.filter_eq_some_iff]
    simp
  | @get _ u =>
    by_cases hu : url = u
    · subst hu
      exact Cache.serial?_get_self.trans (h.standing_of_sweeps nofun .get)
    · rw [Cache.serial?_get, if_neg fun he ↦ hu he.1]
      refine h.standing_of_idle nofun ?_
      rintro ⟨⟩
      exact hu rfl

end standing

theorem next (h : Kept ms s) (hm : Made m s s') : Kept (ms ++ [(m, s)]) s' where
  urls := hm.urls h.urls
  older {a} ha := by
    rcases known_next hm ha with ha | ⟨url, bytes, rfl, rfl⟩
    · have before := h.older ha
      rcases hm.issued with he | ⟨-, he⟩ <;> omega
    · cases hm
      exact Nat.lt_succ_self _
  unique {a b} ha hb same := by
    rcases known_next hm ha with old | ⟨url, bytes, he, rfl⟩
    · rcases known_next hm hb with old' | ⟨url, bytes, -, rfl⟩
      · exact h.unique old old' same
      · exact absurd same (Nat.ne_of_lt (h.older old))
    · rcases known_next hm hb with old | ⟨url', bytes', he', rfl⟩
      · exact absurd same.symm (Nat.ne_of_lt (h.older old))
      · cases he.symm.trans he'
        rfl
  inserted {url content σ} hi := by
    rcases List.mem_append.mp hi with hi | hi
    · exact h.inserted hi
    · cases List.mem_singleton.mp hi
      cases hm
      assumption
  standing := h.standing_next hm

theorem of_blank : Kept [] blank where
  urls := List.nodup_nil
  older h := by rcases h with h | ⟨m, hm, -⟩ <;> contradiction
  unique h := by rcases h with h | ⟨m, hm, -⟩ <;> contradiction
  inserted := nofun
  standing := by
    refine iff_of_false nofun ?_
    rintro ⟨content, ⟨before, σ, after, he, -⟩, -⟩
    simp at he

theorem leads (h : Kept ms s) (hl : Leads s later s') : Kept (ms ++ later) s' := by
  induction hl with
  | refl => rwa [List.append_nil]
  | next _ hm ih =>
    rw [← List.append_assoc]
    exact ih.next hm

/-- No entry leads to content that is yet to come up. -/
theorem serial_lt {k : Nat} (h : Kept ms s) (hk : s.cache.serial? url = some k) :
    k < s.cache.issued := by
  obtain ⟨content, hs, rfl⟩ := h.standing.mp hk
  exact h.older (h.known hs)

end Kept

theorem Leads.kept (h : Leads blank ms s) : Kept ms s := Kept.of_blank.leads h

/-- Who holds content that was held before held it all the time in between. -/
theorem Leads.lasting (h : Leads blank ms s) {before after : List (Move × Shelf)}
    (he : ms = before ++ (m, t) :: after) (ht : content ∈ t.held) (hc : content ∈ s.held) :
    ∀ p ∈ after, content ∈ p.2.held := by
  induction h generalizing after with
  | refl => simp at he
  | @next ms s s' m' h hm ih =>
    have known : Known ms s content := by
      have mem : (m, t) ∈ ms ++ [(m', s)] := he ▸ List.mem_append_right _ List.mem_cons_self
      rcases List.mem_append.mp mem with mem | mem
      · exact .inr ⟨_, mem, ht⟩
      · cases List.mem_singleton.mp mem
        exact .inl ht
    have there : content ∈ s.held := by
      rcases hm.held hc with there | ⟨url, bytes, -, rfl⟩
      · exact there
      · exact absurd (h.kept.older known) (Nat.lt_irrefl _)
    rcases List.eq_nil_or_concat' after with rfl | ⟨after, last, rfl⟩
    · nofun
    · have he : ms ++ [(m', s)] = (before ++ (m, t) :: after) ++ [last] := by simpa using he
      obtain ⟨earlier, same⟩ := List.append_inj' he rfl
      cases List.singleton_inj.mp same
      exact List.forall_mem_append.mpr ⟨ih earlier there, List.forall_mem_singleton.mpr there⟩

section agreement

/-- The shelves differ in entries of dead content alone. -/
structure Agrees (s t : Shelf) : Prop where
  held : t.held = s.held
  issued : t.cache.issued = s.cache.issued
  alive : ∀ url, ∀ a ∈ s.held,
    t.cache.serial? url = some a.serial ↔ s.cache.serial? url = some a.serial

namespace Agrees

variable {ns : List (Move × Shelf)}

theorem answer (h : Agrees s t) (url : String) : t.answer url = s.answer url := by
  refine Option.ext fun content ↦ ?_
  rw [Shelf.answer, Shelf.answer, Cache.get_fst, Cache.get_fst, Option.bind_eq_some_iff,
    Option.bind_eq_some_iff, h.held]
  refine exists_congr fun k ↦ and_congr_left fun hf ↦ ?_
  have same : content.serial = k := by simpa using List.find?_some hf
  rw [← same]
  exact h.alive url content (List.mem_of_find?_eq_some hf)

/-- Sweeping dead entries away leaves those of live content. -/
theorem of_purge (h : Kept ms s) : Agrees s { s with cache := (s.cache.purge s.held).2 } where
  held := rfl
  issued := rfl
  alive url a ha := by
    rw [Cache.serial?_purge h.urls, Option.filter_eq_some_iff, and_iff_left]
    exact List.any_eq_true.mpr ⟨a, ha, by simp⟩

theorem of_get (hn : s.answer url = none) :
    Agrees s ⟨(s.cache.get s.held url).2, s.held ++ (s.answer url).toList⟩ where
  held := by rw [hn, Option.toList_none, List.append_nil]
  issued := Cache.issued_get ..
  alive u a ha := by
    rw [Cache.serial?_get]
    split
    · next hu =>
      rw [hu.1]
      exact iff_of_false nofun fun hk ↦ Cache.get_eq_none.mp hn _ hk a ha rfl
    · rfl

/-- The same move on both shelves. -/
theorem next (hs : Kept ms s) (ht : Kept ns t) (h : Agrees s t) (hm : Made m s s') :
    ∃ t', Made m t t' ∧ Agrees s' t' := by
  cases hm with
  | @fetch _ url bytes =>
    refine ⟨_, .fetch, ?_, ?_, fun u a ha ↦ ?_⟩
    · simp only [Cache.mint, h.held, h.issued]
    · simp only [Cache.mint, h.issued]
    rw [Cache.serial?_mint, Cache.serial?_mint]
    rcases List.mem_append.mp ha with ha | ha
    · exact h.alive u a ha
    · -- the new content is not in either cache yet
      rw [List.mem_singleton.mp ha]
      refine iff_of_false (fun hk ↦ ?_) fun hk ↦ Nat.lt_irrefl _ (hs.serial_lt hk)
      exact Nat.lt_irrefl _ (h.issued ▸ ht.serial_lt hk)
  | share hc =>
    refine ⟨_, .share (h.held ▸ hc), by rw [h.held], h.issued, fun u a ha ↦ h.alive u a ?_⟩
    rcases List.mem_append.mp ha with ha | ha
    · exact ha
    · rwa [List.mem_singleton.mp ha]
  | drop he =>
    refine ⟨_, .drop (h.held.trans he), rfl, h.issued, fun u a ha ↦ h.alive u a ?_⟩
    rw [he]
    exact List.mem_append.mpr ((List.mem_append.mp ha).imp_right (List.mem_cons_of_mem _))
  | insert hc =>
    refine ⟨_, .insert (h.held ▸ hc), h.held, h.issued, fun u a ha ↦ ?_⟩
    rw [Cache.serial?_insert, Cache.serial?_insert]
    split
    · rfl
    · exact h.alive u a ha
  | @get _ url =>
    have answers := h.answer url
    refine ⟨_, .get, by rw [h.held, answers], ?_, fun u a ha ↦ ?_⟩
    · rw [Cache.issued_get, Cache.issued_get, h.issued]
    have there : a ∈ s.held := by
      rcases Made.get.held ha with ha | ⟨_, _, he, -⟩
      · exact ha
      · cases he
    rw [Cache.serial?_get, Cache.serial?_get]
    change (if u = url ∧ t.answer url = none then _ else _) = _ ↔
      (if u = url ∧ s.answer url = none then _ else _) = _
    rw [answers]
    split
    · rfl
    · exact h.alive u a there
  | remove =>
    refine ⟨_, .remove, h.held, h.issued, fun u a ha ↦ ?_⟩
    rw [Cache.serial?_remove, Cache.serial?_remove]
    split
    · rfl
    · exact h.alive u a ha
  | purge =>
    refine ⟨_, .purge, h.held, h.issued, fun u a ha ↦ ?_⟩
    rw [Cache.serial?_purge hs.urls, Cache.serial?_purge ht.urls, Option.filter_eq_some_iff,
      Option.filter_eq_some_iff, h.held]
    exact and_congr_left fun _ ↦ h.alive u a ha
  | clear => exact ⟨_, .clear, h.held, h.issued, fun _ _ _ ↦ Iff.rfl⟩

theorem leads (hs : Kept ms s) (ht : Kept ns t) (h : Agrees s t) (hl : Leads s later s') :
    ∃ later' t', Leads t later' t' ∧ later'.map Prod.fst = later.map Prod.fst ∧ Agrees s' t' := by
  induction hl with
  | refl => exact ⟨[], t, .refl, rfl, h⟩
  | next hl hm ih =>
    obtain ⟨later', t', hl', moves, agrees⟩ := ih
    obtain ⟨t'', hm', agrees⟩ := agrees.next (hs.leads hl) (ht.leads hl') hm
    exact ⟨_, t'', hl'.next hm', by simp [moves], agrees⟩

end Agrees

end agreement

/-- An entry stands under the url, whether or not its content is alive. -/
def Present (ms : List (Move × Shelf)) (url : String) : Prop := ∃ content, Standing ms url content

theorem Kept.mem_urls (h : Kept ms s) : url ∈ s.cache.urls ↔ Present ms url := by
  rw [Cache.mem_urls]
  constructor
  · rintro ⟨k, hk⟩
    obtain ⟨content, hs, -⟩ := h.standing.mp hk
    exact ⟨content, hs⟩
  · rintro ⟨content, hs⟩
    exact ⟨_, h.standing.mpr ⟨content, hs, rfl⟩⟩

/-- A purge counts the urls under which dead content stands. -/
theorem Kept.purge_fst (h : Kept ms s) : ∃ urls : List String, urls.Nodup ∧
    (∀ url, url ∈ urls ↔ ∃ content, Standing ms url content ∧ content ∉ s.held) ∧
      (s.cache.purge s.held).1 = urls.length := by
  let live (k : Nat) : Bool := s.held.any fun content ↦ content.serial = k
  refine ⟨(s.cache.entries.filter fun e ↦ !live e.2).map Prod.fst,
    h.urls.sublist (List.filter_sublist.map _), fun url ↦ ?_, ?_⟩
  · rw [mem_map_fst_iff]
    have found : (s.cache.entries.filter fun e ↦ !live e.2).lookup url =
        (s.cache.serial? url).filter fun k ↦ !live k := lookup_filter_snd h.urls fun k ↦ !live k
    rw [found]
    have dead {k : Nat} : (!live k) = true ↔ ¬∃ a ∈ s.held, a.serial = k := by simp [live]
    simp only [Option.filter_eq_some_iff, dead, h.standing]
    constructor
    · rintro ⟨k, ⟨content, hs, rfl⟩, hd⟩
      exact ⟨content, hs, fun hc ↦ hd ⟨content, hc, rfl⟩⟩
    · rintro ⟨content, hs, hd⟩
      exact ⟨_, ⟨content, hs, rfl⟩, fun alive ↦ hd ((h.alive_iff hs).mp alive)⟩
  · have count := List.length_eq_length_filter_add (l := s.cache.entries) fun e ↦ live e.2
    rw [List.length_map, Cache.purge, Cache.size]
    dsimp only [live] at count ⊢
    omega

/-- The cache answers with content just if the latest insertion under the url was of that content,
was not removed or cleared, and somebody has held the content ever since. Whether dead entries were
swept makes no difference to any later answer. A purge counts the dead entries and spares the live
ones; the size counts the entries that stand; and a removal tells whether one stood. -/
theorem Leads.remembers (h : Leads blank ms s) :
    (∀ url content, s.answer url = some content ↔
      ∃ before σ after, ms = before ++ (.insert url content, σ) :: after ∧
        (∀ m ∈ after, ¬Displaces url m.1 ∧ content ∈ m.2.held) ∧ content ∈ s.held) ∧
    (∀ m s₁, m = .purge ∨ (∃ url, m = .get url ∧ s.answer url = none) → Made m s s₁ →
      ∀ later t, Leads s later t → ∃ later₁ t₁, Leads s₁ later₁ t₁ ∧
        later₁.map Prod.fst = later.map Prod.fst ∧ t₁.held = t.held ∧
          ∀ url, t₁.answer url = t.answer url) ∧
    (∃ urls : List String, urls.Nodup ∧
      (∀ url, url ∈ urls ↔ ∃ content, Standing ms url content ∧ content ∉ s.held) ∧
        (s.cache.purge s.held).1 = urls.length) ∧
    (∀ url content, s.answer url = some content →
      ((s.cache.purge s.held).2.get s.held url).1 = some content) ∧
    (∃ urls : List String, urls.Nodup ∧ (∀ url, url ∈ urls ↔ Present ms url) ∧
      s.cache.size = urls.length) ∧
    ∀ url, (s.cache.remove url).1 = true ↔ Present ms url := by
  have kept := h.kept
  refine ⟨fun url content ↦ ?_, fun m s₁ hm made later t onward ↦ ?_, kept.purge_fst,
    fun url content ha ↦ ((Agrees.of_purge kept).answer url).trans ha,
    ⟨s.cache.urls, kept.urls, fun _ ↦ kept.mem_urls, (List.length_map _).symm⟩, fun url ↦ ?_⟩
  · rw [kept.answer_eq_some]
    constructor
    · rintro ⟨⟨before, σ, after, rfl, hs⟩, hc⟩
      have inserted := kept.inserted (List.mem_append_right before List.mem_cons_self)
      have lasting := h.lasting rfl inserted hc
      exact ⟨before, σ, after, rfl, fun m hm ↦ ⟨(hs m hm).1, lasting m hm⟩, hc⟩
    · rintro ⟨before, σ, after, he, hs, hc⟩
      exact ⟨⟨before, σ, after, he, fun m hm ↦ ⟨(hs m hm).1, fun _ ↦ (hs m hm).2⟩⟩, hc⟩
  · have agrees : Agrees s s₁ := by
      rcases hm with rfl | ⟨url, rfl, hn⟩
      · cases made
        exact .of_purge kept
      · cases made
        exact .of_get hn
    obtain ⟨later₁, t₁, onward₁, moves, agrees⟩ := agrees.leads kept (kept.next made) onward
    exact ⟨later₁, t₁, onward₁, moves, agrees.held, agrees.answer⟩
  · rw [← kept.mem_urls, Cache.mem_urls]
    exact Option.isSome_iff_exists

def first : Content := ⟨0, "a", .empty⟩

def second : Content := ⟨1, "b", .empty⟩

/-- Content was inserted under two urls, and nobody holds the first of it any more. -/
def halved : Shelf := ⟨⟨[("a", 0), ("b", 1)], 2⟩, [second]⟩

theorem leads_halved : ∃ ms, Leads blank ms halved := by
  have fetched : Made (.fetch "a" .empty) blank ⟨⟨[], 1⟩, [first]⟩ := .fetch
  have inserted : Made (.insert "a" first) ⟨⟨[], 1⟩, [first]⟩ ⟨⟨[("a", 0)], 1⟩, [first]⟩ :=
    .insert List.mem_cons_self
  have again : Made (.fetch "b" .empty) ⟨⟨[("a", 0)], 1⟩, [first]⟩
      ⟨⟨[("a", 0)], 2⟩, [first, second]⟩ := .fetch
  have both : Made (.insert "b" second) ⟨⟨[("a", 0)], 2⟩, [first, second]⟩
      ⟨⟨[("a", 0), ("b", 1)], 2⟩, [first, second]⟩ :=
    .insert (List.mem_cons_of_mem _ List.mem_cons_self)
  have holders : (⟨⟨[("a", 0), ("b", 1)], 2⟩, [first, second]⟩ : Shelf).held =
      [] ++ first :: [second] := rfl
  have dropped := Made.drop holders
  exact ⟨_, ((((Leads.refl.next fetched).next inserted).next again).next both).next dropped⟩

/-- One entry stands and is alive, and one stands and is dead until a purge. -/
theorem remembers_halved : ∃ ms, Leads blank ms halved ∧
    halved.answer "a" = none ∧ halved.answer "b" = some second ∧
    (∃ before σ after, ms = before ++ (.insert "b" second, σ) :: after ∧
      ∀ m ∈ after, ¬Displaces "b" m.1 ∧ second ∈ m.2.held) ∧
    Present ms "a" ∧ (halved.cache.purge halved.held).1 = 1 ∧
    ((halved.cache.purge halved.held).2.get halved.held "b").1 = some second := by
  obtain ⟨ms, h⟩ := leads_halved
  obtain ⟨answers, -, -, spared, -, removes⟩ := Leads.remembers h
  have found : halved.answer "b" = some second := rfl
  obtain ⟨before, σ, after, he, hs, -⟩ := (answers "b" second).mp found
  exact ⟨ms, h, rfl, found, ⟨before, σ, after, he, hs⟩, (removes "a").mp rfl, rfl,
    spared "b" second found⟩

end Shelf

end SceneGraph
