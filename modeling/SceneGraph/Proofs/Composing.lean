import SceneGraph.Proofs.Delivery
import SceneGraph.Proofs.Domains
import SceneGraph.Proofs.Declaring

/-!
Node types from calls of a blueprint. What is built depends on the fields that the calls declare, on
the capabilities they name and on the content and the behavior they end with, not on how the calls
are mixed. The fields of capabilities stand first, so that no field of the type's own can take a
spelling of theirs, and the positions a type goes by are those of its capabilities' fields.
-/

namespace SceneGraph

/-- Capabilities are ordered as they are listed. -/
def Capability.le (c c' : Capability) : Bool := c.ctorIdx ≤ c'.ctorIdx

namespace Blueprint

inductive Call where
  | capability (c : Capability)
  | content (k : ContentKind)
  | declare (d : Declaration)
  | field (name : String) (t : FieldType) (v : Value)
  | exposed (name : String) (t : FieldType) (v : Value)
  | eventIn (name : String) (t : FieldType)
  | eventOut (name : String) (t : FieldType)
  | behavior (f : Behavior)

namespace Call

def on (b : Blueprint) : Call → Blueprint
  | capability c => b.withCapability c
  | content k => b.withContent k
  | declare d => b.declare d
  | field name t v => b.field name t v
  | exposed name t v => b.exposed name t v
  | eventIn name t => b.eventIn name t
  | eventOut name t => b.eventOut name t
  | behavior f => b.withBehavior f

def declared? : Call → Option Declaration
  | declare d => some d
  | field name t v => some ⟨.field, t, name, v⟩
  | exposed name t v => some ⟨.exposed, t, name, v⟩
  | eventIn name t => some ⟨.eventIn, t, name, .ofType t⟩
  | eventOut name t => some ⟨.eventOut, t, name, .ofType t⟩
  | capability _ | content _ | behavior _ => none

/-- Content is for the loadable. -/
def named? : Call → Option Capability
  | capability c => some c
  | content _ => some .loadable
  | _ => none

def content? : Call → Option ContentKind
  | content k => some k
  | _ => none

def behavior? : Call → Option Behavior
  | behavior f => some f
  | _ => none

end Call

/-- The blueprint that the calls make in turn, from one with nothing but a name. -/
def compose (name : String) (calls : List Call) : Blueprint := calls.foldl Call.on { name }

variable {b : Blueprint} {name : String} {call : Call} {calls calls' : List Call} {c : Capability}

def declared (calls : List Call) : List Declaration := calls.filterMap Call.declared?

def named (calls : List Call) : List Capability := calls.filterMap Call.named?

theorem declared_append (calls calls' : List Call) :
    declared (calls ++ calls') = declared calls ++ declared calls' :=
  List.filterMap_append

theorem named_append (calls calls' : List Call) :
    named (calls ++ calls') = named calls ++ named calls' :=
  List.filterMap_append

/-- The kind of content that the calls end with. -/
def lastContent (calls : List Call) : ContentKind :=
  (calls.filterMap Call.content?).getLast?.getD .bytes

def lastBehavior (calls : List Call) : Behavior :=
  (calls.filterMap Call.behavior?).getLast?.getD .passive

/-- The blueprint `b'` is `b` after the calls. -/
structure Follows (b : Blueprint) (calls : List Call) (b' : Blueprint) : Prop where
  name : b'.name = b.name
  mem_capabilities : ∀ c, c ∈ b'.capabilities ↔ c ∈ b.capabilities ∨ c ∈ named calls
  nodup : b.capabilities.Nodup → b'.capabilities.Nodup
  content : b'.content = (calls.filterMap Call.content?).getLast?.getD b.content
  fields : b'.fields = b.fields ++ declared calls
  behavior : b'.behavior = (calls.filterMap Call.behavior?).getLast?.getD b.behavior

theorem Follows.refl (b : Blueprint) : Follows b [] b where
  name := rfl
  mem_capabilities _ := (or_iff_left List.not_mem_nil).symm
  nodup := id
  content := rfl
  fields := b.fields.append_nil.symm
  behavior := rfl

theorem Follows.trans {b b' b'' : Blueprint} (h : Follows b calls b')
    (h' : Follows b' calls' b'') : Follows b (calls ++ calls') b'' where
  name := h'.name.trans h.name
  mem_capabilities c := by
    rw [h'.mem_capabilities, h.mem_capabilities, or_assoc, named_append, List.mem_append]
  nodup := h'.nodup ∘ h.nodup
  content := by
    rw [h'.content, h.content, List.filterMap_append, List.getLast?_append]
    cases (calls'.filterMap Call.content?).getLast? <;> rfl
  fields := by rw [h'.fields, h.fields, List.append_assoc, declared_append]
  behavior := by
    rw [h'.behavior, h.behavior, List.filterMap_append, List.getLast?_append]
    cases (calls'.filterMap Call.behavior?).getLast? <;> rfl

theorem follows_withCapability (b : Blueprint) (c : Capability) :
    Follows b [.capability c] (b.withCapability c) := by
  unfold withCapability
  split
  · next hm =>
    refine { Follows.refl b with mem_capabilities := fun c' ↦ ⟨.inl, ?_⟩ }
    rintro (h | h)
    · exact h
    · exact List.mem_singleton.mp h ▸ hm
  · next hm =>
    exact { Follows.refl b with
      mem_capabilities := fun _ ↦ List.mem_append
      nodup := fun h ↦ nodup_append_singleton h hm }

theorem Call.follows (b : Blueprint) (call : Call) : Follows b [call] (call.on b) := by
  cases call with
  | capability c => exact follows_withCapability b c
  | content k =>
    have follows := follows_withCapability { b with content := k } .loadable
    exact { follows with content := follows.content }
  | declare | field | exposed | eventIn | eventOut => exact { Follows.refl b with fields := rfl }
  | behavior => exact { Follows.refl b with behavior := rfl }

theorem follows_foldl (b : Blueprint) (calls : List Call) :
    Follows b calls (calls.foldl Call.on b) := by
  induction calls generalizing b with
  | nil => exact .refl b
  | cons call calls ih => exact (call.follows b).trans (ih (call.on b))

/-- The fixed order of capabilities is what sorting makes of any order. -/
theorem mergeSort_capabilities (h : b.capabilities.Nodup) :
    b.capabilities.mergeSort Capability.le = b.sortedCapabilities := by
  have all : Capability.all.Nodup ∧ Capability.all.Pairwise fun c c' ↦ c.le c' = true := by decide
  have same : (b.capabilities.mergeSort Capability.le).Perm b.sortedCapabilities := by
    refine (List.mergeSort_perm ..).trans ((List.perm_ext_iff_of_nodup h (all.1.filter _)).mpr ?_)
    intro c
    have listed : c ∈ Capability.all := by cases c <;> decide
    rw [List.mem_filter, decide_eq_true_eq, and_iff_right listed]
  have sorted : (b.capabilities.mergeSort Capability.le).Pairwise fun c c' ↦ c.le c' = true := by
    refine List.pairwise_mergeSort (fun c c' c'' before after ↦ ?_) (fun c c' ↦ ?_) _
    · exact decide_eq_true (Nat.le_trans (of_decide_eq_true before) (of_decide_eq_true after))
    · exact (Bool.or_eq_true ..).mpr
        ((Nat.le_total c.ctorIdx c'.ctorIdx).imp decide_eq_true decide_eq_true)
  refine same.eq_of_pairwise (fun c c' _ _ ↦ ?_) sorted (all.2.filter _)
  cases c <;> cases c' <;> decide

def namedInOrder (calls : List Call) : List Capability :=
  Capability.all.filter (· ∈ named calls)

theorem sortedCapabilities_compose :
    (compose name calls).sortedCapabilities = namedInOrder calls :=
  List.filter_congr fun c _ ↦ decide_eq_decide.mpr
    (((follows_foldl { name } calls).mem_capabilities c).trans (or_iff_right List.not_mem_nil))

theorem build_compose : (compose name calls).build = do
    let table ← FieldTable.build name
      ((namedInOrder calls).flatMap Capability.fields ++ declared calls)
    return ⟨name, table, namedInOrder calls, lastContent calls, lastBehavior calls⟩ := by
  have follows := follows_foldl { name } calls
  unfold build
  rw [sortedCapabilities_compose, compose, follows.name, follows.fields, follows.content,
    follows.behavior]
  rfl

/-- How the calls are mixed does not matter. -/
theorem build_congr (declares : declared calls = declared calls')
    (names : ∀ c, c ∈ named calls ↔ c ∈ named calls')
    (content : lastContent calls = lastContent calls')
    (behavior : lastBehavior calls = lastBehavior calls') :
    (compose name calls).build = (compose name calls').build := by
  have capabilities : namedInOrder calls = namedInOrder calls' :=
    List.filter_congr fun c _ ↦ decide_eq_decide.mpr (names c)
  rw [build_compose, build_compose, declares, capabilities, content, behavior]

end Blueprint

theorem FieldTable.orderly_of_build {owner : String} {ds : List Declaration} {table : FieldTable}
    (h : FieldTable.build owner ds = .ok table) : FieldTable.Orderly ds := by
  have admitted : FieldTable.admitAll owner [] ds = .ok () := by
    unfold FieldTable.build at h
    split at h
    · cases h
    · assumption
  exact FieldTable.Orderly.nil.admitAll_eq_ok.mp admitted

namespace NodeType

variable {t : NodeType} {c : Capability} {d : Declaration}

/-- The position `recorded` is there just if the capability is, and then it is that of the
capability's field `d`: past the fields of the capabilities before, and wherever the name of `d`
leads. -/
structure Records (t : NodeType) (c : Capability) (d : Declaration) (recorded : Option Nat) :
    Prop where
  isSome_iff : recorded.isSome ↔ c ∈ t.capabilities
  installed : ∀ i, recorded = some i → ∃ before after k, t.capabilities = before ++ c :: after ∧
    c.fields[k]? = some d ∧ i = (before.flatMap Capability.fields).length + k
  get? : ∀ i, recorded = some i → t.table.get? i = some d
  indexOf? : ∀ i, recorded = some i → t.table.indexOf? d.name = some i

theorem Built.orderly_declarations (h : t.Built) : FieldTable.Orderly t.table.declarations := by
  obtain ⟨b, built⟩ := h
  obtain ⟨table, made, built⟩ := bind_eq_ok.mp built
  cases built
  exact (FieldTable.build_eq_ok made).1 ▸ FieldTable.orderly_of_build made

theorem Built.exists_installed (h : t.Built) (hc : c ∈ t.capabilities) (hd : d ∈ c.fields) {i : Nat}
    (hi : t.table.get? i = some d) : ∃ before after k, t.capabilities = before ++ c :: after ∧
      c.fields[k]? = some d ∧ i = (before.flatMap Capability.fields).length + k := by
  obtain ⟨-, own, -, declarations, -⟩ := h.exists_capabilities
  obtain ⟨before, after, split⟩ := List.append_of_mem hc
  obtain ⟨k, hk⟩ := List.mem_iff_getElem?.mp hd
  have there : t.table.declarations[(before.flatMap Capability.fields).length + k]? = some d := by
    rw [declarations, split, List.flatMap_append, List.flatMap_cons, List.append_assoc,
      List.append_assoc, List.getElem?_append_right (Nat.le_add_right _ _), Nat.add_sub_cancel_left]
    exact List.getElem?_append_left (List.getElem?_eq_some_iff.mp hk).1 ▸ hk
  have spelled : d.name ∈ d.spellings := Declaration.mem_spellings.mpr (.inl rfl)
  exact ⟨before, after, k, split, hk, h.orderly_declarations.position_eq hi there spelled spelled⟩

theorem Built.records (h : t.Built) (hd : d ∈ c.fields) :
    t.Records c d (t.standard? c d.name) where
  isSome_iff := by
    constructor
    · intro hs
      obtain ⟨i, hi⟩ := Option.isSome_iff_exists.mp hs
      exact of_decide_eq_true (has_of_standard? hi)
    · intro hc
      exact Option.isSome_iff_exists.mpr (h.exists_standard (decide_eq_true hc) hd)
  installed i hi :=
    h.exists_installed (of_decide_eq_true (has_of_standard? hi)) hd (h.get?_standard hd hi)
  get? i hi := h.get?_standard hd hi
  indexOf? i hi := by
    rwa [standard?, if_pos (has_of_standard? hi)] at hi

/-- The type is as the calls have it. -/
structure Composed (name : String) (calls : List Blueprint.Call) (t : NodeType) : Prop where
  sorted : t.capabilities = (Blueprint.compose name calls).capabilities.mergeSort Capability.le
  name : t.name = name
  capabilities : t.capabilities = Capability.all.filter (· ∈ Blueprint.named calls)
  declarations : t.table.declarations =
    t.capabilities.flatMap Capability.fields ++ Blueprint.declared calls
  content : t.content = Blueprint.lastContent calls
  behavior : t.behavior = Blueprint.lastBehavior calls
  children : t.Records .children ⟨.exposed, .multi .node, "children", .ofNodes []⟩ t.children?
  addChildren :
    t.Records .children ⟨.eventIn, .multi .node, "addChildren", .ofNodes []⟩ t.addChildren?
  removeChildren :
    t.Records .children ⟨.eventIn, .multi .node, "removeChildren", .ofNodes []⟩ t.removeChildren?
  enabled : t.Records .sensor ⟨.exposed, .single .bool, "enabled", .bool true⟩ t.enabled?
  url : t.Records .loadable ⟨.exposed, .multi .string, "url", .ofStrings []⟩ t.url?

end NodeType

namespace Blueprint

variable {name : String} {calls calls' : List Call} {t : NodeType}

theorem composed_of_build (h : (compose name calls).build = .ok t) : t.Composed name calls := by
  have built : t.Built := ⟨_, h⟩
  have distinct := (follows_foldl { name } calls).nodup List.nodup_nil
  rw [build_compose] at h
  obtain ⟨table, made, h⟩ := bind_eq_ok.mp h
  cases h
  exact {
    sorted := ((mergeSort_capabilities distinct).trans sortedCapabilities_compose).symm
    name := rfl
    capabilities := rfl
    declarations := (FieldTable.build_eq_ok made).1
    content := rfl
    behavior := rfl
    children := built.records (by decide)
    addChildren := built.records (by decide)
    removeChildren := built.records (by decide)
    enabled := built.records (by decide)
    url := built.records (by decide) }

/-- Calls that declare the same fields in the same order, name the same capabilities and end with
the same content and behavior build the same, an error or a type. The type has the fields of its
capabilities first, in the order of the capabilities, and goes by their positions. -/
theorem compose_exact (name : String) (declares : declared calls = declared calls')
    (names : ∀ c, c ∈ named calls ↔ c ∈ named calls')
    (content : lastContent calls = lastContent calls')
    (behavior : lastBehavior calls = lastBehavior calls') :
    (compose name calls).build = (compose name calls').build ∧
      ∀ t, (compose name calls).build = .ok t → t.Composed name calls :=
  ⟨build_congr declares names content behavior, fun _ ↦ composed_of_build⟩

def anchor : List Call :=
  [.exposed "description" (.single .string) (.string ""), .content .bytes, .capability .children,
    .field "solid" (.single .bool) (.bool true), .content .scene, .capability .metadata,
    .capability .children]

def anchorInOrder : List Call :=
  [.capability .metadata, .capability .children, .capability .loadable, .content .scene,
    .declare ⟨.exposed, .single .string, "description", .string ""⟩,
    .field "solid" (.single .bool) (.bool true)]

theorem compose_exact_anchor : declared anchor = declared anchorInOrder ∧
    (∀ c, c ∈ named anchor ↔ c ∈ named anchorInOrder) ∧
    lastContent anchor = lastContent anchorInOrder ∧
    lastBehavior anchor = lastBehavior anchorInOrder ∧
    ∃ t, (compose "Anchor" anchor).build = .ok t ∧
      (compose "Anchor" anchorInOrder).build = .ok t ∧ t.Composed "Anchor" anchor ∧
      (t.children?, t.removeChildren?, t.enabled?, t.url?) = (some 1, some 3, none, some 4) := by
  have declares : declared anchor = declared anchorInOrder := rfl
  have names (c : Capability) : c ∈ named anchor ↔ c ∈ named anchorInOrder := by
    cases c <;> decide
  obtain ⟨same, composed⟩ := compose_exact "Anchor" declares names rfl rfl
  have built : ((compose "Anchor" anchor).build.toOption.map fun t ↦
      (t.children?, t.removeChildren?, t.enabled?, t.url?)) =
        some (some 1, some 3, none, some 4) := by
    decide +kernel
  cases ht : (compose "Anchor" anchor).build with
  | error e =>
    rw [ht] at built
    cases built
  | ok t =>
    rw [ht] at built
    exact ⟨declares, names, rfl, rfl, t, rfl, same ▸ ht, composed t ht, Option.some.inj built⟩

end Blueprint

end SceneGraph
