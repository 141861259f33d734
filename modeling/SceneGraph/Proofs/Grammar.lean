import SceneGraph.Proofs.Typing
import SceneGraph.Scene.Reading

/-!
The grammar of texts. What may stand in a text depends on the types of the nodes and fields that it
is about and on the names bound before, so a derivation carries along what the text has said so far.
-/

namespace SceneGraph

/-- How the elements of a value stand in a text, and the values that are made of them. -/
structure Spelling (α : Type) where
  value? : Token → Option α
  single : α → Value
  array : List α → Value

namespace Spelling

def bool : Spelling Bool where
  value?
    | .keyword .true => some true
    | .keyword .false => some false
    | _ => none
  single := .bool
  array := .ofBools

/-- Integers have 32 bits. -/
def int32 : Spelling Int32 where
  value?
    | .int n => if -0x80000000 ≤ n ∧ n < 0x80000000 then some (.ofInt n) else none
    | _ => none
  single := .int32
  array := .ofInts

def double : Spelling Double where
  value?
    | .int n => some (.ofInt n)
    | .float x => some x
    | _ => none
  single := .double
  array := .ofDoubles

def float : Spelling Single where
  value? t := (double.value? t).map (Binary.convert .single)
  single := .float
  array := .ofFloats

def string : Spelling String where
  value?
    | .string s => some s
    | _ => none
  single := .string
  array := .ofStrings

variable {α : Type}

/-- The tokens stand for the elements, one for each. -/
def Lists (w : Spelling α) (ts : List Token) (as : List α) : Prop :=
  ts.map w.value? = as.map some

/-- The tokens stand for a value of the type: one element, as many as a tuple has components, or
for several elements a list in brackets or one element without them. -/
inductive Spells (w : Spelling α) : FieldType → List Token → Value → Prop
  | one {e t a} (width : e.components = 1) (h : w.value? t = some a) :
      Spells w (.single e) [t] (w.single a)
  | tuple {e ts as} (width : 1 < e.components) (h : w.Lists ts as)
      (length : as.length = e.components) : Spells w (.single e) ts (w.array as)
  | element {e ts as} (h : w.Lists ts as) (length : as.length = e.components) :
      Spells w (.multi e) ts (w.array as)
  | list {e ts as} (h : w.Lists ts as) :
      Spells w (.multi e) (.mark .openBracket :: ts ++ [.mark .closeBracket]) (w.array as)

end Spelling

/-- The tokens stand for a value of a type that has no nodes. -/
def FieldType.Spells (t : FieldType) (ts : List Token) (v : Value) : Prop :=
  match t.element.scalar with
  | .bool => Spelling.bool.Spells t ts v
  | .int32 => Spelling.int32.Spells t ts v
  | .float => Spelling.float.Spells t ts v
  | .double => Spelling.double.Spells t ts v
  | .string => Spelling.string.Spells t ts v
  | .node => False

def Statement.tokens (s : Statement) : List Token :=
  [.keyword .route, .ident s.fromNode, .mark .dot, .ident s.fromField, .keyword .into,
    .ident s.toNode, .mark .dot, .ident s.toField]

/-- What a text may refer to: the registered types and the names bound before. Its own nodes are
counted from `first` on. -/
structure Language where
  types : Catalog
  first : Nat
  bound : String → Option NodeId

/-- What a text has said: the types of its nodes in the order in which they open, the values that it
gives to their fields and the names that it binds, the latest first, and its routes with their
places. -/
structure Gist where
  types : List NodeType := []
  writes : List ((NodeId × Nat) × Value) := []
  labels : List (String × NodeId) := []
  routes : List (Statement × Nat) := []

namespace Gist

variable (l : Language) (g : Gist)

def next : NodeId := .issued (l.first + g.types.length)

/-- The nodes of the text, in the order in which they open. -/
def nodes : List NodeId := (List.range g.types.length).map fun k ↦ .issued (l.first + k)

def type? : NodeId → Option NodeType
  | .issued k => if l.first ≤ k then g.types[k - l.first]? else none
  | .void => none

def create (type : NodeType) : Gist := { g with types := g.types ++ [type] }

def label (id : NodeId) (name : Option String) : Gist :=
  { g with labels := (name.map fun n ↦ (n, id)).toList ++ g.labels }

/-- The latest node with the name. -/
def named? (name : String) : Option NodeId := (g.labels.lookup name).or (l.bound name)

def write (id : NodeId) (index : Nat) (v : Value) : Gist :=
  { g with writes := ((id, index), v) :: g.writes }

/-- The last value that the text gives to the field. -/
def given? (id : NodeId) (index : Nat) : Option Value := g.writes.lookup (id, index)

/-- What the fields of a node of the type hold: where the text gives nothing, the default. -/
def values (id : NodeId) (type : NodeType) : List Value :=
  type.table.defaults.mapIdx fun i v ↦ (g.given? id i).getD v

def addRoute (s : Statement) (start : Nat) : Gist := { g with routes := g.routes ++ [(s, start)] }

/-- A node of the type in setup takes the value for its field. -/
def Accepts (type : NodeType) (index : Nat) (v : Value) : Prop :=
  ∃ d, type.table.get? index = some d ∧ d.access ≠ .eventOut ∧ d.shapeFault? v = none ∧
    type.behavior.validate (l.first + g.types.length) index d v = .ok ()

end Gist

/-- The nonterminals of the grammar, each with what it stands for. -/
inductive Phrase where
  /-- The statements and routes of a text, with the nodes at its top level. -/
  | document (ids : List NodeId)
  | statement (id : Option NodeId)
  | statements (ids : List NodeId)
  | node (name : Option String) (id : NodeId)
  /-- The fields and routes between the braces of a node. -/
  | body (id : NodeId)
  | value (type : FieldType) (v : Value)

/-- The tokens derive from the phrase after the text has said `g`, and then it has said `g'`. -/
inductive Derives (l : Language) : Gist → Phrase → List Spanned → Gist → Prop
  | finish {g} : Derives l g (.document []) [] g
  | documentRoute {g s r ts ids rest g'} (route : (r :: ts).map Spanned.token = s.tokens)
      (h : Derives l (g.addRoute s r.start) (.document ids) rest g') :
      Derives l g (.document ids) (r :: ts ++ rest) g'
  | documentStatement {g id ts g₁ ids rest g'} (first : Derives l g (.statement id) ts g₁)
      (h : Derives l g₁ (.document ids) rest g') :
      Derives l g (.document (id.toList ++ ids)) (ts ++ rest) g'
  | null {g t} (ht : t.token = .keyword .null) : Derives l g (.statement none) [t] g
  | use {g t n name id} (ht : t.token = .keyword .use) (hn : n.token = .ident name)
      (bound : g.named? l name = some id) : Derives l g (.statement (some id)) [t, n] g
  | define {g t n name id ts g'} (ht : t.token = .keyword .define) (hn : n.token = .ident name)
      (h : Derives l g (.node (some name) id) ts g') :
      Derives l g (.statement (some id)) (t :: n :: ts) g'
  | bare {g id ts g'} (h : Derives l g (.node none id) ts g') :
      Derives l g (.statement (some id)) ts g'
  | node {g t typeName type name o ts c g'} (ht : t.token = .ident typeName)
      (known : l.types.get? typeName = some type) (ho : o.token = .mark .openBrace)
      (h : Derives l ((g.create type).label (g.next l) name) (.body (g.next l)) ts g')
      (hc : c.token = .mark .closeBrace) :
      Derives l g (.node name (g.next l)) (t :: o :: (ts ++ [c])) g'
  | done {g id} : Derives l g (.body id) [] g
  | bodyRoute {g id s r ts rest g'} (route : (r :: ts).map Spanned.token = s.tokens)
      (h : Derives l (g.addRoute s r.start) (.body id) rest g') :
      Derives l g (.body id) (r :: ts ++ rest) g'
  | field {g id t name type index d v ts g₁ rest g'} (ht : t.token = .ident name)
      (typed : g.type? l id = some type) (named : type.table.indexOf? name = some index)
      (declared : type.table.get? index = some d) (value : Derives l g (.value d.type v) ts g₁)
      (accepted : g₁.Accepts l type index v)
      (h : Derives l (g₁.write id index v) (.body id) rest g') :
      Derives l g (.body id) (t :: (ts ++ rest)) g'
  | plain {g type ts v} (h : type.Spells (ts.map Spanned.token) v) :
      Derives l g (.value type v) ts g
  | reference {g id ts g'} (h : Derives l g (.statement id) ts g') :
      Derives l g (.value (.single .node) (.node id)) ts g'
  | member {g id ts g'} (h : Derives l g (.statement id) ts g') :
      Derives l g (.value (.multi .node) (.ofNodes id.toList)) ts g'
  | members {g o ids ts c g'} (ho : o.token = .mark .openBracket)
      (h : Derives l g (.statements ids) ts g') (hc : c.token = .mark .closeBracket) :
      Derives l g (.value (.multi .node) (.ofNodes ids)) (o :: (ts ++ [c])) g'
  | nil {g} : Derives l g (.statements []) [] g
  | cons {g id ts g₁ ids rest g'} (first : Derives l g (.statement id) ts g₁)
      (h : Derives l g₁ (.statements ids) rest g') :
      Derives l g (.statements (id.toList ++ ids)) (ts ++ rest) g'

end SceneGraph
