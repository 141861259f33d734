import SceneGraph.Document.Draft
import SceneGraph.Document.Token

namespace SceneGraph.Reader

/-- The tokens left after reading at least one. -/
abbrev Rest (ts : List Spanned) := { rest : List Spanned // rest.length < ts.length }

/-- A complaint about the first token, or about the end of the text. -/
def complain (env : Surroundings) (wanted : String) : List Spanned → Fault
  | [] => .textual env.stop (.expected wanted none)
  | t :: _ => .textual t.start (.expected wanted (some t.token))

structure Item (α : Type) where
  wanted : String
  /-- None where another token is wanted. -/
  read : Token → Option (Except Complaint α)

namespace Item

def mark (m : Mark) (wanted : String) : Item Unit where
  wanted
  read t := if t = .mark m then some (.ok ()) else none

def keyword (k : Keyword) (wanted : String) : Item Unit where
  wanted
  read t := if t = .keyword k then some (.ok ()) else none

def ident (wanted : String) : Item String where
  wanted
  read
    | .ident name => some (.ok name)
    | _ => none

def bool : Item Bool where
  wanted := "TRUE or FALSE"
  read
    | .keyword .true => some (.ok true)
    | .keyword .false => some (.ok false)
    | _ => none

def int32 : Item Int32 where
  wanted := "an integer"
  read
    | .int n =>
      some (if -0x80000000 ≤ n ∧ n < 0x80000000 then .ok (.ofInt n) else .error (.tooWide n))
    | _ => none

def double : Item Double where
  wanted := "a number"
  read
    | .int n => some (.ok (.ofInt n))
    | .float x => some (.ok x)
    | _ => none

def float : Item Single where
  wanted := double.wanted
  read t := (double.read t).map (Except.map (Binary.convert .single))

def string : Item String where
  wanted := "a string"
  read
    | .string s => some (.ok s)
    | _ => none

end Item

variable {α : Type}

def one (env : Surroundings) (item : Item α) : (ts : List Spanned) → Except Fault (α × Rest ts)
  | [] => .error (complain env item.wanted [])
  | t :: ts =>
    match item.read t.token with
    | some (.ok v) => .ok (v, ⟨ts, Nat.lt_succ_self _⟩)
    | some (.error c) => .error (.textual t.start c)
    | none => .error (complain env item.wanted (t :: ts))

def exactly (env : Surroundings) (item : Item α) :
    (n : Nat) → (ts : List Spanned) →
      Except Fault (List α × { rest : List Spanned // rest.length + n ≤ ts.length })
  | 0, ts => .ok ([], ⟨ts, Nat.le_refl _⟩)
  | n + 1, ts => do
    let (v, r) ← one env item ts
    let (vs, r') ← exactly env item n r.1
    return (v :: vs, ⟨r'.1, by have := r.2; have := r'.2; omega⟩)

def bracketed (env : Surroundings) (item : Item α) :
    (ts : List Spanned) → Except Fault (List α × Rest ts)
  | [] => .error (complain env "']'" [])
  | t :: ts =>
    if t.token = .mark .closeBracket then .ok ([], ⟨ts, Nat.lt_succ_self _⟩)
    else
      match item.read t.token with
      | some (.ok v) => do
        let (vs, r) ← bracketed env item ts
        return (v :: vs, ⟨r.1, Nat.lt_succ_of_lt r.2⟩)
      | some (.error c) => .error (.textual t.start c)
      | none => .error (complain env item.wanted (t :: ts))

/-- A list in brackets, or the items of one element without them. -/
def list (env : Surroundings) (item : Item α) (width : Nat) (positive : 0 < width)
    (ts : List Spanned) : Except Fault (List α × Rest ts) :=
  match ts with
  | ⟨.mark .openBracket, _, _⟩ :: rest => do
    let (vs, r) ← bracketed env item rest
    return (vs, ⟨r.1, Nat.lt_succ_of_lt r.2⟩)
  | ts => do
    let (vs, r) ← exactly env item width ts
    return (vs, ⟨r.1, by have := r.2; omega⟩)

/-- An array value: a tuple has exactly its components, any other type has a list. -/
def array (env : Surroundings) (t : FieldType) (item : Item α) (make : List α → Value)
    (ts : List Spanned) : Except Fault (Value × Rest ts) := do
  if t.isFixedTuple then
    let (vs, r) ← exactly env item t.components ts
    return (make vs, ⟨r.1, by have := r.2; have := t.components_pos; omega⟩)
  else
    let (vs, r) ← list env item t.components t.components_pos ts
    return (make vs, r)

def scalar (env : Surroundings) (item : Item α) (make : α → Value) (ts : List Spanned) :
    Except Fault (Value × Rest ts) := do
  let (v, r) ← one env item ts
  return (make v, r)

def plainValue (env : Surroundings) (t : FieldType) (ts : List Spanned) :
    Except Fault (Value × Rest ts) :=
  match t.kind.scalar, t.kind.isArray with
  | .bool, false => scalar env .bool .bool ts
  | .bool, true => array env t .bool .ofBools ts
  | .int32, false => scalar env .int32 .int32 ts
  | .int32, true => array env t .int32 .ofInts ts
  | .float, false => scalar env .float .float ts
  | .float, true => array env t .float .ofFloats ts
  | .double, false => scalar env .double .double ts
  | .double, true => array env t .double .ofDoubles ts
  | .string, false => scalar env .string .string ts
  | .string, true => array env t .string .ofStrings ts
  | .node, _ => .error (complain env "a value" ts)

/-- A route statement, which begins at the first token. -/
def routeStatement (env : Surroundings) (ts : List Spanned) :
    Except Fault (Statement × Rest ts) := do
  let ((), r) ← one env (.keyword .route "ROUTE") ts
  let (fromNode, r) ← next r (one env (.ident "node name") r.1)
  let ((), r) ← next r (one env (.mark .dot "'.'") r.1)
  let (fromField, r) ← next r (one env (.ident "field name") r.1)
  let ((), r) ← next r (one env (.keyword .into "TO") r.1)
  let (toNode, r) ← next r (one env (.ident "node name") r.1)
  let ((), r) ← next r (one env (.mark .dot "'.'") r.1)
  let (toField, r) ← next r (one env (.ident "field name") r.1)
  return (⟨fromNode, fromField, toNode, toField⟩, r)
where
  next {α : Type} {ts : List Spanned} (r : Rest ts) (x : Except Fault (α × Rest r.1)) :
      Except Fault (α × Rest ts) :=
    x.map fun (v, r') => (v, ⟨r'.1, Nat.lt_trans r'.2 r.2⟩)

/-- The result of reading part of a text: a value, the draft with it, and the tokens left. A fault
comes with the draft up to it. -/
abbrev Reading (α : Type) (ts : List Spanned) :=
  Except (Fault × Draft) (α × Draft × Rest ts)

/-- A fault that leaves the draft as it is. -/
def keeping (d : Draft) (x : Except Fault α) : Except (Fault × Draft) α := x.mapError (·, d)

/-- Where the first token starts, or the text ends. -/
def startOf (env : Surroundings) (ts : List Spanned) : Nat :=
  (ts.head?.map Spanned.start).getD env.stop

def addRoute (env : Surroundings) (d : Draft) (ts : List Spanned) : Reading Unit ts := do
  let (s, r) ← keeping d (routeStatement env ts)
  return ((), d.addRoute s (startOf env ts), r)

def nameNode (env : Surroundings) (d : Draft) (id : NodeId) :
    Option String → Except (Fault × Draft) Draft
  | none => .ok d
  | some name => keeping d (d.define env name id)

/-- The type and the opening brace of a node, which is created and named in between. -/
def header (env : Surroundings) (d : Draft) (name : Option String) (ts : List Spanned) :
    Reading NodeId ts := do
  let (typeName, r) ← keeping d (one env (.ident "node type") ts)
  let (id, d) ← keeping d (d.create env (startOf env ts) typeName)
  let d ← nameNode env d id name
  let ((), r') ← keeping d (one env (.mark .openBrace "'\x7b'") r.1)
  return (id, d, ⟨r'.1, Nat.lt_trans r'.2 r.2⟩)

def nameAfter (env : Surroundings) (d : Draft) (wanted : String) (ts : List Spanned) :
    Except (Fault × Draft) (String × Rest ts) :=
  keeping d (one env (.ident wanted) ts)

mutual

/-- A node, by definition or by name, or no node. -/
def statement (env : Surroundings) (d : Draft) (ts : List Spanned) :
    Reading (Option NodeId) ts :=
  match ts with
  | ⟨.keyword .null, _, _⟩ :: rest => .ok (none, d, ⟨rest, Nat.lt_succ_self _⟩)
  | ⟨.keyword .use, _, _⟩ :: rest => do
    let (name, r) ← nameAfter env d "node name after USE" rest
    match d.named? env name with
    | some id => return (some id, d, ⟨r.1, Nat.lt_succ_of_lt r.2⟩)
    | none => throw (.textual (startOf env rest) (.undefined name), d)
  | ⟨.keyword .define, _, _⟩ :: rest => do
    let (name, r) ← nameAfter env d "node name after DEF" rest
    let (id, d, r') ← header env d (some name) r.1
    have := r.2
    have := r'.2
    let ((), d, r'') ← body env d id r'.1
    return (some id, d, ⟨r''.1, by have := r''.2; simp only [List.length_cons]; omega⟩)
  | ⟨.ident typeName, start, stop⟩ :: rest => do
    let (id, d, r) ← header env d none (⟨.ident typeName, start, stop⟩ :: rest)
    have := r.2
    let ((), d, r') ← body env d id r.1
    return (some id, d, ⟨r'.1, by have := r'.2; omega⟩)
  | ts => throw (complain env "a node" ts, d)
termination_by (ts.length, 0)

/-- Node statements up to the closing bracket. Where no node is named there is none. -/
def statements (env : Surroundings) (d : Draft) (ts : List Spanned) :
    Reading (List NodeId) ts :=
  match ts with
  | [] => throw (complain env "']'" [], d)
  | t :: rest => do
    if t.token = .mark .closeBracket then return ([], d, ⟨rest, Nat.lt_succ_self _⟩)
    let (id, d, r) ← statement env d (t :: rest)
    have := r.2
    let (ids, d, r') ← statements env d r.1
    return (id.toList ++ ids, d, ⟨r'.1, by have := r'.2; omega⟩)
termination_by (ts.length, 1)

/-- The fields and routes of a node up to the closing brace. -/
def body (env : Surroundings) (d : Draft) (id : NodeId) (ts : List Spanned) : Reading Unit ts :=
  match ts with
  | ⟨.mark .closeBrace, _, _⟩ :: rest => .ok ((), d, ⟨rest, Nat.lt_succ_self _⟩)
  | ⟨.keyword .route, start, stop⟩ :: rest => do
    let ((), d, r) ← addRoute env d (⟨.keyword .route, start, stop⟩ :: rest)
    have := r.2
    let ((), d, r') ← body env d id r.1
    return ((), d, ⟨r'.1, by have := r'.2; omega⟩)
  | ⟨.ident name, start, _⟩ :: rest => do
    let (index, type) ← keeping d (d.locate id start name)
    let (v, d, r) ← fieldValue env d type rest
    have := r.2
    let d ← keeping d (d.set id index (startOf env rest) v)
    let ((), d, r') ← body env d id r.1
    return ((), d, ⟨r'.1, by have := r'.2; simp only [List.length_cons]; omega⟩)
  | ts => throw (complain env "a field name or '\x7d'" ts, d)
termination_by (ts.length, 0)

def fieldValue (env : Surroundings) (d : Draft) (t : FieldType) (ts : List Spanned) :
    Reading Value ts :=
  if t.element ≠ .node then do
    let (v, r) ← keeping d (plainValue env t ts)
    return (v, d, r)
  else if t.isMulti = false then do
    let (id, d, r) ← statement env d ts
    return (.node id, d, r)
  else
    match ts with
    | ⟨.mark .openBracket, _, _⟩ :: rest => do
      let (ids, d, r) ← statements env d rest
      return (.ofNodes ids, d, ⟨r.1, Nat.lt_succ_of_lt r.2⟩)
    | ts => do
      let (id, d, r) ← statement env d ts
      return (.ofNodes id.toList, d, r)
termination_by (ts.length, 2)

end

/-- The statements of a whole text, with the nodes at its top level. -/
def document (env : Surroundings) (d : Draft) (ts : List Spanned) :
    Except (Fault × Draft) (List NodeId × Draft) :=
  match ts with
  | [] => .ok ([], d)
  | t :: rest => do
    match t.token with
    | .keyword .route =>
      let ((), d, r) ← addRoute env d (t :: rest)
      document env d r.1
    | .keyword .proto | .keyword .externProto => throw (.textual t.start .prototype, d)
    | _ =>
      let (id, d, r) ← statement env d (t :: rest)
      let (ids, d) ← document env d r.1
      return (id.toList ++ ids, d)
termination_by ts.length
decreasing_by all_goals exact r.2

end SceneGraph.Reader
