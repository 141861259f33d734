import SceneGraph.Field.Declaration

namespace SceneGraph

structure FieldTable where
  declarations : List Declaration

namespace FieldTable

def size (t : FieldTable) : Nat := t.declarations.length

def get? (t : FieldTable) (index : Nat) : Option Declaration := t.declarations[index]?

def indexOf? (t : FieldTable) (spelling : String) : Option Nat :=
  t.declarations.findIdx? fun d => spelling ∈ d.spellings

def nodeFields (t : FieldTable) : List Nat :=
  (List.range t.size).filter fun i => (t.get? i).any fun d => d.type.kind.isNode

def defaults (t : FieldTable) : List Value := t.declarations.map Declaration.default

/-- The first spelling of `d` that names an earlier declaration, with its owner's name. -/
def clash? (earlier : List Declaration) (d : Declaration) : Option (String × String) :=
  d.spellings.findSome? fun s =>
    (earlier.find? fun e => s ∈ e.spellings).map fun e => (s, e.name)

/-- A declaration needs a default that it can hold and spellings of its own. -/
def checkNext (owner : String) (earlier : List Declaration) (d : Declaration) : Except Error Unit :=
  match d.checkShape owner d.default with
  | .error e => .error (.field owner d.name (.badDefault e.message))
  | .ok () =>
    match clash? earlier d with
    | some (s, name) => .error (.field owner d.name (.nameTaken s name))
    | none => .ok ()

def admitAll (owner : String) : List Declaration → List Declaration → Except Error Unit
  | _, [] => .ok ()
  | earlier, d :: rest =>
    match checkNext owner earlier d with
    | .error e => .error e
    | .ok () => admitAll owner (earlier ++ [d]) rest

def build (owner : String) (declarations : List Declaration) : Except Error FieldTable :=
  match admitAll owner [] declarations with
  | .error e => .error e
  | .ok () => .ok ⟨declarations⟩

end FieldTable

end SceneGraph
