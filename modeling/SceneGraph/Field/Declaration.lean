import SceneGraph.Error
import SceneGraph.Field.Value

namespace SceneGraph

structure Declaration where
  access : Access
  type : FieldType
  name : String
  default : Value
  deriving DecidableEq

namespace Declaration

/-- Every spelling that names the field: an exposed field is also an input and an output. -/
def spellings (d : Declaration) : List String :=
  match d.access with
  | .exposed => [d.name, "set_" ++ d.name, d.name ++ "_changed"]
  | .field | .eventIn | .eventOut => [d.name]

/-- Whether the field can hold `v`: the kind of its type, and for vectors whole elements, exactly
one of them in a tuple. -/
def shapeFault? (d : Declaration) (v : Value) : Option (FieldFault ⊕ ValueFault) :=
  let n := v.validCount
  if v.kind ≠ d.type.kind then some (.inl (.kind d.type v.kind))
  else if d.type.kind ≠ ⟨true, .float⟩ then none
  else if d.type.isFixedTuple ∧ n ≠ d.type.components then some (.inr (.notExactly d.type n))
  else if d.type.isMulti ∧ n % d.type.components ≠ 0 then some (.inr (.notMultiple d.type n))
  else none

/-- Refuses values the field cannot hold, on behalf of nodes of type `owner`. -/
def checkShape (d : Declaration) (owner : String) (v : Value) : Except Error Unit :=
  match d.shapeFault? v with
  | none => .ok ()
  | some (.inl fault) => .error (.field owner d.name fault)
  | some (.inr fault) => .error (.value owner d.name fault)

end Declaration

end SceneGraph
