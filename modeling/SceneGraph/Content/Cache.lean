import SceneGraph.Content.Basic

namespace SceneGraph

/-- Content by url that does not keep the content alive: an entry is live only as long as somebody
else holds the content. -/
structure Cache where
  entries : List (String × Nat)
  issued : Nat

namespace Cache

def empty : Cache := ⟨[], 0⟩

def size (c : Cache) : Nat := c.entries.length

def mint (c : Cache) (url : String) (bytes : ByteArray) : Content × Cache :=
  (⟨c.issued, url, bytes⟩, { c with issued := c.issued + 1 })

def remove (c : Cache) (url : String) : Bool × Cache :=
  ((c.entries.lookup url).isSome, { c with entries := c.entries.filter fun e => e.1 ≠ url })

def insert (c : Cache) (url : String) (content : Content) : Cache :=
  { (c.remove url).2 with entries := (c.remove url).2.entries ++ [(url, content.serial)] }

/-- The content under `url` if it is among what is `held`. A dead entry on the way is dropped. -/
def get (c : Cache) (held : List Content) (url : String) : Option Content × Cache :=
  match c.entries.lookup url with
  | none => (none, c)
  | some serial =>
    match held.find? fun content => content.serial = serial with
    | some content => (some content, c)
    | none => (none, (c.remove url).2)

def purge (c : Cache) (held : List Content) : Nat × Cache :=
  let live := c.entries.filter fun e => held.any fun content => content.serial = e.2
  (c.size - live.length, { c with entries := live })

def clear (c : Cache) : Cache := { c with entries := [] }

end Cache

end SceneGraph
