import SceneGraph.Error

namespace SceneGraph

/-- Bytes fetched for a url. The serial number tells two fetches of equal bytes apart. -/
structure Content where
  serial : Nat
  url : String
  bytes : ByteArray

namespace Content

def text? (c : Content) : Option String := String.fromUTF8? c.bytes

end Content

structure Provider where
  fetch : String → Except Error ByteArray

namespace Provider

/-- A fetch that was cancelled before it began does not look at the source. -/
def request (p : Provider) (cancelled : Bool) (url : String) : Except Error ByteArray :=
  if cancelled then .error (.content .cancelled) else p.fetch url

/-- Serves entries from memory; the last entry for a url counts. -/
def ofEntries (entries : List (String × ByteArray)) : Provider where
  fetch url :=
    match entries.reverse.lookup url with
    | some bytes => .ok bytes
    | none => .error (.content (.missing url))

end Provider

end SceneGraph
