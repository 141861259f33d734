import SceneGraph.Content.Basic

namespace SceneGraph

structure FileTree where
  base : List String
  directories : List (List String)
  files : List (List String × ByteArray)

namespace FileTree

def enter (dir : List String) (segment : String) : List String :=
  if segment = "" ∨ segment = "." then dir
  else if segment = ".." then dir.dropLast
  else dir ++ [segment]

/-- The directory, and each place that the segments lead to in turn. -/
def places (dir : List String) : List String → List (List String)
  | [] => [dir]
  | segment :: rest => dir :: places (enter dir segment) rest

def empty (base : String) : FileTree := ⟨(base.splitOn "/").foldl enter [], [], []⟩

/-- A write makes each directory on the way, also one that the path leaves again. -/
def write (t : FileTree) (path : String) (bytes : ByteArray) : FileTree :=
  let segments := path.splitOn "/"
  { t with
    directories := places t.base segments.dropLast ++ t.directories
    files := (segments.foldl enter t.base, bytes) :: t.files }

def ofFiles (base : String) (files : List (String × ByteArray)) : FileTree :=
  files.foldl (fun t (path, bytes) => t.write path bytes) (empty base)

def isDirectory (t : FileTree) (path : List String) : Bool :=
  path.isPrefixOf t.base || t.directories.contains path

/-- Follows the segments from a directory; only a file may end the way. -/
def walk (t : FileTree) (dir : List String) : List String → Option ByteArray
  | [] => none
  | segment :: rest =>
    let path := enter dir segment
    if t.isDirectory path then walk t path rest
    else if rest.isEmpty then t.files.lookup path
    else none

/-- A url is a path, with or without the scheme of files. -/
def read? (t : FileTree) (url : String) : Option ByteArray :=
  let path := if url.startsWith "file://" then (url.drop 7).toString else url
  t.walk (if path.startsWith "/" then [] else t.base) (path.splitOn "/")

def provider (t : FileTree) : Provider where
  fetch url :=
    match t.read? url with
    | some bytes => .ok bytes
    | none => .error .io

end FileTree

end SceneGraph
