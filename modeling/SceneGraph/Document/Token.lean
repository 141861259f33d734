import SceneGraph.Number.Decimal

namespace SceneGraph

inductive Keyword where
  | define
  | use
  | route
  | into
  | null
  | true
  | false
  | proto
  | externProto
  | is
  deriving DecidableEq, Repr

namespace Keyword

def all : List Keyword :=
  [define, use, route, into, null, true, false, proto, externProto, is]

def spelling : Keyword → String
  | define => "DEF"
  | use => "USE"
  | route => "ROUTE"
  | into => "TO"
  | null => "NULL"
  | true => "TRUE"
  | false => "FALSE"
  | proto => "PROTO"
  | externProto => "EXTERNPROTO"
  | is => "IS"

def name : Keyword → String
  | define => "Def"
  | use => "Use"
  | route => "Route"
  | into => "To"
  | null => "Null"
  | true => "True"
  | false => "False"
  | proto => "Proto"
  | externProto => "ExternProto"
  | is => "Is"

def ofSpelling? (s : String) : Option Keyword := all.find? fun k => k.spelling = s

end Keyword

inductive Mark where
  | openBrace
  | closeBrace
  | openBracket
  | closeBracket
  | dot
  deriving DecidableEq, Repr

namespace Mark

def ofChar? (c : Char) : Option Mark :=
  if c = '\x7b' then some openBrace
  else if c = '\x7d' then some closeBrace
  else if c = '[' then some openBracket
  else if c = ']' then some closeBracket
  else if c = '.' then some dot
  else none

def name : Mark → String
  | openBrace => "LBrace"
  | closeBrace => "RBrace"
  | openBracket => "LBracket"
  | closeBracket => "RBracket"
  | dot => "Dot"

end Mark

inductive Token where
  | mark (m : Mark)
  | keyword (k : Keyword)
  | int (n : Int)
  | float (x : Double)
  | string (s : String)
  | ident (s : String)
  deriving DecidableEq, Repr

def Token.describe : Token → String
  | mark m => m.name
  | keyword k => k.name
  | int n => s!"number {n}"
  | float x => s!"number {x}"
  | string s => s!"string \"{s}\""
  | ident s => s!"'{s}'"

structure Spanned where
  token : Token
  start : Nat
  stop : Nat
  deriving DecidableEq, Repr

end SceneGraph
