import JsonTemplate.Json.Basic

/-!
Places in a document. A path leads from the root through keys and positions; its role
tells a key from the value that is stored under it.
-/

namespace JsonTemplate

inductive Segment
  | key (name : String)
  | index (position : Nat)
deriving DecidableEq

inductive Role
  | key
  | value
deriving DecidableEq

structure Path where
  segments : List Segment
  role : Option Role
deriving DecidableEq

def Segment.text : Segment → String
  | key name => name
  | index position => Nat.repr position

namespace Path

def root : Path := ⟨[], none⟩

def isRoot (p : Path) : Bool := p.segments.isEmpty

def child (p : Path) (s : Segment) (role : Option Role) : Path := ⟨p.segments ++ [s], role⟩

def dotted (p : Path) : String := ".".intercalate (p.segments.map Segment.text)

def display (p : Path) : String := if p.isRoot then "<root>" else p.dotted

/-- The name that a path ends in, positions after it left aside. -/
def lastKey? (segments : List Segment) : Option String :=
  segments.reverse.findSome? fun
    | .key name => some name
    | .index _ => none

end Path

namespace Json

/-- Follows keys and positions. A position in a string is a character of it and stays at
the string. -/
def descend? : List Segment → Json → Option Json
  | [], v => some v
  | .index i :: rest, .arr items => items[i]?.bind (descend? rest)
  | .index _ :: _, .str s => some (.str s)
  | .key name :: rest, .obj fields => (Fields.get? fields name).bind (descend? rest)
  | _ :: _, _ => none

/-- What a path points at. The path of a key leads to the key's name. -/
def at? (document : Json) (p : Path) : Option Json :=
  match p.role with
  | some .key => (Path.lastKey? p.segments).map str
  | _ => descend? p.segments document

end Json
end JsonTemplate
