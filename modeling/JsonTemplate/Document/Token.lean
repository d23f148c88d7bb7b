import JsonTemplate.Document.Path

/-!
A document as a stream of tokens. Containers, entries, keys and values are bracketed by
opening and closing tokens, and a string is spelled out character by character, so that
rules read both levels alike.
-/

namespace JsonTemplate

inductive Bracket
  | object
  | objectEntry
  | objectKey
  | value
  | array
  | arrayEntry
  | string
deriving DecidableEq

/-- The kind of a token without the scalar it carries. -/
inductive Tag
  | opening (b : Bracket)
  | closing (b : Bracket)
  | char
  | number
  | bool
  | null
deriving DecidableEq

inductive Kind
  | opening (b : Bracket)
  | closing (b : Bracket)
  | char (c : Char)
  | number (n : Number)
  | bool (b : Bool)
  | null
deriving DecidableEq

def Kind.tag : Kind → Tag
  | opening b => .opening b
  | closing b => .closing b
  | char _ => .char
  | number _ => .number
  | bool _ => .bool
  | null => .null

/-- Where a character stands: its string, which all characters of the string share, and the
place of its first byte in there. -/
structure Source where
  text : String
  offset : String.Pos.Raw
deriving DecidableEq

/-- What the string spells from the place on; nothing if no character begins there. -/
def Source.rest (s : Source) : List Char :=
  match s.text.pos? s.offset with
  | some place => (s.text.sliceFrom place).copy.toList
  | none => []

/-- A token and the place it was made for. Only characters have a source. -/
structure Token where
  kind : Kind
  path : Path
  source : Option Source
deriving DecidableEq

namespace Token

/-- What its string still spells from this character on; nothing for other tokens. -/
def rest (t : Token) : List Char :=
  match t.source with
  | some source => source.rest
  | none => []

def mark (kind : Kind) (path : Path) : Token := ⟨kind, path, none⟩

/-- The characters of a text from position `i` on, the first of which begins at the offset.
They share the role of their string. -/
def ofChars (path : Path) (text : String) : Nat → String.Pos.Raw → List Char → List Token
  | _, _, [] => []
  | i, offset, c :: rest =>
      ⟨.char c, path.child (.index i) path.role, some ⟨text, offset⟩⟩
        :: ofChars path text (i + 1) (offset + c) rest

def ofString (path : Path) (s : String) : List Token :=
  mark (.opening .string) path
    :: ofChars path s 0 0 s.toList ++ [mark (.closing .string) path]

mutual

def ofJson (path : Path) : Json → List Token
  | .null => [mark .null path]
  | .bool b => [mark (.bool b) path]
  | .num n => [mark (.number n) path]
  | .str s => ofString path s
  | .arr items =>
      mark (.opening .array) path :: ofItems path 0 items ++ [mark (.closing .array) path]
  | .obj fields =>
      mark (.opening .object) path :: ofFields path fields ++ [mark (.closing .object) path]

def ofItems (path : Path) (i : Nat) : List Json → List Token
  | [] => []
  | item :: rest =>
      mark (.opening .arrayEntry) path
        :: ofJson (path.child (.index i) none) item
        ++ mark (.closing .arrayEntry) path :: ofItems path (i + 1) rest

def ofFields (path : Path) : List (String × Json) → List Token
  | [] => []
  | (name, value) :: rest =>
      [mark (.opening .objectEntry) path, mark (.opening .objectKey) path]
        ++ ofString (path.child (.key name) (some .key)) name
        ++ [mark (.closing .objectKey) path, mark (.opening .value) path]
        ++ ofJson (path.child (.key name) (some .value)) value
        ++ [mark (.closing .value) path, mark (.closing .objectEntry) path]
        ++ ofFields path rest

end

end Token

abbrev Stream := Array Token

namespace Stream

def ofJson (document : Json) : Stream := (Token.ofJson .root document).toArray

/-- The characters that the string at a place still spells; none at a token that is no
character, and none past the end. -/
def charsAt (tokens : Stream) (position : Nat) : List Char :=
  match tokens[position]? with
  | some token => token.rest
  | none => []

def tagAt? (tokens : Stream) (position : Nat) : Option Tag :=
  tokens[position]?.map fun t => t.kind.tag

end Stream
end JsonTemplate
