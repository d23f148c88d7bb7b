import JsonTemplate.Document.Token
import JsonTemplate.Json.Printer
import JsonTemplate.Text.Shapeless

/-!
Tokens as lines of text and as documents.
-/

namespace JsonTemplate

def Bracket.name : Bracket → String
  | object => "Object"
  | objectEntry => "ObjectEntry"
  | objectKey => "ObjectKey"
  | value => "Value"
  | array => "Array"
  | arrayEntry => "ArrayEntry"
  | string => "String"

def Bracket.all : List Bracket := [object, objectEntry, objectKey, value, array, arrayEntry, string]

namespace Tag

def name : Tag → String
  | opening b => b.name ++ "Start"
  | closing b => b.name ++ "End"
  | char => "Char"
  | number => "Number"
  | bool => "Bool"
  | null => "Null"

def all : List Tag :=
  Bracket.all.map opening ++ Bracket.all.map closing ++ [char, number, bool, null]

def ofName? (s : String) : Option Tag := all.find? fun tag => tag.name = s

end Tag

namespace Role

def name : Role → String
  | key => "key"
  | value => "value"

end Role

/-- A character in single quotes; one without a shape is given by its number. -/
def quotedChar (c : Char) : String :=
  let body :=
    match c with
    | '\n' => "\\n"
    | '\r' => "\\r"
    | '\t' => "\\t"
    | '\x00' => "\\0"
    | '\'' => "\\'"
    | '\\' => "\\\\"
    | c =>
        if isShapeless c then "\\u\x7b" ++ String.ofList (Nat.toDigits 16 c.toNat) ++ "\x7d"
        else String.singleton c
  "'" ++ body ++ "'"

def Kind.text : Kind → String
  | char c => "Char(" ++ quotedChar c ++ ")"
  | number n => "Number(" ++ n.render ++ ")"
  | bool b => "Bool(" ++ (if b then "true" else "false") ++ ")"
  | kind => kind.tag.name

def Kind.toJson : Kind → Json
  | char c => .obj [("Char", .str (String.singleton c))]
  | number n => .obj [("Number", .num n)]
  | bool b => .obj [("Bool", .bool b)]
  | kind => .str kind.tag.name

def Segment.toJson : Segment → Json
  | key name => .str name
  | index position => (Json.int? position).getD .null

def Path.toJson (p : Path) : Json :=
  .obj [("segments", .arr (p.segments.map Segment.toJson)),
    ("role", match p.role with
      | none => .null
      | some role => .str role.name)]

def Token.toJson (t : Token) : Json := .obj [("kind", t.kind.toJson), ("path", t.path.toJson)]

def padding (width : Nat) (s : String) : String :=
  String.ofList (List.replicate (width - s.length) ' ')

/-- A token on a line of its own: its position, its kind in a column, its path. -/
def Token.line (position : Nat) (t : Token) : String :=
  let index := Nat.repr position
  let kind := t.kind.text
  let role :=
    match t.path.role with
    | none => ""
    | some role => " [" ++ role.name ++ "]"
  padding 6 index ++ index ++ "  " ++ kind ++ padding 22 kind ++ " " ++ t.path.display ++ role

def Stream.lines (tokens : Stream) : List String :=
  tokens.toList.mapIdx fun position token => token.line position

end JsonTemplate
