import JsonTemplate.Expression.Rules
import JsonTemplate.Proofs.Expression.Words
import JsonTemplate.Proofs.Tree.Relocation

/-!
How expressions are written. `Writes layer n text` says that `text` is a way to write the
tree `n`, whose spans are all empty, at a layer of the grammar: with any blanks between
words, either quotes around a string and either form for the steps of a path. The layers
are those on which the rules tell operands, comparisons and coalescing apart.
-/

namespace JsonTemplate
namespace Writing

/-- Words that no path begins with. -/
def keywords : List String :=
  ["if", "ifelse", "else", "each", "as", "flatten", "true", "false", "null", "undefined"]

def mark (optional : Bool) : List Char := if optional then ['?'] else []

structure IsIdentifier (name : List Char) : Prop where
  start : ∃ c rest, name = c :: rest ∧ Variable.isNameStart c = true
  word : ∀ c ∈ name, isWordChar c = true
  free : String.ofList name ∉ keywords

/-- Steps behind the first name of a path. -/
inductive WritesSteps : List PathPart → List Char → Prop
  | nil : WritesSteps [] []
  | dotted {name text : List Char} {optional : Bool} {parts : List PathPart} (hn : name ≠ [])
      (hw : ∀ c ∈ name, isWordChar c = true) (h : WritesSteps parts text) :
      WritesSteps (⟨String.ofList name, optional⟩ :: parts) ('.' :: (name ++ (mark optional ++ text)))
  | bracketed {name text : List Char} {optional : Bool} {parts : List PathPart} (hn : name ≠ [])
      (hw : ∀ c ∈ name, Variable.isBracketChar c = true) (h : WritesSteps parts text) :
      WritesSteps (⟨String.ofList name, optional⟩ :: parts)
        ('[' :: '\'' :: (name ++ ('\'' :: ']' :: (mark optional ++ text))))

inductive WritesPath : VariablePath → List Char → Prop
  | mk {name text : List Char} {optional : Bool} {parts : List PathPart}
      (hn : IsIdentifier name) (h : WritesSteps parts text)
      (hl : parts.length < Variable.maximumLength) :
      WritesPath ⟨⟨String.ofList name, optional⟩ :: parts⟩ (name ++ (mark optional ++ text))

/-- The characters of a string, each backslash and each closing quote behind a backslash. -/
def escape (quote : Char) (s : List Char) : List Char :=
  s.flatMap fun c => if c = '\\' ∨ c = quote then ['\\', c] else [c]

inductive WritesLiteral : Node → List Char → Prop
  | null : WritesLiteral (.null (.empty 0)) "null".toList
  | undefined : WritesLiteral (.undefined (.empty 0)) "undefined".toList
  | bool (b : Bool) : WritesLiteral (.bool b (.empty 0)) (if b then "true" else "false").toList
  | quoted (s : String) {quote : Char} (hq : quote = '"' ∨ quote = '\'') :
      WritesLiteral (.quoted s (.empty 0)) (quote :: (escape quote s.toList ++ [quote]))

/-- The layers of expressions. A term stands at either side of a comparison; an enclosed
expression is one that only the parentheses of a term hold. -/
inductive Layer
  | atom
  | operand
  | term
  | comparison
  | expression
  | nullish
  | ternary
  | enclosed

inductive Writes : Layer → Node → List Char → Prop
  | number {i : Int} {n : Number} (hs : Literal.isSigned i = true) (hn : Number.ofInt? i = some n) :
      Writes .atom (.number n (.empty 0)) (toString i).toList
  | path {p : VariablePath} {t : List Char} (h : WritesPath p t) :
      Writes .atom (.path p (.empty 0)) t
  | group {n : Node} {a t b : List Char} (ha : Gap a) (h : Writes .operand n t) (hb : Gap b) :
      Writes .atom (.group n (.empty 0)) ('(' :: (a ++ (t ++ (b ++ [')']))))
  | atom {n : Node} {t : List Char} (h : Writes .atom n t) : Writes .operand n t
  | operation (op : Arithmetic) {l r : Node} {s a b t : List Char} (hl : Writes .atom l s)
      (ha : Gap a) (hb : Gap b) (hr : Writes .operand r t) :
      Writes .operand (.arithmetic op l r (.empty 0)) (s ++ (a ++ (op.sign.toList ++ (b ++ t))))
  | operand {n : Node} {t : List Char} (h : Writes .operand n t) : Writes .term n t
  | literal {n : Node} {t : List Char} (h : WritesLiteral n t) : Writes .term n t
  | enclosed {n : Node} {a t b : List Char} (ha : Gap a) (h : Writes .enclosed n t) (hb : Gap b) :
      Writes .term (.group n (.empty 0)) ('(' :: (a ++ (t ++ (b ++ [')']))))
  | comparison (op : Comparison) {l r : Node} {s a b t : List Char} (hl : Writes .term l s)
      (ha : Gap a) (hb : Gap b) (hr : Writes .expression r t) :
      Writes .comparison (.comparison op l r (.empty 0))
        (s ++ (a ++ (op.sign.toList ++ (b ++ t))))
  | term {n : Node} {t : List Char} (h : Writes .term n t) : Writes .expression n t
  | compared {n : Node} {t : List Char} (h : Writes .comparison n t) : Writes .expression n t
  | nullish {l r : Node} {s a b t : List Char} (hl : Writes .expression l s) (ha : Gap a)
      (hb : Gap b) (hr : Writes .expression r t) :
      Writes .nullish (.nullish l r (.empty 0)) (s ++ (a ++ ("??".toList ++ (b ++ t))))
  | nullishMore {l r : Node} {s a b t : List Char} (hl : Writes .expression l s) (ha : Gap a)
      (hb : Gap b) (hr : Writes .nullish r t) :
      Writes .nullish (.nullish l r (.empty 0)) (s ++ (a ++ ("??".toList ++ (b ++ t))))
  | ternary {c y n : Node} {s a b t d e u : List Char} (hc : Writes .comparison c s) (ha : Gap a)
      (hb : Gap b) (hy : Writes .expression y t) (hd : Gap d) (he : Gap e)
      (hn : Writes .expression n u) :
      Writes .ternary (.ternary c y n (.empty 0))
        (s ++ (a ++ ("?".toList ++ (b ++ (t ++ (d ++ (":".toList ++ (e ++ u))))))))
  | enclosedTernary {n : Node} {t : List Char} (h : Writes .ternary n t) : Writes .enclosed n t
  | enclosedNullish {n : Node} {t : List Char} (h : Writes .nullish n t) : Writes .enclosed n t
  | enclosedComparison {n : Node} {t : List Char} (h : Writes .comparison n t) :
      Writes .enclosed n t
  | enclosedLiteral {n : Node} {t : List Char} (h : WritesLiteral n t) : Writes .enclosed n t

/-- What may stand between the brackets of an interpolation. -/
inductive WritesStatement : Node → List Char → Prop
  | ternary {n : Node} {t : List Char} (h : Writes .ternary n t) : WritesStatement n t
  | nullish {n : Node} {t : List Char} (h : Writes .nullish n t) : WritesStatement n t
  | comparison {n : Node} {t : List Char} (h : Writes .comparison n t) : WritesStatement n t
  | operand {n : Node} {t : List Char} (h : Writes .operand n t) : WritesStatement n t
  | literal {n : Node} {t : List Char} (h : WritesLiteral n t) : WritesStatement n t
  | onlyIf {c : Node} {a t : List Char} (ha : Gap a) (h : Writes .comparison c t) :
      WritesStatement (.onlyIf c (.empty 0)) ("if".toList ++ (a ++ t))
  | elseIf {c : Node} {a b t : List Char} (ha : Gap a) (hb : Gap b) (h : Writes .comparison c t) :
      WritesStatement (.elseIf c (.empty 0)) ("else".toList ++ (a ++ ("if".toList ++ (b ++ t))))
  | ifElse {c : Node} {a t : List Char} (ha : Gap a) (h : Writes .comparison c t) :
      WritesStatement (.elseIf c (.empty 0)) ("ifelse".toList ++ (a ++ t))
  | otherwise : WritesStatement (.otherwise (.empty 0)) "else".toList
  | each {p : VariablePath} {a s b d x : List Char} (ha : Gap a) (hs : WritesPath p s) (hb : Gap b)
      (hd : Gap d) (hx : IsIdentifier x) :
      WritesStatement (.each p (String.ofList x) none (.empty 0))
        ("each".toList ++ (a ++ (s ++ (b ++ ("as".toList ++ (d ++ x))))))
  | eachIf {p : VariablePath} {c : Node} {a s b d x e g t : List Char} (ha : Gap a)
      (hs : WritesPath p s) (hb : Gap b) (hd : Gap d) (hx : IsIdentifier x) (he : Gap e)
      (hg : Gap g) (h : Writes .comparison c t) :
      WritesStatement (.each p (String.ofList x) (some c) (.empty 0))
        ("each".toList ++ (a ++ (s ++ (b ++ ("as".toList ++ (d ++ (x ++ (e ++
          ("if".toList ++ (g ++ t))))))))))

/-- The dots that spread a list, or none. -/
inductive WritesSpread : Bool → List Char → Prop
  | no : WritesSpread false []
  | yes {a : List Char} (ha : Gap a) : WritesSpread true ("...".toList ++ a)

/-- So many calls of `flatten`. -/
inductive WritesCalls : Nat → List Char → Prop
  | none : WritesCalls 0 []
  | more {a b t : List Char} {count : Nat} (ha : Gap a) (hb : Gap b) (h : WritesCalls count t) :
      WritesCalls (count + 1) ("flatten".toList ++ (a ++ ("|".toList ++ (b ++ t))))

/-- A comment that ends where its text does, or none. -/
inductive WritesComment : List Char → Prop
  | none : WritesComment []
  | some {t a : List Char} (ht : t ≠ []) (hw : Literal.commentWidth t = t.length) (ha : Gap a) :
      WritesComment (t ++ a)

/-- A string that is one interpolation. -/
inductive WritesInterpolation : Node → List Char → Prop
  | mk {n : Node} {spread : Bool} {count : Nat} {a s f t b c : List Char} (ha : Gap a)
      (hs : WritesSpread spread s) (hf : WritesCalls count f) (h : WritesStatement n t)
      (hb : Gap b) (hc : WritesComment c) :
      WritesInterpolation
        (.interpolation spread (List.replicate count .flatten) n (.empty 0))
        ("\x7b\x7b".toList ++ (a ++ (s ++ (f ++ (t ++ (b ++ (c ++ "\x7d\x7d".toList)))))))

end Writing
end JsonTemplate
