import JsonTemplate.Expression.Variable

/-!
Which node stands where in the tree of a template: a document holds templates, a template
holds text and interpolations, an interpolation holds one value, and the operators of a
value take operands of lower layers only.
-/

namespace JsonTemplate

/-- A path has a first name and no more steps than are allowed. -/
def VariablePath.Bounded (p : VariablePath) : Prop :=
  0 < p.parts.length ∧ p.parts.length ≤ Variable.maximumLength

namespace Node

def isArithmetic : Node → Bool
  | arithmetic _ _ _ _ => true
  | _ => false

def isComparison : Node → Bool
  | comparison _ _ _ _ => true
  | _ => false

def isTernary : Node → Bool
  | ternary _ _ _ _ => true
  | _ => false

def isNullish : Node → Bool
  | nullish _ _ _ => true
  | _ => false

def isText : Node → Bool
  | text _ _ => true
  | _ => false

/-- Numbers, paths, operations and groups of these, where no operation is the left operand
of another one. -/
def IsOperand : Node → Prop
  | number _ _ => True
  | path p _ => p.Bounded
  | group inner _ => inner.IsOperand
  | arithmetic _ left right _ => left.IsOperand ∧ left.isArithmetic = false ∧ right.IsOperand
  | _ => False

/-- Neither a ternary nor a coalescing, which stand at the top or in a group only. -/
def IsSimple (n : Node) : Prop := n.isTernary = false ∧ n.isNullish = false

/-- An expression, all of whose operands are of the layers that their operators take. -/
def IsExpression : Node → Prop
  | number _ _ | quoted _ _ | bool _ _ | null _ | undefined _ => True
  | path p _ => p.Bounded
  | group inner _ => inner.IsExpression
  | arithmetic op left right span => (arithmetic op left right span).IsOperand
  | comparison _ left right _ =>
      (left.IsExpression ∧ left.isComparison = false ∧ left.IsSimple) ∧
        right.IsExpression ∧ right.IsSimple
  | nullish left right _ =>
      (left.IsExpression ∧ left.IsSimple) ∧ right.IsExpression ∧ right.isTernary = false
  | ternary condition yes no _ =>
      (condition.IsExpression ∧ condition.isComparison = true) ∧
        (yes.IsExpression ∧ yes.IsSimple) ∧ no.IsExpression ∧ no.IsSimple
  | _ => False

/-- What is not divided further by operations. -/
def IsAtom (n : Node) : Prop := n.IsOperand ∧ n.isArithmetic = false

/-- What may stand on the left of a comparison. -/
def IsTerm (n : Node) : Prop := n.IsExpression ∧ n.isComparison = false ∧ n.IsSimple

/-- A comparison, as conditions are. -/
def IsCondition (n : Node) : Prop := n.IsExpression ∧ n.isComparison = true

/-- What an interpolation holds. Statements and comments stand nowhere else. -/
def IsValue : Node → Prop
  | comment _ _ | otherwise _ => True
  | onlyIf guard _ | elseIf guard _ => guard.IsCondition
  | each source _ filter _ => source.Bounded ∧ ∀ guard ∈ filter, guard.IsCondition
  | n => n.IsExpression

/-- What a template holds. Text is never empty, and no interpolation begins in it. -/
def IsPart : Node → Prop
  | text s _ => s ≠ "" ∧ ¬ "\x7b\x7b".toList <:+: s.toList
  | interpolation _ _ value _ => value.IsValue
  | _ => False

/-- Text is cut at interpolations only. -/
def Separated : List Node → Prop
  | first :: second :: rest =>
      ¬ (first.isText = true ∧ second.isText = true) ∧ Separated (second :: rest)
  | _ => True

def IsTemplate : Node → Prop
  | template parts _ => (∀ part ∈ parts, part.IsPart) ∧ Separated parts
  | _ => False

mutual

/-- What stands in a document: scalars but no strings, templates, lists and objects, and
templates for the keys of objects. -/
def IsDocument : Node → Prop
  | number _ _ | bool _ _ | null _ => True
  | template parts span => (template parts span).IsTemplate
  | array items _ => AreDocuments items
  | object entries _ => AreEntries entries
  | _ => False

def AreDocuments : List Node → Prop
  | [] => True
  | n :: rest => n.IsDocument ∧ AreDocuments rest

def AreEntries : List Entry → Prop
  | [] => True
  | .mk key value _ :: rest => key.IsTemplate ∧ value.IsDocument ∧ AreEntries rest

end

theorem areDocuments_iff {nodes : List Node} : AreDocuments nodes ↔ ∀ n ∈ nodes, n.IsDocument := by
  induction nodes with
  | nil => simp [AreDocuments]
  | cons n rest ih => simp [AreDocuments, ih]

theorem areEntries_iff {entries : List Entry} :
    AreEntries entries ↔ ∀ e ∈ entries, e.key.IsTemplate ∧ e.value.IsDocument := by
  induction entries with
  | nil => simp [AreEntries]
  | cons e rest ih =>
      obtain ⟨key, value, span⟩ := e
      simp [AreEntries, ih, Entry.key, Entry.value, and_assoc]

/-- Operands are expressions of the lowest layer. -/
theorem IsOperand.isExpression {n : Node} (h : n.IsOperand) : n.IsExpression := by
  induction n using IsOperand.induct with
  | case1 | case2 | case4 => exact h
  | case3 inner span ih => exact ih h
  | case5 n hn hp hg ha =>
      cases n with
      | number k span => exact absurd rfl (hn k span)
      | path p span => exact absurd rfl (hp p span)
      | group inner span => exact absurd rfl (hg inner span)
      | arithmetic op left right span => exact absurd rfl (ha op left right span)
      | _ => exact h.elim

theorem IsOperand.isTerm {n : Node} (h : n.IsOperand) : n.IsTerm := by
  refine ⟨h.isExpression, ?_⟩
  cases n <;> first | exact ⟨rfl, rfl, rfl⟩ | cases h

theorem IsCondition.isSimple {n : Node} (h : n.IsCondition) : n.IsSimple := by
  cases n with
  | comparison op left right span => exact ⟨rfl, rfl⟩
  | _ => cases h.2

end Node
end JsonTemplate
