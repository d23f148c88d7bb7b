import JsonTemplate.Evaluation.Conversion
import JsonTemplate.Tree.Operator

/-!
Equality and order of values. Strict equality compares values of one type; loose equality
takes scalars of different types as numbers.
-/

namespace JsonTemplate
namespace Json

mutual

/-- Equality of values: numbers by what they count as, objects whatever the order of
their fields. -/
def same : Json → Json → Bool
  | .null, .null => true
  | .bool a, .bool b => a == b
  | .num a, .num b => Binary64.same a.toFloat b.toFloat
  | .str a, .str b => a == b
  | .arr as, .arr bs => sameItems as bs
  | .obj as, .obj bs => as.length == bs.length && sameFields as bs
  | _, _ => false

def sameItems : List Json → List Json → Bool
  | [], [] => true
  | a :: as, b :: bs => same a b && sameItems as bs
  | _, _ => false

/-- Every field on the left has an equal one on the right. -/
def sameFields : List (String × Json) → Fields Json → Bool
  | [], _ => true
  | (name, a) :: as, bs =>
      (match Fields.get? bs name with
        | some b => same a b
        | none => false) && sameFields as bs

end

def isScalar : Json → Bool
  | .bool _ | .num _ | .str _ => true
  | _ => false

def sameType (a b : Json) : Bool := a.typeName == b.typeName

end Json

namespace Value

def strictlyEqual : Value → Value → Bool
  | none, none => true
  | some a, some b => a.same b
  | _, _ => false

/-- Null and undefined equal each other alone. -/
def looselyEqual (a b : Value) : Bool :=
  if a.isNullish || b.isNullish then a.isNullish && b.isNullish
  else
    match a, b with
    | some x, some y =>
        if x.sameType y then x.same y
        else x.isScalar && y.isScalar && Binary64.same a.toNumber b.toNumber
    | _, _ => false

/-- Text is ordered by its characters, all else by numbers. -/
def order? (a b : Value) : Option Ordering :=
  match a, b with
  | some (.str x), some (.str y) => some (compare x y)
  | _, _ => Binary64.order? a.toNumber b.toNumber

def compares (op : Comparison) (a b : Value) : Bool :=
  match op with
  | .strictEqual => strictlyEqual a b
  | .strictDistinct => !strictlyEqual a b
  | .equal => looselyEqual a b
  | .distinct => !looselyEqual a b
  | .atLeast => order? a b == some .gt || order? a b == some .eq
  | .atMost => order? a b == some .lt || order? a b == some .eq
  | .greater => order? a b == some .gt
  | .less => order? a b == some .lt

end Value
end JsonTemplate
