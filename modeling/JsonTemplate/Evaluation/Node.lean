import JsonTemplate.Evaluation.Order
import JsonTemplate.Evaluation.Signals
import JsonTemplate.Evaluation.Variable

/-!
Rendering a tree. Every node has a value and signals; objects and arrays act on the
signals of what they hold. A failure ends the rendering, except that nullish coalescing
recovers from a read on an undefined value.
-/

namespace JsonTemplate

namespace Arithmetic

def apply (op : Arithmetic) (a b : Float) : Float :=
  match op with
  | add => a + b
  | sub => a - b
  | mul => a * b
  | div => a / b
  | rem => Binary64.rem a b
  | pow => Float.pow a b

def isText : Value → Bool
  | some (.str _) => true
  | _ => false

def textOf (v : Value) : String :=
  match v with
  | some v => v.text
  | none => "undefined"

/-- A sum with text joins the texts; every other result is a finite number. -/
def evaluate (op : Arithmetic) (left right : Value) (owner : Node) : Except Failure Value :=
  if op = add ∧ (isText left || isText right) then
    .ok (some (.str (textOf left ++ textOf right)))
  else
    match Number.ofResult? (op.apply left.toNumber right.toNumber) with
    | some n => .ok (some (.num n))
    | none => .error ((Problem.notFinite op left right).failure owner)

end Arithmetic

namespace Evaluation

/-- The text of a part of a string. Missing values leave no text where they are
tolerated. -/
def partText (tolerated : Bool) (owner : Node) (index total : Nat) (v : Value) :
    Except Failure String :=
  match v with
  | none => if tolerated then .ok "" else .error (Problem.undefinedInText.failure owner)
  | some .null => .ok ""
  | some (.arr _) | some (.obj _) => .error ((Problem.notText index total v).failure owner)
  | some value => .ok value.text

/-- The texts of the parts from `index` on, one after another. -/
def joinTexts (tolerated : Bool) (owner : Node) (total : Nat) :
    Nat → List Evaluated → Except Failure String
  | _, [] => .ok ""
  | index, part :: rest => do
      let head ← partText tolerated owner index total part.value
      let tail ← joinTexts tolerated owner total (index + 1) rest
      return head ++ tail

def absorbAll (parts : List Evaluated) : Signals :=
  parts.foldl (fun signals part => signals.absorb part.signals) .silent

/-- The value of a string that is a single interpolation, where it stays what it is; none
if it is text all the same. A spread in a key is left to the object. -/
def single? (undefinedAsNull : Bool) (role : Role) (owner : Node) (only : Evaluated) :
    Option (Except Failure Evaluated) :=
  if only.signals.spread then
    match role with
    | .key => some (.ok only)
    | .value => some do
        let value ← applyModifiers owner only.signals.modifiers only.value
        return ⟨value, { only.signals with modifiers := [] }⟩
  else
    match role, only.value with
    | .key, _ => none
    | .value, none => if undefinedAsNull then some (.ok { only with value := some .null }) else none
    | .value, some (.arr _) | .value, some (.obj _) => none
    | .value, some _ => some (.ok only)

/-- The value of a string from those of its parts. -/
def finishTemplate (undefinedAsNull : Bool) (role : Role) (owner : Node) (parts : List Node)
    (results : List Evaluated) : Except Failure Evaluated :=
  let joined := do
    let text ← joinTexts (undefinedAsNull || role == .key) owner results.length 0 results
    return ⟨some (.str text), absorbAll results⟩
  match parts, results with
  | [part], [only] =>
      if part.isInterpolation then (single? undefinedAsNull role owner only).getD joined else joined
  | _, _ => joined

/-- What an item brings to its array; a spread item must be an array itself. -/
def itemsOf (owner : Node) (item : Evaluated) : Except Failure (List Json) :=
  if item.signals.spread then
    match item.value with
    | some (.arr items) => .ok items
    | other => .error ((Problem.spreadOfNonArray other).failure owner)
  else .ok [item.value.getD .null]

/-- The values of a loop body for the items that the filter admits. -/
def collect (admits : Value → Except Failure Bool) (body : Value → Except Failure Json) :
    List Value → Except Failure (List Json)
  | [] => .ok []
  | item :: rest => do
      if ← admits item then
        let value ← body item
        let values ← collect admits body rest
        return value :: values
      else collect admits body rest

mutual

/-- Whether evaluating a node can ask for a loop. -/
def carriesLoop : Node → Bool
  | .each _ _ _ _ => true
  | .interpolation _ _ value _ => carriesLoop value
  | .template parts _ => anyCarriesLoop parts
  | _ => false

def anyCarriesLoop : List Node → Bool
  | [] => false
  | part :: rest => carriesLoop part || anyCarriesLoop rest

end

mutual

/-- The value and the signals of a node. The role matters for strings alone. -/
def evaluate (undefinedAsNull : Bool) : Node → Role → Scope → Except Failure Evaluated
  | .number n _, _, _ => .ok (.plain (some (.num n)))
  | .bool b _, _, _ => .ok (.plain (some (.bool b)))
  | .null _, _, _ => .ok (.plain (some .null))
  | .undefined _, _, _ => .ok (.plain none)
  | .quoted s _, _, _ | .text s _, _, _ => .ok (.plain (some (.str s)))
  | .path p span, _, scope => do return .plain (← p.resolve span scope)
  | .comparison op left right _, _, scope => do
      let left ← evaluate undefinedAsNull left .value scope
      let right ← evaluate undefinedAsNull right .value scope
      return .plain (some (.bool (Value.compares op left.value right.value)))
  | .arithmetic op left right span, _, scope => do
      let a ← evaluate undefinedAsNull left .value scope
      let b ← evaluate undefinedAsNull right .value scope
      return .plain (← op.evaluate a.value b.value (.arithmetic op left right span))
  | .ternary condition yes no _, _, scope => do
      let condition ← evaluate undefinedAsNull condition .value scope
      if condition.value.truthy then
        return .plain (← evaluate undefinedAsNull yes .value scope).value
      else
        return .plain (← evaluate undefinedAsNull no .value scope).value
  | .nullish left right _, _, scope =>
      let fallback := do return .plain (← evaluate undefinedAsNull right .value scope).value
      match evaluate undefinedAsNull left .value scope with
      | .ok result => if result.value.isNullish then fallback else .ok (.plain result.value)
      | .error f => if f.isUndefinedValue then fallback else .error f
  | .group inner _, _, scope => do
      return .plain (← evaluate undefinedAsNull inner .value scope).value
  | .comment _ _, _, _ => .ok ⟨none, { comment := true }⟩
  | .onlyIf guard _, _, scope | .elseIf guard _, _, scope => do
      let guard ← evaluate undefinedAsNull guard .value scope
      return ⟨none, { condition := some guard.value.truthy }⟩
  | .otherwise _, _, _ => .ok ⟨none, { condition := some true }⟩
  | .each source binding filter span, _, scope => do
      let items :=
        match ← source.resolve span scope with
        | some (.arr items) => items.map some
        | other => [other]
      return ⟨none, { loop := some ⟨items, binding, filter⟩ }⟩
  | .array items span, _, scope => do
      return .plain (some (.arr (← evaluateItems undefinedAsNull (.array items span) items scope)))
  | .object entries span, _, scope =>
      evaluateEntries undefinedAsNull (.object entries span) entries (.fields []) scope
  | .template parts span, role, scope => do
      let results ← evaluateAll undefinedAsNull parts scope
      finishTemplate undefinedAsNull role (.template parts span) parts results
  | .interpolation spread modifiers value _, _, scope => do
      let inner ← evaluate undefinedAsNull value .value scope
      return { inner with signals := { inner.signals with spread, modifiers } }

def evaluateAll (undefinedAsNull : Bool) :
    List Node → Scope → Except Failure (List Evaluated)
  | [], _ => .ok []
  | node :: rest, scope => do
      let head ← evaluate undefinedAsNull node .value scope
      let tail ← evaluateAll undefinedAsNull rest scope
      return head :: tail

def evaluateItems (undefinedAsNull : Bool) (owner : Node) :
    List Node → Scope → Except Failure (List Json)
  | [], _ => .ok []
  | node :: rest, scope => do
      let head ← itemsOf owner (← evaluate undefinedAsNull node .value scope)
      let tail ← evaluateItems undefinedAsNull owner rest scope
      return head ++ tail

/-- The entries of an object in order. A true condition, a loop and a spread without a
comment make the entry's value that of the object. -/
def evaluateEntries (undefinedAsNull : Bool) (owner : Node) :
    List Entry → Collected → Scope → Except Failure Evaluated
  | [], collected, _ => .ok (.plain (some collected.toJson))
  | .mk key value _ :: rest, collected, scope => do
      let name ← evaluate undefinedAsNull key .key scope
      match name.signals.condition, name.signals.loop with
      | some true, _ => do
          let result ← evaluate undefinedAsNull value .value scope
          return .spreading name.signals.spread result.value
      | some false, _ => evaluateEntries undefinedAsNull owner rest collected scope
      | none, some loop => do
          let values ←
            collect (fun item => admits undefinedAsNull key (scope.bind loop.binding item))
              (fun item => do
                let result ← evaluate undefinedAsNull value .value (scope.bind loop.binding item)
                return result.value.getD .null)
              loop.items
          let result ← applyModifiers owner name.signals.modifiers (some (.arr values))
          return .spreading name.signals.spread result
      | none, none => do
          let plain ← evaluate undefinedAsNull value .value scope
          let result ← applyModifiers owner name.signals.modifiers plain.value
          if name.signals.spread then
            if name.signals.comment then
              let collected ← collected.merge owner result
              evaluateEntries undefinedAsNull owner rest collected scope
            else return .spreading true result
          else
            let collected ← collected.assign owner ((name.value.map Json.text).getD "") result
            evaluateEntries undefinedAsNull owner rest collected scope

/-- Whether the filter of the loop that a key asks for holds in a scope. The last loop of
a string is the one that runs. -/
def admits (undefinedAsNull : Bool) : Node → Scope → Except Failure Bool
  | .each _ _ filter _, scope => admitsFilter undefinedAsNull filter scope
  | .interpolation _ _ value _, scope => admits undefinedAsNull value scope
  | .template parts _, scope => admitsParts undefinedAsNull parts scope
  | _, _ => .ok true

def admitsFilter (undefinedAsNull : Bool) : Option Node → Scope → Except Failure Bool
  | none, _ => .ok true
  | some filter, scope => do
      let result ← evaluate undefinedAsNull filter .value scope
      return result.value.truthy

def admitsParts (undefinedAsNull : Bool) : List Node → Scope → Except Failure Bool
  | [], _ => .ok true
  | part :: rest, scope =>
      if anyCarriesLoop rest then admitsParts undefinedAsNull rest scope
      else admits undefinedAsNull part scope

end

end Evaluation
end JsonTemplate
