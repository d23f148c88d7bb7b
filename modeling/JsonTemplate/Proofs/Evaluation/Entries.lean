import JsonTemplate.Evaluation.Node

/-!
What the entries of an object do, one at a time. An entry is passed over, or it is the result
of its object, or it adds to what the entries before it have come to; which of these it does
depends on the scope alone, and not on the other entries.
-/

namespace JsonTemplate

/-- What an entry adds to its object: a field, or what a spread brings. -/
inductive Contribution
  | field (name : String) (value : Value)
  | spread (value : Value)

inductive Effect
  | nothing
  | result (r : Evaluated)
  | adds (c : Contribution)

def Collected.add (owner : Node) (collected : Collected) : Contribution → Except Failure Collected
  | .field name value => collected.assign owner name value
  | .spread value => collected.merge owner value

namespace Evaluation

variable (undefinedAsNull : Bool) (owner : Node) (s : Scope)

/-- What an entry does once its key has come to this. -/
def effectOf (key value : Node) (name : Evaluated) : Except Failure Effect :=
  match name.signals.condition, name.signals.loop with
  | some true, _ => do
      let result ← evaluate undefinedAsNull value .value s
      return .result (.spreading name.signals.spread result.value)
  | some false, _ => .ok .nothing
  | none, some loop => do
      let values ←
        collect (fun item => admits undefinedAsNull key (s.bind loop.binding item))
          (fun item => do
            let result ← evaluate undefinedAsNull value .value (s.bind loop.binding item)
            return result.value.getD .null)
          loop.items
      let result ← applyModifiers owner name.signals.modifiers (some (.arr values))
      return .result (.spreading name.signals.spread result)
  | none, none => do
      let plain ← evaluate undefinedAsNull value .value s
      let result ← applyModifiers owner name.signals.modifiers plain.value
      if name.signals.spread then
        if name.signals.comment then return .adds (.spread result)
        else return .result (.spreading true result)
      else return .adds (.field ((name.value.map Json.text).getD "") result)

def effect : Entry → Except Failure Effect
  | .mk key value _ => do
      let name ← evaluate undefinedAsNull key .key s
      effectOf undefinedAsNull owner s key value name

variable {undefinedAsNull s} in
theorem effect_of_key {e : Entry} {name : Evaluated}
    (h : evaluate undefinedAsNull e.key .key s = .ok name) :
    effect undefinedAsNull owner s e = effectOf undefinedAsNull owner s e.key e.value name := by
  obtain ⟨key, value, span⟩ := e
  exact congrArg (· >>= effectOf undefinedAsNull owner s key value) h

/-- The entries behind one are rendered as its effect says. -/
def continueWith (rest : List Entry) (collected : Collected) : Effect → Except Failure Evaluated
  | .nothing => evaluateEntries undefinedAsNull owner rest collected s
  | .result r => .ok r
  | .adds c => do
      let collected ← collected.add owner c
      evaluateEntries undefinedAsNull owner rest collected s

theorem evaluateEntries_cons (e : Entry) (rest : List Entry) (collected : Collected) :
    evaluateEntries undefinedAsNull owner (e :: rest) collected s
      = effect undefinedAsNull owner s e >>= continueWith undefinedAsNull owner s rest collected := by
  obtain ⟨key, value, span⟩ := e
  rw [evaluateEntries, effect, bind_assoc]
  congr 1
  funext name
  obtain ⟨v, spread, modifiers, condition, loop, comment⟩ := name
  cases condition with
  | some condition =>
      cases condition with
      | true =>
          simp only [effectOf, bind_assoc]
          rfl
      | false => rfl
  | none =>
      cases loop with
      | some loop =>
          simp only [effectOf, bind_assoc]
          rfl
      | none =>
          simp only [effectOf, bind_assoc]
          congr 1
          funext plain
          congr 1
          funext result
          cases spread <;> cases comment <;> rfl

end Evaluation

/-! Calls -/

theorem repeat_flattenOnce (count : Nat) (items : List Json) :
    Nat.repeat flattenOnce count (flattenOnce items)
      = flattenOnce (Nat.repeat flattenOnce count items) := by
  induction count with
  | zero => rfl
  | succ count ih => exact congrArg flattenOnce ih

/-- Flattening a list never fails. -/
theorem applyModifiers_list (owner : Node) (modifiers : List Modifier) (items : List Json) :
    applyModifiers owner modifiers (some (.arr items))
      = .ok (some (.arr (Nat.repeat flattenOnce modifiers.length items))) := by
  induction modifiers generalizing items with
  | nil => rfl
  | cons modifier rest ih =>
      cases modifier
      rw [applyModifiers, ih, repeat_flattenOnce]
      rfl

/-! Owners -/

section Owner

/- An object passes itself on only for the words and the place of a failure. -/
variable {owner owner' : Node} (h : ∀ p : Problem, p.failure owner' = p.failure owner)

include h

theorem applyModifiers_owner (modifiers : List Modifier) (v : Value) :
    applyModifiers owner' modifiers v = applyModifiers owner modifiers v := by
  induction modifiers, v using applyModifiers.induct with
  | case1 v => rfl
  | case2 rest items ih => exact ih
  | case3 rest v hv => rw [applyModifiers, applyModifiers, h] <;> exact hv

theorem Collected.add_owner (collected : Collected) (c : Contribution) :
    collected.add owner' c = collected.add owner c := by
  cases c with
  | field name v => cases collected <;> cases v <;> simp only [add, assign, h]
  | spread v =>
      simp only [add, merge]
      split <;> simp only [h]

namespace Evaluation

variable (undefinedAsNull : Bool) (s : Scope)

theorem effect_owner (e : Entry) :
    effect undefinedAsNull owner' s e = effect undefinedAsNull owner s e := by
  obtain ⟨key, value, span⟩ := e
  simp only [effect, effectOf, applyModifiers_owner h]

theorem evaluateEntries_owner (entries : List Entry) (collected : Collected) :
    evaluateEntries undefinedAsNull owner' entries collected s
      = evaluateEntries undefinedAsNull owner entries collected s := by
  induction entries generalizing collected with
  | nil => rfl
  | cons e rest ih =>
      rw [evaluateEntries_cons, evaluateEntries_cons, effect_owner h]
      congr 1
      funext found
      cases found with
      | nothing => exact ih collected
      | result r => rfl
      | adds c => simp only [continueWith, Collected.add_owner h, ih]

end Evaluation
end Owner

namespace Evaluation

variable (undefinedAsNull : Bool) (span : Span) (role : Role) (s : Scope)

/-- An object without its entries fails as the object does. -/
theorem evaluate_object (entries : List Entry) :
    evaluate undefinedAsNull (.object entries span) role s
      = evaluateEntries undefinedAsNull (.object [] span) entries (.fields []) s := by
  have h : ∀ p : Problem, p.failure (.object entries span) = p.failure (.object [] span) :=
    fun _ => rfl
  exact evaluateEntries_owner h undefinedAsNull s entries (.fields [])

end Evaluation
end JsonTemplate
