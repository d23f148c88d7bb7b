import JsonTemplate.Proofs.Evaluation.Filters

/-!
Where lists are flattened. A string that is one spread flattens its value as often as it says, and
fails if there is no list to flatten; so does a key with what its entry holds, and a loop in a key
flattens what it collects. Any other string, and a key whose condition holds, comes to what it
comes to if nothing is flattened.
-/

namespace JsonTemplate

namespace Node

/-- What an interpolation calls on its value. -/
def modifiers : Node → List Modifier
  | interpolation _ modifiers _ _ => modifiers
  | _ => []

/-- An interpolation that calls nothing on its value. -/
def uncalled : Node → Node
  | interpolation spread _ value span => interpolation spread [] value span
  | n => n

/-- One interpolation that is spread, and nothing besides. -/
def isLoneSpread : List Node → Bool
  | [part] => part.isSpread
  | _ => false

end Node

/-- A list flattened so many times. There is nothing to flatten in any other value. -/
def flattenTimes (owner : Node) (count : Nat) : Value → Except Failure Value
  | some (.arr items) => .ok (some (.arr (Nat.repeat flattenOnce count items)))
  | v => .error ((Problem.flattenOfNonArray v).failure owner)

/-- Where anything is called on a value, the value is flattened once for each call. -/
theorem applyModifiers_eq_flattenTimes {modifiers : List Modifier} (h : modifiers ≠ [])
    (owner : Node) (v : Value) :
    applyModifiers owner modifiers v = flattenTimes owner modifiers.length v := by
  cases modifiers with
  | nil => exact absurd rfl h
  | cons modifier rest =>
      cases modifier
      cases v with
      | none => rfl
      | some v =>
          cases v with
          | arr items => exact applyModifiers_list owner (.flatten :: rest) items
          | _ => rfl

namespace Evaluation

variable {undefinedAsNull : Bool} {s : Scope} {owner : Node} {parts : List Node}

/-! Strings -/

/-- A result that calls nothing. -/
def uncall (r : Evaluated) : Evaluated := { r with signals := { r.signals with modifiers := [] } }

theorem evaluate_uncalled (part : Node) (role : Role) :
    (evaluate undefinedAsNull part.uncalled role s).map uncall
      = (evaluate undefinedAsNull part role s).map uncall := by
  cases part with
  | interpolation spread modifiers value span =>
      rw [Node.uncalled, evaluate, evaluate]
      cases evaluate undefinedAsNull value .value s <;> rfl
  | _ => rfl

theorem evaluateAll_uncalled (parts : List Node) :
    (evaluateAll undefinedAsNull (parts.map Node.uncalled) s).map (List.map uncall)
      = (evaluateAll undefinedAsNull parts s).map (List.map uncall) := by
  induction parts with
  | nil => rfl
  | cons part rest ih =>
      have hcons : ∀ (x : Except Failure Evaluated) (y : Except Failure (List Evaluated)),
          (do return (← x) :: (← y) : Except Failure (List Evaluated)).map (List.map uncall)
            = (do return (← x.map uncall) :: (← y.map (List.map uncall))) := by
        intro x y
        cases x <;> cases y <;> rfl
      rw [List.map_cons, evaluateAll, evaluateAll, hcons, hcons, ih, evaluate_uncalled]

theorem joinTexts_uncall (tolerated : Bool) (owner : Node) (total index : Nat)
    (results : List Evaluated) :
    joinTexts tolerated owner total index (results.map uncall)
      = joinTexts tolerated owner total index results := by
  induction results generalizing index with
  | nil => rfl
  | cons r rest ih =>
      rw [List.map_cons, joinTexts, joinTexts, ih]
      rfl

theorem joinTexts_owner {owner' : Node} (h : ∀ p : Problem, p.failure owner' = p.failure owner)
    (tolerated : Bool) (total index : Nat) (results : List Evaluated) :
    joinTexts tolerated owner' total index results
      = joinTexts tolerated owner total index results := by
  induction results generalizing index with
  | nil => rfl
  | cons r rest ih =>
      have hpart : partText tolerated owner' index total r.value
          = partText tolerated owner index total r.value := by
        simp only [partText, h]
      rw [joinTexts, joinTexts, hpart, ih]

/-- The text that parts come to, from what they say besides what they call. -/
theorem value_template_mixed (hm : Node.isLone parts = false) (span : Span) :
    (evaluate undefinedAsNull (.template parts span) .value s).map Evaluated.value = (do
      let results ← (evaluateAll undefinedAsNull parts s).map (List.map uncall)
      let text ← joinTexts undefinedAsNull (.template [] span) results.length 0 results
      return some (.str text)) := by
  have howner : ∀ p : Problem, p.failure (.template parts span) = p.failure (.template [] span) :=
    fun _ => rfl
  rw [evaluate]
  cases evaluateAll undefinedAsNull parts s with
  | error x => rfl
  | ok results =>
      change (finishTemplate undefinedAsNull .value (.template parts span) parts results).map _
        = (joinTexts undefinedAsNull (.template [] span) (results.map uncall).length 0
            (results.map uncall) >>= _)
      rw [finishTemplate_mixed .value _ hm, joinTexts_uncall, List.length_map,
        joinTexts_owner howner, show (Role.value == Role.key) = false from rfl, Bool.or_false]
      cases joinTexts undefinedAsNull (.template [] span) results.length 0 results <;> rfl

theorem isLone_uncalled (parts : List Node) :
    Node.isLone (parts.map Node.uncalled) = Node.isLone parts := by
  match parts with
  | [] => rfl
  | [part] => cases part <;> rfl
  | _ :: _ :: _ => rfl

theorem exists_of_isLone (h : Node.isLone parts = true) :
    ∃ spread modifiers value place, parts = [.interpolation spread modifiers value place] := by
  cases parts with
  | nil => cases h
  | cons part rest =>
      cases rest with
      | cons => cases h
      | nil =>
          cases part with
          | interpolation spread modifiers value place => exact ⟨spread, modifiers, value, place, rfl⟩
          | _ => cases h

/-- Unless it is one spread, a string comes to the same if nothing is called in it. -/
theorem value_template_uncalled (h : Node.isLoneSpread parts = false) (span : Span) :
    (evaluate undefinedAsNull (.template parts span) .value s).map Evaluated.value
      = (evaluate undefinedAsNull (.template (parts.map Node.uncalled) span) .value s).map
          Evaluated.value := by
  cases hl : Node.isLone parts with
  | false =>
      have hmapped : (evaluate undefinedAsNull (.template (parts.map Node.uncalled) span) .value
          s).map Evaluated.value = _ :=
        value_template_mixed ((isLone_uncalled parts).trans hl) span
      exact (value_template_mixed hl span).trans (by rw [hmapped, evaluateAll_uncalled])
  | true =>
      obtain ⟨spread, modifiers, value, place, rfl⟩ := exists_of_isLone hl
      obtain rfl : spread = false := h
      simp only [List.map_cons, List.map_nil, Node.uncalled, evaluate, evaluateAll]
      cases evaluate undefinedAsNull value .value s with
      | error x => rfl
      | ok inner =>
          obtain ⟨v, signals⟩ := inner
          cases v with
          | none => cases undefinedAsNull <;> rfl
          | some v => cases v <;> cases undefinedAsNull <;> rfl

/-- A string that is one spread is its value, flattened if it says so. -/
theorem value_template_spread (modifiers : List Modifier) (value : Node) (place span : Span) :
    (evaluate undefinedAsNull (.template [.interpolation true modifiers value place] span) .value
        s).map Evaluated.value = (do
      let inner ← evaluate undefinedAsNull value .value s
      applyModifiers (.template [.interpolation true modifiers value place] span) modifiers
        inner.value) := by
  simp only [evaluate, evaluateAll]
  cases evaluate undefinedAsNull value .value s with
  | error x => rfl
  | ok inner =>
      change (applyModifiers (.template [.interpolation true modifiers value place] span) modifiers
        inner.value >>= fun v => _).map Evaluated.value = applyModifiers _ modifiers inner.value
      cases applyModifiers (.template [.interpolation true modifiers value place] span) modifiers
        inner.value <;> rfl

/-! Keys -/

theorem modifiers_of_evaluateAll {results : List Evaluated}
    (hp : ∀ part ∈ parts, part.isText = true ∨ part.isInterpolation = true)
    (h : evaluateAll undefinedAsNull parts s = .ok results) :
    results.flatMap (fun r => r.signals.modifiers) = parts.flatMap Node.modifiers := by
  induction parts generalizing results with
  | nil =>
      cases h
      rfl
  | cons part rest ih =>
      obtain ⟨hpart, hrest⟩ := List.forall_mem_cons.1 hp
      obtain ⟨head, hhead, h⟩ := bind_eq_ok.1 h
      obtain ⟨tail, htail, h⟩ := bind_eq_ok.1 h
      cases h
      have hsame : head.signals.modifiers = part.modifiers := by
        cases part with
        | text =>
            cases hhead
            rfl
        | interpolation spread modifiers value place =>
            obtain ⟨inner, -, hhead⟩ := bind_eq_ok.1 hhead
            cases hhead
            rfl
        | _ => obtain hpart | hpart := hpart <;> cases hpart
      rw [List.flatMap_cons, List.flatMap_cons, hsame, ih hrest htail]

theorem modifiers_absorbAll (results : List Evaluated) :
    (absorbAll results).modifiers = results.flatMap fun r => r.signals.modifiers := by
  induction results with
  | nil => rfl
  | cons r rest ih =>
      rw [absorbAll_cons, List.flatMap_cons, ← ih]
      rfl

/-- A key calls whatever its interpolations call, one after another. -/
theorem modifiers_of_key {name : Evaluated} {span : Span}
    (hp : ∀ part ∈ parts, part.isText = true ∨ part.isInterpolation = true)
    (h : evaluate undefinedAsNull (.template parts span) .key s = .ok name) :
    name.signals.modifiers = parts.flatMap Node.modifiers := by
  obtain ⟨results, hresults, h⟩ := bind_eq_ok.1 h
  obtain hsignals | ⟨hvalue, -⟩ := signals_of_finishTemplate h
  · rw [hsignals, modifiers_absorbAll, modifiers_of_evaluateAll hp hresults]
  · cases hvalue

/-- What an entry does with its value if its key is neither a condition nor a loop. -/
def placed (name : Evaluated) (v : Value) : Effect :=
  if name.signals.spread then
    if name.signals.comment then .adds (.spread v) else .result ⟨v, { spread := true }⟩
  else .adds (.field ((name.value.map Json.text).getD "") v)

section Entries

variable {e : Entry} {name : Evaluated}

/-- What a loop collects is flattened. -/
theorem evaluateEntries_looped {loop : Loop}
    (hname : evaluate undefinedAsNull e.key .key s = .ok name)
    (hc : name.signals.condition = none) (hl : name.signals.loop = some loop) (owner : Node)
    (rest : List Entry) (collected : Collected) :
    evaluateEntries undefinedAsNull owner (e :: rest) collected s = (do
      let values ←
        collect (fun item => admits undefinedAsNull e.key (s.bind loop.binding item))
          (fun item => do
            let result ← evaluate undefinedAsNull e.value .value (s.bind loop.binding item)
            return result.value.getD .null)
          loop.items
      return ⟨some (.arr (Nat.repeat flattenOnce name.signals.modifiers.length values)),
        { spread := name.signals.spread }⟩) := by
  rw [evaluateEntries_cons, effect_of_loop owner hname hc hl, bind_assoc]
  simp only [admits_of_loop hname hl]
  rfl

/-- The value of an entry that is no branch and no loop is flattened before it is placed. -/
theorem evaluateEntries_placed (hname : evaluate undefinedAsNull e.key .key s = .ok name)
    (hm : name.signals.modifiers ≠ []) (hc : name.signals.condition = none)
    (hl : name.signals.loop = none) (owner : Node) (rest : List Entry) (collected : Collected) :
    evaluateEntries undefinedAsNull owner (e :: rest) collected s = (do
      let result ← evaluate undefinedAsNull e.value .value s
      let v ← flattenTimes owner name.signals.modifiers.length result.value
      continueWith undefinedAsNull owner s rest collected (placed name v)) := by
  rw [evaluateEntries_cons, effect_of_key owner hname, effectOf, hc, hl]
  simp only [applyModifiers_eq_flattenTimes hm, bind_assoc]
  congr 1
  funext result
  congr 1
  funext v
  unfold placed
  cases name.signals.spread <;> cases name.signals.comment <;> rfl

end Entries

open Entry (Terminal)

/-- A string that is one spread comes to its value flattened once for each call, and fails if that
is no list; any other string comes to what it comes to without the calls. An entry that is
reached flattens what its loop collects, or its value before that is placed, and fails if the
value is no list; but the value of a branch that is taken is left as it is. -/
theorem flatten_applies (undefinedAsNull : Bool) (span : Span) (role : Role) (s : Scope) :
    (∀ modifiers value place, modifiers ≠ [] →
      (evaluate undefinedAsNull (.template [.interpolation true modifiers value place] span) .value
          s).map Evaluated.value = (do
        let inner ← evaluate undefinedAsNull value .value s
        flattenTimes (.template [.interpolation true modifiers value place] span) modifiers.length
          inner.value)) ∧
    (∀ parts, Node.isLoneSpread parts = false →
      (evaluate undefinedAsNull (.template parts span) .value s).map Evaluated.value
        = (evaluate undefinedAsNull (.template (parts.map Node.uncalled) span) .value s).map
            Evaluated.value) ∧
    ∀ pre r, evaluate undefinedAsNull (.object pre span) role s = .ok r →
      (∀ e ∈ pre, ¬ Terminal undefinedAsNull s e) →
      ∃ collected : Collected, r = ⟨some collected.toJson, {}⟩ ∧
        ∀ e post parts inner name, e.key = .template parts inner →
          (∀ part ∈ parts, part.isText = true ∨ part.isInterpolation = true) →
          parts.flatMap Node.modifiers ≠ [] →
          evaluate undefinedAsNull e.key .key s = .ok name →
          (name.signals.condition = some true →
            evaluate undefinedAsNull (.object (pre ++ e :: post) span) role s
              = (evaluate undefinedAsNull e.value .value s).map fun result =>
                  ⟨result.value, { spread := name.signals.spread }⟩) ∧
          (∀ loop, name.signals.condition = none → name.signals.loop = some loop →
            evaluate undefinedAsNull (.object (pre ++ e :: post) span) role s = (do
              let values ←
                collect (fun item => admits undefinedAsNull e.key (s.bind loop.binding item))
                  (fun item => do
                    let result ←
                      evaluate undefinedAsNull e.value .value (s.bind loop.binding item)
                    return result.value.getD .null)
                  loop.items
              return ⟨some (.arr (Nat.repeat flattenOnce (parts.flatMap Node.modifiers).length values)),
                { spread := name.signals.spread }⟩)) ∧
          (name.signals.condition = none → name.signals.loop = none →
            evaluate undefinedAsNull (.object (pre ++ e :: post) span) role s = (do
              let result ← evaluate undefinedAsNull e.value .value s
              let v ← flattenTimes (.object [] span) (parts.flatMap Node.modifiers).length
                result.value
              continueWith undefinedAsNull (.object [] span) s post collected (placed name v))) := by
  refine ⟨fun modifiers value place hm => ?_, fun parts h => value_template_uncalled h span,
    fun pre r hr hpre => ?_⟩
  · rw [value_template_spread]
    simp only [applyModifiers_eq_flattenTimes hm]
  · simp only [evaluate_object] at hr ⊢
    obtain ⟨collected, hpost⟩ := evaluateEntries_append hpre hr
    have hend := hpost []
    rw [List.append_nil, hr] at hend
    refine ⟨collected, Except.ok.inj hend, ?_⟩
    intro e post parts inner name hkey hp hcalls hname
    have hm : name.signals.modifiers = parts.flatMap Node.modifiers :=
      modifiers_of_key hp (hkey ▸ hname)
    rw [hpost, ← hm]
    exact ⟨fun hc => evaluateEntries_taken hname hc _ _,
      fun loop hc hl => evaluateEntries_looped hname hc hl _ _ _,
      fun hc hl => evaluateEntries_placed hname (hm ▸ hcalls) hc hl _ _ _⟩

/-- A list of lists in a spread, behind a key, in a loop and in a branch, and a value that is no
list in a string and behind a key. -/
theorem flatten_applies_nested :
    ∃ (p : Span) (nested once : Json) (s : Scope) (x : Node) (pre : List Entry) (key : List Node),
      p = .empty 0 ∧ nested = .arr [.arr [.null], .arr [.arr [.bool true]]] ∧
      once = .arr [.null, .arr [.bool true]] ∧ s = .ofParameters [("x", nested)] ∧
      x = .path ⟨[⟨"x", false⟩]⟩ p ∧ pre = [.mk (.template [.text "a" p] p) (.bool true p) p] ∧
      key = [.text "k" p, .interpolation false [.flatten] (.bool true p) p] ∧
      (evaluate false (.template [.interpolation true [.flatten] x p] p) .value s).map
        Evaluated.value = .ok (some once) ∧
      (evaluate false (.template [.interpolation false [.flatten] (.bool true p) p] p) .value s).map
        Evaluated.value = .ok (some (.bool true)) ∧
      evaluate false (.object (pre ++ .mk (.template key p) x p :: []) p) .value s
        = .ok ⟨some (.obj [("a", .bool true), ("ktrue", once)]), {}⟩ ∧
      evaluate false (.object (pre ++ .mk (.template key p) (.bool true p) p :: []) p) .value s
        = .error ((Problem.flattenOfNonArray (some (.bool true))).failure (.object [] p)) ∧
      evaluate false (.object (pre ++ .mk (.template [.interpolation false [.flatten]
          (.each ⟨[⟨"x", false⟩]⟩ "i" none p) p] p) (.path ⟨[⟨"i", false⟩]⟩ p) p :: []) p) .value s
        = .ok ⟨some once, {}⟩ ∧
      evaluate false (.object (pre ++ .mk (.template [.interpolation false [.flatten]
          (.otherwise p) p] p) x p :: []) p) .value s
        = .ok ⟨some nested, {}⟩ := by
  let p : Span := .empty 0
  let s : Scope := .ofParameters [("x", .arr [.arr [.null], .arr [.arr [.bool true]]])]
  let pre : List Entry := [.mk (.template [.text "a" p] p) (.bool true p) p]
  let key : List Node := [.text "k" p, .interpolation false [.flatten] (.bool true p) p]
  let each : Node := .interpolation false [.flatten] (.each ⟨[⟨"x", false⟩]⟩ "i" none p) p
  let otherwise : Node := .interpolation false [.flatten] (.otherwise p) p
  obtain ⟨hspread, hother, hentries⟩ := flatten_applies false p .value s
  have hpre : ∀ e ∈ pre, ¬ Terminal false s e := by
    rw [List.forall_mem_singleton]
    rintro ⟨name, hname, hdecides⟩
    cases hname
    obtain h | ⟨-, h | ⟨-, h, -⟩⟩ := hdecides <;> cases h
  have hcalls : [Modifier.flatten] ≠ [] := nofun
  have hkey : ∀ part ∈ key, part.isText = true ∨ part.isInterpolation = true :=
    List.forall_mem_cons.2 ⟨.inl rfl, List.forall_mem_singleton.2 (.inr rfl)⟩
  obtain ⟨collected, hcollected, hreached⟩ := hentries pre _ rfl hpre
  obtain rfl : collected = .fields [("a", .bool true)] := by
    cases collected with
    | items => cases hcollected
    | fields fields =>
        cases hcollected
        rfl
  have hplaced := fun value =>
    (hreached (.mk (.template key p) value p) [] key p _ rfl hkey hcalls rfl).2.2 rfl rfl
  have hlooped := (hreached (.mk (.template [each] p) (.path ⟨[⟨"i", false⟩]⟩ p) p) [] [each] p _
    rfl (List.forall_mem_singleton.2 (.inr rfl)) hcalls rfl).2.1 _ rfl rfl
  have htaken := (hreached (.mk (.template [otherwise] p) (.path ⟨[⟨"x", false⟩]⟩ p) p) []
    [otherwise] p _ rfl (List.forall_mem_singleton.2 (.inr rfl)) hcalls rfl).1 rfl
  exact ⟨p, _, _, s, _, pre, key, rfl, rfl, rfl, rfl, rfl, rfl, rfl,
    hspread [.flatten] (.path ⟨[⟨"x", false⟩]⟩ p) p hcalls,
    hother [.interpolation false [.flatten] (.bool true p) p] rfl, hplaced _, hplaced _, hlooped,
    htaken⟩

/-- A scalar that is no list and a branch that holds lists are left as they are. -/
theorem expand_unflattened :
    (expand (.str "\x7b\x7b flatten | true \x7d\x7d") (.obj []) .none).toOption.map Json.compact
        = some "true" ∧
      (expand (.obj [("\x7b\x7b flatten | else \x7d\x7d", .arr [.arr [.null]])]) (.obj [])
        .none).toOption.map Json.compact = some "[[null]]" := by
  constructor <;> decide +kernel

end Evaluation
end JsonTemplate
