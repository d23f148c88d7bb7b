import JsonTemplate.Proofs.Evaluation.Relocation
import JsonTemplate.Template

/-!
The names that a template reads of its parameters. A name is free in a tree if it begins a
path or the source of a loop; a loop that is all of its key binds its name in its filter and
in the value under the key. What a template comes to, or why it fails, depends on the values
of its free names alone.
-/

namespace JsonTemplate

def VariablePath.rootNames (p : VariablePath) : List String := (p.parts.take 1).map PathPart.name

namespace Node

/-- The source and the binding of the loop that a key is, if it is nothing else. -/
def soleLoop? : Node → Option (VariablePath × String)
  | template [interpolation _ _ (each source binding _ _) _] _ => some (source, binding)
  | _ => none

mutual

def freeNames : Node → List String
  | path p _ => p.rootNames
  | comparison _ left right _ | arithmetic _ left right _ | nullish left right _ =>
      left.freeNames ++ right.freeNames
  | ternary condition yes no _ => condition.freeNames ++ (yes.freeNames ++ no.freeNames)
  | group inner _ | onlyIf inner _ | elseIf inner _ | interpolation _ _ inner _ => inner.freeNames
  | each source _ filter _ => source.rootNames ++ freeNamesOfFilter filter
  | array nodes _ | template nodes _ => freeNamesOfAll nodes
  | object entries _ => freeNamesOfEntries entries
  | number _ _ | bool _ _ | null _ | undefined _ | quoted _ _ | text _ _ | comment _ _
  | otherwise _ => []

def freeNamesOfFilter : Option Node → List String
  | none => []
  | some n => n.freeNames

def freeNamesOfAll : List Node → List String
  | [] => []
  | n :: rest => n.freeNames ++ freeNamesOfAll rest

/-- The source of a loop is read outside of it. -/
def freeNamesOfEntries : List Entry → List String
  | [] => []
  | .mk key value _ :: rest =>
      let names := key.freeNames ++ value.freeNames
      (match key.soleLoop? with
        | some (source, binding) => source.rootNames ++ names.filter (· ≠ binding)
        | none => names) ++ freeNamesOfEntries rest

end

end Node

namespace Scope

/-- These names stand for the same values in both. -/
def AgreesOn (names : List String) (s s' : Scope) : Prop :=
  ∀ name ∈ names, s'.lookup name = s.lookup name

variable {names more : List String} {s s' : Scope}

theorem agreesOn_append :
    AgreesOn (names ++ more) s s' ↔ AgreesOn names s s' ∧ AgreesOn more s s' :=
  List.forall_mem_append

theorem AgreesOn.bind (h : AgreesOn names s s') (binding : String) (v : Value) :
    AgreesOn names (s.bind binding v) (s'.bind binding v) := by
  intro name hname
  rw [lookup_bind, lookup_bind, h name hname]

/-- Under a binding its name need not agree outside. -/
theorem AgreesOn.bind_own {binding : String} (h : AgreesOn (names.filter (· ≠ binding)) s s')
    (v : Value) : AgreesOn names (s.bind binding v) (s'.bind binding v) := by
  intro name hname
  rw [lookup_bind, lookup_bind]
  split
  · rfl
  · next hne => exact h name (List.mem_filter.2 ⟨hname, decide_eq_true (Ne.symm hne)⟩)

end Scope

open Scope (AgreesOn agreesOn_append)

theorem VariablePath.resolve_agreesOn (p : VariablePath) (span : Span) {s s' : Scope}
    (h : AgreesOn p.rootNames s s') : p.resolve span s' = p.resolve span s := by
  obtain ⟨parts⟩ := p
  cases parts with
  | nil => rfl
  | cons root rest =>
      change follow _ _ _ _ (s'.lookup root.name) = follow _ _ _ _ (s.lookup root.name)
      rw [h root.name List.mem_cons_self]

namespace Evaluation

variable (undefinedAsNull : Bool) {s s' : Scope}

/-- A key that is a loop reads its source, and asks for the loop alone. -/
theorem evaluate_soleLoop {key : Node} {source : VariablePath} {binding : String}
    (h : key.soleLoop? = some (source, binding)) (hs : AgreesOn source.rootNames s s') :
    evaluate undefinedAsNull key .key s' = evaluate undefinedAsNull key .key s ∧
      ∀ name, evaluate undefinedAsNull key .key s = .ok name → name.signals.condition = none ∧
        ∃ items filter, name.signals.loop = some ⟨items, binding, filter⟩ := by
  unfold Node.soleLoop? at h
  split at h
  · next spread modifiers source' binding' filter place inner outer =>
      cases h
      refine ⟨by simp only [evaluate, evaluateAll, source.resolve_agreesOn place hs], ?_⟩
      intro name hname
      simp only [evaluate, evaluateAll] at hname
      cases hr : source.resolve place s with
      | error x =>
          rw [hr] at hname
          cases hname
      | ok v =>
          rw [hr] at hname
          cases undefinedAsNull <;> cases spread <;> cases hname <;> exact ⟨rfl, _, _, rfl⟩
  · cases h

mutual

theorem evaluate_agreesOn : (n : Node) → (role : Role) → {s s' : Scope} →
    AgreesOn n.freeNames s s' →
    evaluate undefinedAsNull n role s' = evaluate undefinedAsNull n role s
  | .number _ _, _, _, _, _ | .bool _ _, _, _, _, _ | .null _, _, _, _, _ | .undefined _, _, _, _, _
  | .quoted _ _, _, _, _, _ | .text _ _, _, _, _, _ | .comment _ _, _, _, _, _
  | .otherwise _, _, _, _, _ => rfl
  | .path p span, _, _, _, h => by simp only [evaluate, p.resolve_agreesOn span h]
  | .comparison op left right _, _, _, _, h => by
      obtain ⟨hl, hr⟩ := agreesOn_append.1 h
      simp only [evaluate, evaluate_agreesOn left .value hl, evaluate_agreesOn right .value hr]
  | .arithmetic op left right _, _, _, _, h => by
      obtain ⟨hl, hr⟩ := agreesOn_append.1 h
      simp only [evaluate, evaluate_agreesOn left .value hl, evaluate_agreesOn right .value hr]
  | .ternary condition yes no _, _, _, _, h => by
      obtain ⟨hc, hbranches⟩ := agreesOn_append.1 h
      obtain ⟨hy, hn⟩ := agreesOn_append.1 hbranches
      simp only [evaluate, evaluate_agreesOn condition .value hc, evaluate_agreesOn yes .value hy,
        evaluate_agreesOn no .value hn]
  | .nullish left right _, _, _, _, h => by
      obtain ⟨hl, hr⟩ := agreesOn_append.1 h
      simp only [evaluate, evaluate_agreesOn left .value hl, evaluate_agreesOn right .value hr]
  | .group inner _, _, _, _, h | .onlyIf inner _, _, _, _, h | .elseIf inner _, _, _, _, h
  | .interpolation _ _ inner _, _, _, _, h => by
      simp only [evaluate, evaluate_agreesOn inner .value h]
  | .each source _ _ span, _, _, _, h => by
      simp only [evaluate, source.resolve_agreesOn span (agreesOn_append.1 h).1]
  | .array items _, _, _, _, h => by simp only [evaluate, evaluateItems_agreesOn _ items h]
  | .object entries _, _, _, _, h => evaluateEntries_agreesOn _ entries (.fields []) h
  | .template parts _, _, _, _, h => by simp only [evaluate, evaluateAll_agreesOn parts h]

theorem evaluateAll_agreesOn : (nodes : List Node) → {s s' : Scope} →
    AgreesOn (Node.freeNamesOfAll nodes) s s' →
    evaluateAll undefinedAsNull nodes s' = evaluateAll undefinedAsNull nodes s
  | [], _, _, _ => rfl
  | n :: rest, _, _, h => by
      obtain ⟨hn, hrest⟩ := agreesOn_append.1 h
      simp only [evaluateAll, evaluate_agreesOn n .value hn, evaluateAll_agreesOn rest hrest]

theorem evaluateItems_agreesOn (owner : Node) : (nodes : List Node) → {s s' : Scope} →
    AgreesOn (Node.freeNamesOfAll nodes) s s' →
    evaluateItems undefinedAsNull owner nodes s' = evaluateItems undefinedAsNull owner nodes s
  | [], _, _, _ => rfl
  | n :: rest, _, _, h => by
      obtain ⟨hn, hrest⟩ := agreesOn_append.1 h
      simp only [evaluateItems, evaluate_agreesOn n .value hn,
        evaluateItems_agreesOn owner rest hrest]

theorem evaluateEntries_agreesOn (owner : Node) : (entries : List Entry) →
    (collected : Collected) → {s s' : Scope} → AgreesOn (Node.freeNamesOfEntries entries) s s' →
    evaluateEntries undefinedAsNull owner entries collected s'
      = evaluateEntries undefinedAsNull owner entries collected s
  | [], _, _, _, _ => rfl
  | .mk key value _ :: rest, collected, s, s', h => by
      -- Under a key that is a loop alone the value is only read with the name bound; under
      -- any other key it may be read without.
      obtain ⟨hentry, htail⟩ := agreesOn_append.1 h
      have hrest := fun collected => evaluateEntries_agreesOn owner rest collected htail
      cases hsole : key.soleLoop? with
      | some loop =>
          obtain ⟨source, binding⟩ := loop
          rw [hsole] at hentry
          obtain ⟨hsource, hnames⟩ := agreesOn_append.1 hentry
          obtain ⟨hkey, hasks⟩ := evaluate_soleLoop undefinedAsNull hsole hsource
          rw [evaluateEntries, evaluateEntries, hkey]
          cases hname : evaluate undefinedAsNull key .key s with
          | error x => rfl
          | ok name =>
              obtain ⟨hcondition, items, filter, hloop⟩ := hasks name hname
              have hadmits := fun v =>
                admits_agreesOn key (agreesOn_append.1 (hnames.bind_own v)).1
              have hvalue := fun v =>
                evaluate_agreesOn value .value (agreesOn_append.1 (hnames.bind_own v)).2
              simp only [bind, Except.bind, hcondition, hloop, hadmits, hvalue]
      | none =>
          rw [hsole] at hentry
          obtain ⟨hk, hv⟩ := agreesOn_append.1 hentry
          have hadmits := fun binding v => admits_agreesOn key (hk.bind binding v)
          have hbody := fun binding v => evaluate_agreesOn value .value (hv.bind binding v)
          simp only [evaluateEntries, evaluate_agreesOn key .key hk,
            evaluate_agreesOn value .value hv, hrest, hadmits, hbody]

theorem admits_agreesOn : (n : Node) → {s s' : Scope} → AgreesOn n.freeNames s s' →
    admits undefinedAsNull n s' = admits undefinedAsNull n s
  | .each _ _ filter _, _, _, h => admitsFilter_agreesOn filter (agreesOn_append.1 h).2
  | .interpolation _ _ value _, _, _, h => admits_agreesOn value h
  | .template parts _, _, _, h => admitsParts_agreesOn parts h
  | .number _ _, _, _, _ | .bool _ _, _, _, _ | .null _, _, _, _ | .undefined _, _, _, _
  | .quoted _ _, _, _, _ | .text _ _, _, _, _ | .path _ _, _, _, _ | .comparison _ _ _ _, _, _, _
  | .arithmetic _ _ _ _, _, _, _ | .ternary _ _ _ _, _, _, _ | .nullish _ _ _, _, _, _
  | .group _ _, _, _, _ | .comment _ _, _, _, _ | .onlyIf _ _, _, _, _ | .elseIf _ _, _, _, _
  | .otherwise _, _, _, _ | .array _ _, _, _, _ | .object _ _, _, _, _ => rfl

theorem admitsFilter_agreesOn : (filter : Option Node) → {s s' : Scope} →
    AgreesOn (Node.freeNamesOfFilter filter) s s' →
    admitsFilter undefinedAsNull filter s' = admitsFilter undefinedAsNull filter s
  | none, _, _, _ => rfl
  | some n, _, _, h => by simp only [admitsFilter, evaluate_agreesOn n .value h]

theorem admitsParts_agreesOn : (parts : List Node) → {s s' : Scope} →
    AgreesOn (Node.freeNamesOfAll parts) s s' →
    admitsParts undefinedAsNull parts s' = admitsParts undefinedAsNull parts s
  | [], _, _, _ => rfl
  | part :: rest, _, _, h => by
      obtain ⟨hpart, hrest⟩ := agreesOn_append.1 h
      simp only [admitsParts, admits_agreesOn part hpart, admitsParts_agreesOn rest hrest]

end

end Evaluation

namespace Template

/-- Parameters that agree on the free names of a template are the same to it, whether it
comes to a value or fails. -/
theorem render_eq_of_freeNames (t : Template) (o : Options) {p q : Fields Json}
    (hfree : ∀ name ∈ t.tree.freeNames, Fields.get? p name = Fields.get? q name)
    (hoption : Value.truthy (Fields.get? p Options.parameterName)
      = Value.truthy (Fields.get? q Options.parameterName)) :
    t.render (.obj p) o = t.render (.obj q) o := by
  have hagrees : AgreesOn t.tree.freeNames (.ofParameters q) (.ofParameters p) := hfree
  have heffective : o.effective p = o.effective q := by
    rw [Options.effective, Options.effective, hoption]
  simp only [render, parametersOf, evaluateRoot, heffective,
    Evaluation.evaluate_agreesOn _ t.tree .value hagrees]

/-- The loop binds a name on which the parameters differ. -/
theorem render_eq_of_freeNames_shadowed :
    ∃ (document : Json) (t : Template) (p q : Fields Json),
      document = .obj [("\x7b\x7b each xs as x if x != y \x7d\x7d", .str "\x7b\x7b x \x7d\x7d")] ∧
      compile document = .ok t ∧
      p = [("xs", .arr [.bool true, .null]), ("y", .null), ("x", .bool false)] ∧
      q = [("x", .str "a"), ("y", .null), ("z", .null), ("xs", .arr [.bool true, .null])] ∧
      (∀ name ∈ t.tree.freeNames, Fields.get? p name = Fields.get? q name) ∧
      Value.truthy (Fields.get? p Options.parameterName)
        = Value.truthy (Fields.get? q Options.parameterName) ∧
      t.render (.obj p) .none = t.render (.obj q) .none := by
  let document : Json :=
    .obj [("\x7b\x7b each xs as x if x != y \x7d\x7d", .str "\x7b\x7b x \x7d\x7d")]
  have hnames : ((compile document).toOption.map fun t => t.tree.freeNames)
      = some ["xs", "xs", "y"] := by decide +kernel
  cases ht : compile document with
  | error x =>
      rw [ht] at hnames
      cases hnames
  | ok t =>
      rw [ht] at hnames
      have hfree : t.tree.freeNames = ["xs", "xs", "y"] := Option.some.inj hnames
      have hagrees : ∀ name ∈ t.tree.freeNames,
          Fields.get? [("xs", Json.arr [.bool true, .null]), ("y", .null), ("x", .bool false)] name
            = Fields.get? [("x", .str "a"), ("y", .null), ("z", .null),
                ("xs", .arr [.bool true, .null])] name := by
        rw [hfree]
        simp [Fields.get?]
      exact ⟨document, t, _, _, rfl, ht, rfl, rfl, hagrees, rfl,
        render_eq_of_freeNames t .none hagrees rfl⟩

end Template
end JsonTemplate
