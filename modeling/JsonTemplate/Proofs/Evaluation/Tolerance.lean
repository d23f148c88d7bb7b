import JsonTemplate.Proofs.Evaluation.Failures
import JsonTemplate.Proofs.Template.Containers

/-!
Missing values in text. A rendering that takes them for null does what the strict one does up to
the first missing value that stands in text, where the strict one fails and nothing recovers
from the failure. So it comes to the same wherever the strict one comes to something, and no
failure of its own is about a missing value in text.
-/

namespace JsonTemplate

namespace Problem

/-- Between the label of a node and the message of a problem stands the first colon. -/
theorem dropWhile_message (p : Problem) (n : Node) :
    (p.failure n).head.message.toList.dropWhile (· ≠ ':') = ':' :: ' ' :: p.message.toList := by
  have hlabel : n.label.toList.all (· ≠ ':') = true := by
    cases n <;> simp only [Node.label] <;> decide
  have hcolon : ": ".toList = [':', ' '] := rfl
  have hmessage : (p.failure n).head.message = n.label ++ ": " ++ p.message := rfl
  rw [hmessage, String.toList_append, String.toList_append, List.append_assoc,
    List.dropWhile_append_of_pos (List.all_eq_true.1 hlabel), hcolon]
  rfl

def isUndefinedInText : Problem → Bool
  | undefinedInText => true
  | _ => false

theorem take_message {p : Problem} (h : p.isUndefinedInText = false) :
    p.message.toList.take 3 ≠ undefinedInText.message.toList.take 3 := by
  cases p with
  | undefinedInText => cases h
  | keyAfterSpread | arrayAfterKeys | objectAfterArray => decide
  | spreadOfNonArray | spreadOfScalar | flattenOfNonArray | notFinite | notText =>
      unfold message
      simp only [String.toList_append, List.append_assoc]
      rw [List.take_append_of_le_length (by decide)]
      decide

/-- Only text with a missing value in it fails with these words. -/
theorem message_ne {p : Problem} (h : p.isUndefinedInText = false) (n : Node) :
    (p.failure n).head.message ≠ "TemplateString: Undefined value in template string" := by
  intro hm
  have hd := dropWhile_message p n
  rw [hm] at hd
  have htext : p.message.toList = undefinedInText.message.toList :=
    (List.cons.inj (List.cons.inj hd).2).2.symm
  exact take_message h (congrArg (List.take 3) htext)

end Problem

/-- A result without tolerance for missing values in text, and one with it. -/
structure Tolerates {α : Type} (strict lenient : Except Failure α) : Prop where
  agrees : strict = lenient ∨ ∃ owner, strict = .error (Problem.undefinedInText.failure owner)
  spares : ∀ x, lenient = .error x →
    x.head.message ≠ "TemplateString: Undefined value in template string"

section Tolerates

variable {α β : Type} {strict lenient : Except Failure α} {owner : Node}

theorem Tolerates.ok_of_ok (h : Tolerates strict lenient) {a : α} (ha : strict = .ok a) :
    lenient = .ok a := by
  obtain heq | ⟨owner, herror⟩ := h.agrees
  · exact heq ▸ ha
  · cases ha.symm.trans herror

theorem Tolerates.error_of_error (h : Tolerates strict lenient) {x : Failure}
    (hx : lenient = .error x) : ∃ y, strict = .error y := by
  obtain heq | ⟨owner, herror⟩ := h.agrees
  · exact ⟨x, heq.trans hx⟩
  · exact ⟨_, herror⟩

theorem tolerates_ok (a : α) : Tolerates (.ok a) (.ok a) := ⟨.inl rfl, nofun⟩

variable (owner) in
/-- A missing value in text, and what stands there instead. -/
theorem tolerates_missing (a : α) :
    Tolerates (.error (Problem.undefinedInText.failure owner)) (.ok a) :=
  ⟨.inr ⟨owner, rfl⟩, nofun⟩

theorem tolerates_bind {next next' : α → Except Failure β} (h : Tolerates strict lenient)
    (hn : ∀ a, Tolerates (next a) (next' a)) : Tolerates (strict >>= next) (lenient >>= next') := by
  constructor
  · obtain rfl | ⟨owner, rfl⟩ := h.agrees
    · cases strict with
      | error x => exact .inl rfl
      | ok a => exact (hn a).agrees
    · exact .inr ⟨owner, rfl⟩
  · intro x hx
    obtain hx | ⟨a, -, hx⟩ := bind_eq_error.1 hx
    · exact h.spares x hx
    · exact (hn a).spares x hx

theorem tolerates_problem {p : Problem} (h : p.isUndefinedInText = false) :
    Tolerates (.error (p.failure owner) : Except Failure α) (.error (p.failure owner)) := by
  refine ⟨.inl rfl, ?_⟩
  intro x hx
  cases hx
  exact p.message_ne h owner

end Tolerates

/-! What does not ask for the tolerance -/

theorem VariablePath.tolerates_follow (span : Span) (consumed : List String) (tolerant : Bool)
    (parts : List PathPart) (v : Value) :
    Tolerates (follow span consumed tolerant parts v) (follow span consumed tolerant parts v) := by
  induction parts generalizing consumed tolerant v with
  | nil => exact tolerates_ok v
  | cons part rest ih =>
      rw [follow]
      split
      · split
        · exact ih _ _ _
        · refine ⟨.inl rfl, ?_⟩
          intro x hx hm
          cases hx
          have hfirst := congrArg (fun m => m.toList.take 1) hm
          simp only [Failure.undefinedValue, String.toList_append, List.append_assoc] at hfirst
          rw [List.take_append_of_le_length (by decide)] at hfirst
          revert hfirst
          decide
      · exact ih _ _ _

theorem VariablePath.tolerates_resolve (p : VariablePath) (span : Span) (s : Scope) :
    Tolerates (p.resolve span s) (p.resolve span s) := by
  obtain ⟨parts⟩ := p
  cases parts with
  | nil => exact tolerates_ok none
  | cons root rest => exact tolerates_follow _ _ _ _ _

theorem Arithmetic.tolerates_evaluate (op : Arithmetic) (left right : Value) (owner : Node) :
    Tolerates (op.evaluate left right owner) (op.evaluate left right owner) := by
  rw [evaluate]
  split
  · exact tolerates_ok _
  · split
    · exact tolerates_ok _
    · exact tolerates_problem rfl

theorem tolerates_applyModifiers (owner : Node) (modifiers : List Modifier) (v : Value) :
    Tolerates (applyModifiers owner modifiers v) (applyModifiers owner modifiers v) := by
  induction modifiers, v using applyModifiers.induct with
  | case1 v => exact tolerates_ok v
  | case2 rest items ih => exact ih
  | case3 rest v hv =>
      rw [applyModifiers]
      · exact tolerates_problem rfl
      · exact hv

theorem Collected.tolerates_merge (owner : Node) (c : Collected) (v : Value) :
    Tolerates (c.merge owner v) (c.merge owner v) := by
  unfold merge
  split <;> first | exact tolerates_ok _ | exact tolerates_problem rfl

theorem Collected.tolerates_assign (owner : Node) (name : String) (c : Collected) (v : Value) :
    Tolerates (c.assign owner name v) (c.assign owner name v) := by
  cases c with
  | items is => exact tolerates_problem rfl
  | fields fs => cases v <;> exact tolerates_ok _

namespace Evaluation

theorem tolerates_itemsOf (owner : Node) (item : Evaluated) :
    Tolerates (itemsOf owner item) (itemsOf owner item) := by
  unfold itemsOf
  split
  · split
    · exact tolerates_ok _
    · exact tolerates_problem rfl
  · exact tolerates_ok _

/-- A value that there is, or else what stands in for it. -/
def coalesce (left fallback : Except Failure Evaluated) : Except Failure Evaluated :=
  match left with
  | .ok result => if result.value.isNullish then fallback else .ok (.plain result.value)
  | .error f => if f.isUndefinedValue then fallback else .error f

theorem evaluate_nullish (undefinedAsNull : Bool) (left right : Node) (span : Span) (role : Role)
    (s : Scope) :
    evaluate undefinedAsNull (.nullish left right span) role s
      = coalesce (evaluate undefinedAsNull left .value s) (do
          return .plain (← evaluate undefinedAsNull right .value s).value) := by
  rw [evaluate]
  cases evaluate undefinedAsNull left .value s <;> rfl

/-- A missing value in text is no undefined value, and nothing stands in for it. -/
theorem tolerates_coalesce {left left' right right' : Except Failure Evaluated}
    (hl : Tolerates left left') (hr : Tolerates right right') :
    Tolerates (coalesce left right) (coalesce left' right') := by
  constructor
  · obtain rfl | ⟨owner, rfl⟩ := hl.agrees
    · cases left with
      | ok result =>
          rw [coalesce, coalesce]
          split
          · exact hr.agrees
          · exact .inl rfl
      | error f =>
          rw [coalesce, coalesce]
          split
          · exact hr.agrees
          · exact .inl rfl
    · exact .inr ⟨owner, rfl⟩
  · intro x hx
    cases left' with
    | ok result =>
        rw [coalesce] at hx
        split at hx
        · exact hr.spares x hx
        · cases hx
    | error f =>
        rw [coalesce] at hx
        split at hx
        · exact hr.spares x hx
        · exact hl.spares x hx

/-! Strings -/

theorem tolerates_partText (tolerated : Bool) (owner : Node) (index total : Nat) (v : Value) :
    Tolerates (partText tolerated owner index total v) (partText true owner index total v) := by
  unfold partText
  split
  · cases tolerated with
    | true => exact tolerates_ok ""
    | false => exact tolerates_missing owner ""
  all_goals first | exact tolerates_ok _ | exact tolerates_problem rfl

theorem tolerates_joinTexts (tolerated : Bool) (owner : Node) (total index : Nat)
    (parts : List Evaluated) :
    Tolerates (joinTexts tolerated owner total index parts)
      (joinTexts true owner total index parts) := by
  induction parts generalizing index with
  | nil => exact tolerates_ok ""
  | cons part rest ih =>
      exact tolerates_bind (tolerates_partText tolerated owner index total part.value) fun head =>
        tolerates_bind (ih (index + 1)) fun tail => tolerates_ok (head ++ tail)

/-- A missing value alone is null where it is tolerated. Otherwise it is text, and the text
fails. -/
theorem tolerates_finishTemplate (role : Role) (owner : Node) (parts : List Node)
    (results : List Evaluated) :
    Tolerates (finishTemplate false role owner parts results)
      (finishTemplate true role owner parts results) := by
  have hjoined := tolerates_bind
    (tolerates_joinTexts (false || role == .key) owner results.length 0 results) fun text =>
      tolerates_ok (⟨some (.str text), absorbAll results⟩ : Evaluated)
  unfold finishTemplate
  split
  · next part only =>
      split
      · obtain ⟨v, spread, modifiers, condition, loop, comment⟩ := only
        cases spread with
        | true =>
            cases role with
            | key => exact tolerates_ok _
            | value =>
                exact tolerates_bind (tolerates_applyModifiers owner modifiers v) fun value =>
                  tolerates_ok _
        | false =>
            cases role with
            | key => exact hjoined
            | value =>
                cases v with
                | none => exact tolerates_missing owner _
                | some v => cases v <;> first | exact hjoined | exact tolerates_ok _
      · exact hjoined
  · exact hjoined

/-! Containers -/

theorem tolerates_collect {admits admits' : Value → Except Failure Bool}
    {body body' : Value → Except Failure Json} (ha : ∀ v, Tolerates (admits v) (admits' v))
    (hb : ∀ v, Tolerates (body v) (body' v)) (items : List Value) :
    Tolerates (collect admits body items) (collect admits' body' items) := by
  induction items with
  | nil => exact tolerates_ok []
  | cons item rest ih =>
      apply tolerates_bind (ha item)
      intro admitted
      cases admitted with
      | false => exact ih
      | true =>
          exact tolerates_bind (hb item) fun value => tolerates_bind ih fun values =>
            tolerates_ok (value :: values)

/-! Nodes -/

mutual

theorem tolerates_evaluate : (n : Node) → (role : Role) → (s : Scope) →
    Tolerates (evaluate false n role s) (evaluate true n role s)
  | .number _ _, _, _ | .bool _ _, _, _ | .null _, _, _ | .undefined _, _, _ | .quoted _ _, _, _
  | .text _ _, _, _ | .comment _ _, _, _ | .otherwise _, _, _ => tolerates_ok _
  | .path p span, _, s => tolerates_bind (p.tolerates_resolve span s) fun v => tolerates_ok _
  | .comparison op left right _, _, s =>
      tolerates_bind (tolerates_evaluate left .value s) fun a =>
        tolerates_bind (tolerates_evaluate right .value s) fun b => tolerates_ok _
  | .arithmetic op left right span, _, s =>
      tolerates_bind (tolerates_evaluate left .value s) fun a =>
        tolerates_bind (tolerates_evaluate right .value s) fun b =>
          tolerates_bind (op.tolerates_evaluate a.value b.value _) fun v => tolerates_ok _
  | .ternary condition yes no _, _, s => by
      apply tolerates_bind (tolerates_evaluate condition .value s)
      intro c
      split
      · exact tolerates_bind (tolerates_evaluate yes .value s) fun v => tolerates_ok _
      · exact tolerates_bind (tolerates_evaluate no .value s) fun v => tolerates_ok _
  | .nullish left right span, role, s => by
      rw [evaluate_nullish, evaluate_nullish]
      exact tolerates_coalesce (tolerates_evaluate left .value s)
        (tolerates_bind (tolerates_evaluate right .value s) fun v => tolerates_ok _)
  | .group inner _, _, s =>
      tolerates_bind (tolerates_evaluate inner .value s) fun v => tolerates_ok _
  | .onlyIf guard _, _, s | .elseIf guard _, _, s =>
      tolerates_bind (tolerates_evaluate guard .value s) fun v => tolerates_ok _
  | .each source _ _ span, _, s =>
      tolerates_bind (source.tolerates_resolve span s) fun v => tolerates_ok _
  | .array items _, _, s =>
      tolerates_bind (tolerates_evaluateItems _ items s) fun v => tolerates_ok _
  | .object entries _, _, s => tolerates_evaluateEntries _ entries (.fields []) s
  | .template parts _, role, s =>
      tolerates_bind (tolerates_evaluateAll parts s) fun results =>
        tolerates_finishTemplate role _ parts results
  | .interpolation _ _ value _, _, s =>
      tolerates_bind (tolerates_evaluate value .value s) fun inner => tolerates_ok _

theorem tolerates_evaluateAll : (items : List Node) → (s : Scope) →
    Tolerates (evaluateAll false items s) (evaluateAll true items s)
  | [], _ => tolerates_ok _
  | n :: rest, s =>
      tolerates_bind (tolerates_evaluate n .value s) fun _ =>
        tolerates_bind (tolerates_evaluateAll rest s) fun _ => tolerates_ok _

theorem tolerates_evaluateItems (owner : Node) : (items : List Node) → (s : Scope) →
    Tolerates (evaluateItems false owner items s) (evaluateItems true owner items s)
  | [], _ => tolerates_ok _
  | n :: rest, s =>
      tolerates_bind (tolerates_evaluate n .value s) fun result =>
        tolerates_bind (tolerates_itemsOf owner result) fun _ =>
          tolerates_bind (tolerates_evaluateItems owner rest s) fun _ => tolerates_ok _

theorem tolerates_evaluateEntries (owner : Node) : (entries : List Entry) →
    (collected : Collected) → (s : Scope) →
    Tolerates (evaluateEntries false owner entries collected s)
      (evaluateEntries true owner entries collected s)
  | [], _, _ => tolerates_ok _
  | .mk key value _ :: rest, collected, s => by
      apply tolerates_bind (tolerates_evaluate key .key s)
      intro name
      split
      · exact tolerates_bind (tolerates_evaluate value .value s) fun result => tolerates_ok _
      · exact tolerates_evaluateEntries owner rest collected s
      · next loop _ _ =>
          have hcollect := tolerates_collect
            (fun v => tolerates_admits key (s.bind loop.binding v))
            (fun v => tolerates_bind (tolerates_evaluate value .value (s.bind loop.binding v))
              fun result => tolerates_ok (result.value.getD .null)) loop.items
          exact tolerates_bind hcollect fun values =>
            tolerates_bind (tolerates_applyModifiers owner _ _) fun result => tolerates_ok _
      · apply tolerates_bind (tolerates_evaluate value .value s)
        intro plain
        apply tolerates_bind (tolerates_applyModifiers owner _ _)
        intro result
        split
        · split
          · exact tolerates_bind (collected.tolerates_merge owner result) fun collected =>
              tolerates_evaluateEntries owner rest collected s
          · exact tolerates_ok _
        · exact tolerates_bind (collected.tolerates_assign owner _ result) fun collected =>
            tolerates_evaluateEntries owner rest collected s

theorem tolerates_admits : (n : Node) → (s : Scope) →
    Tolerates (admits false n s) (admits true n s)
  | .each _ _ filter _, s => tolerates_admitsFilter filter s
  | .interpolation _ _ value _, s => tolerates_admits value s
  | .template parts _, s => tolerates_admitsParts parts s
  | .number _ _, _ | .bool _ _, _ | .null _, _ | .undefined _, _ | .quoted _ _, _ | .text _ _, _
  | .path _ _, _ | .comparison _ _ _ _, _ | .arithmetic _ _ _ _, _ | .ternary _ _ _ _, _
  | .nullish _ _ _, _ | .group _ _, _ | .comment _ _, _ | .onlyIf _ _, _ | .elseIf _ _, _
  | .otherwise _, _ | .array _ _, _ | .object _ _, _ => tolerates_ok true

theorem tolerates_admitsFilter : (filter : Option Node) → (s : Scope) →
    Tolerates (admitsFilter false filter s) (admitsFilter true filter s)
  | none, _ => tolerates_ok true
  | some guard, s => tolerates_bind (tolerates_evaluate guard .value s) fun _ => tolerates_ok _

theorem tolerates_admitsParts : (parts : List Node) → (s : Scope) →
    Tolerates (admitsParts false parts s) (admitsParts true parts s)
  | [], _ => tolerates_ok true
  | part :: rest, s => by
      rw [admitsParts, admitsParts]
      split
      · exact tolerates_admitsParts rest s
      · exact tolerates_admits part s

end

/-- No failure of a rendering that tolerates missing values is one of text, neither itself nor
what it goes back to. -/
theorem message_ne_of_tolerant {n : Node} {role : Role} {s : Scope} {x : Failure}
    (h : evaluate true n role s = .error x) :
    (∀ fault ∈ x.chain,
        fault.message ≠ "TemplateString: Undefined value in template string") ∧
      x.describe ≠ "TemplateString: Undefined value in template string" := by
  have hhead := (tolerates_evaluate n role s).spares x h
  have halone : x.causes = [] := (raises_evaluate true n (List.Subset.refl _) role s x h).causes
  have hchain : x.chain = [x.head] := by rw [Failure.chain, halone]
  have hdescribe : x.describe = x.head.message := by
    rw [Failure.describe, Failure.innermost, halone]
    exact if_pos rfl
  rw [hchain, hdescribe, List.forall_mem_singleton]
  exact ⟨hhead, hhead⟩

/-- A tree that renders without tolerance for missing values renders to the same with it. So
what fails with it fails without it, and no failure with it is about a missing value in text. -/
theorem tolerance_conservative :
    (∀ n role s r, evaluate false n role s = .ok r → evaluate true n role s = .ok r) ∧
    (∀ (t : Template) (parameters : Fields Json) e,
      t.render (.obj parameters) ⟨true⟩ = .error e →
        ∃ e', t.render (.obj parameters) ⟨false⟩ = .error e') ∧
    ∀ (t : Template) (parameters : Fields Json) (o : Options) e,
      o.effective parameters = true → t.render (.obj parameters) o = .error e →
        ∃ path snippet x, e = .failed path snippet x ∧
          (∀ fault ∈ x.chain,
            fault.message ≠ "TemplateString: Undefined value in template string") ∧
          x.describe ≠ "TemplateString: Undefined value in template string" := by
  refine ⟨fun n role s r => (tolerates_evaluate n role s).ok_of_ok, fun t parameters e h => ?_,
    fun t parameters o e ho h => ?_⟩
  · obtain ⟨x, hx, -⟩ := Template.render_eq_error_iff.1 h
    have htolerates := tolerates_evaluate t.tree .value (.ofParameters parameters)
    cases hfalse : Options.effective ⟨false⟩ parameters with
    | true =>
        refine ⟨_, Template.render_eq_error_iff.2 ⟨x, ?_, rfl⟩⟩
        rw [hfalse]
        exact hx
    | false =>
        obtain ⟨y, hy⟩ := htolerates.error_of_error hx
        refine ⟨_, Template.render_eq_error_iff.2 ⟨y, ?_, rfl⟩⟩
        rw [hfalse]
        exact hy
  · obtain ⟨x, hx, rfl⟩ := Template.render_eq_error_iff.1 h
    rw [ho] at hx
    exact ⟨_, _, x, rfl, message_ne_of_tolerant hx⟩

/-- The tree comes to the same either way, and the template fails either way: without tolerance
at its first part, with it at its second. -/
theorem tolerance_conservative_missing :
    ∃ (p : Span) (n : Node) (t : Template) (r : Evaluated) (e : TemplateError),
      p = .empty 0 ∧
      n = .nullish (.path ⟨[⟨"a", false⟩, ⟨"b", false⟩]⟩ p) (.null p) p ∧
      t.tree = .template [.interpolation false [] (.path ⟨[⟨"a", false⟩]⟩ p) p,
        .interpolation false [] (.path ⟨[⟨"a", false⟩, ⟨"b", false⟩]⟩ p) p] p ∧
      evaluate false n .value (.ofParameters []) = .ok r ∧
      evaluate true n .value (.ofParameters []) = .ok r ∧
      Options.effective ⟨true⟩ [] = true ∧
      t.render (.obj []) ⟨true⟩ = .error e ∧
      (∃ e', t.render (.obj []) ⟨false⟩ = .error e') ∧
      ∃ path snippet x, e = .failed path snippet x ∧
        (∀ fault ∈ x.chain,
          fault.message ≠ "TemplateString: Undefined value in template string") ∧
        x.describe ≠ "TemplateString: Undefined value in template string" := by
  let p : Span := .empty 0
  let n : Node := .nullish (.path ⟨[⟨"a", false⟩, ⟨"b", false⟩]⟩ p) (.null p) p
  let t : Template := ⟨.null, Stream.ofJson .null,
    .template [.interpolation false [] (.path ⟨[⟨"a", false⟩]⟩ p) p,
      .interpolation false [] (.path ⟨[⟨"a", false⟩, ⟨"b", false⟩]⟩ p) p] p⟩
  obtain ⟨hsame, hfails, hwords⟩ := tolerance_conservative
  exact ⟨p, n, t, .plain (some .null), _, rfl, rfl, rfl, rfl,
    hsame n .value (.ofParameters []) _ rfl, rfl, rfl, hfails t [] _ rfl,
    hwords t [] ⟨true⟩ _ rfl rfl⟩

end Evaluation
end JsonTemplate
