import JsonTemplate.Evaluation.Node
import JsonTemplate.Proofs.Tree.Nesting

/-!
How a rendering fails: with one failure alone, which no message is put around, at the span
of a node of the tree that is rendered.
-/

namespace JsonTemplate

/-- A failure of a rendering that stands alone, at one of some nodes. -/
structure Failure.RaisedIn (nodes : List Node) (x : Failure) : Prop where
  causes : x.causes = []
  kind : x.head.kind = .defect ∨ ∃ path, x.head.kind = .undefinedValue path
  span : ∃ m ∈ nodes, x.head.span = m.span

/-- Whatever fails here fails at one of these nodes. -/
def Raises {α : Type} (nodes : List Node) (r : Except Failure α) : Prop :=
  ∀ x, r = .error x → x.RaisedIn nodes

section Raises

variable {α β : Type} {nodes : List Node} {owner : Node}

theorem raises_ok (a : α) : Raises nodes (.ok a : Except Failure α) := nofun

theorem raises_bind {r : Except Failure α} {next : α → Except Failure β} (h : Raises nodes r)
    (hn : ∀ a, Raises nodes (next a)) : Raises nodes (r >>= next) := by
  intro x hx
  cases r with
  | error y =>
      cases hx
      exact h x rfl
  | ok a => exact hn a x hx

theorem raises_problem (ho : owner ∈ nodes) (p : Problem) :
    Raises nodes (.error (p.failure owner) : Except Failure α) := by
  intro x hx
  cases hx
  exact ⟨rfl, .inl rfl, owner, ho, rfl⟩

end Raises

variable {nodes : List Node} {owner : Node}

theorem VariablePath.raises_follow (ho : owner ∈ nodes) (consumed : List String) (tolerant : Bool)
    (parts : List PathPart) (v : Value) :
    Raises nodes (follow owner.span consumed tolerant parts v) := by
  induction parts generalizing consumed tolerant v with
  | nil => exact raises_ok v
  | cons part rest ih =>
      rw [follow]
      split
      · split
        · exact ih _ _ _
        · intro x hx
          cases hx
          exact ⟨rfl, .inr ⟨_, rfl⟩, owner, ho, rfl⟩
      · exact ih _ _ _

theorem VariablePath.raises_resolve (ho : owner ∈ nodes) (p : VariablePath) (s : Scope) :
    Raises nodes (p.resolve owner.span s) := by
  obtain ⟨parts⟩ := p
  cases parts with
  | nil => exact raises_ok none
  | cons root rest => exact raises_follow ho _ _ _ _

theorem Arithmetic.raises_evaluate (ho : owner ∈ nodes) (op : Arithmetic) (left right : Value) :
    Raises nodes (op.evaluate left right owner) := by
  rw [evaluate]
  split
  · exact raises_ok _
  · split
    · exact raises_ok _
    · exact raises_problem ho _

theorem raises_applyModifiers (ho : owner ∈ nodes) (modifiers : List Modifier) (v : Value) :
    Raises nodes (applyModifiers owner modifiers v) := by
  induction modifiers, v using applyModifiers.induct with
  | case1 v => exact raises_ok v
  | case2 rest items ih => exact ih
  | case3 rest v hv =>
      rw [applyModifiers]
      · exact raises_problem ho _
      · exact hv

theorem Collected.raises_merge (ho : owner ∈ nodes) (c : Collected) (v : Value) :
    Raises nodes (c.merge owner v) := by
  unfold merge
  split <;> first | exact raises_ok _ | exact raises_problem ho _

theorem Collected.raises_assign (ho : owner ∈ nodes) (name : String) (c : Collected) (v : Value) :
    Raises nodes (c.assign owner name v) := by
  cases c with
  | items is => exact raises_problem ho _
  | fields fs => cases v <;> exact raises_ok _

namespace Evaluation

variable (undefinedAsNull : Bool)

/-! Strings -/

theorem raises_partText (ho : owner ∈ nodes) (tolerated : Bool) (index total : Nat) (v : Value) :
    Raises nodes (partText tolerated owner index total v) := by
  unfold partText
  split
  · split
    · exact raises_ok _
    · exact raises_problem ho _
  all_goals first | exact raises_ok _ | exact raises_problem ho _

theorem raises_joinTexts (ho : owner ∈ nodes) (tolerated : Bool) (total index : Nat)
    (parts : List Evaluated) : Raises nodes (joinTexts tolerated owner total index parts) := by
  induction parts generalizing index with
  | nil => exact raises_ok _
  | cons part rest ih =>
      exact raises_bind (raises_partText ho _ _ _ _) fun head =>
        raises_bind (ih (index + 1)) fun tail => raises_ok _

theorem raises_single? (ho : owner ∈ nodes) (role : Role) (only : Evaluated) :
    ∀ r ∈ single? undefinedAsNull role owner only, Raises nodes r := by
  intro r hr
  unfold single? at hr
  split at hr
  · cases role with
    | key =>
        cases hr
        exact raises_ok _
    | value =>
        cases hr
        exact raises_bind (raises_applyModifiers ho _ _) fun v => raises_ok _
  · split at hr
    · cases hr
    · split at hr <;> cases hr
      exact raises_ok _
    · cases hr
    · cases hr
    · cases hr
      exact raises_ok _

theorem raises_finishTemplate (ho : owner ∈ nodes) (role : Role) (parts : List Node)
    (results : List Evaluated) :
    Raises nodes (finishTemplate undefinedAsNull role owner parts results) := by
  have hjoined : Raises nodes (do
      let text ← joinTexts (undefinedAsNull || role == .key) owner results.length 0 results
      return (⟨some (.str text), absorbAll results⟩ : Evaluated)) :=
    raises_bind (raises_joinTexts ho _ _ 0 results) fun text => raises_ok _
  unfold finishTemplate
  split
  · next part only =>
      split
      · cases hs : single? undefinedAsNull role owner only with
        | none => exact hjoined
        | some r => exact raises_single? undefinedAsNull ho role only r hs
      · exact hjoined
  · exact hjoined

/-! Containers -/

theorem raises_itemsOf (ho : owner ∈ nodes) (item : Evaluated) :
    Raises nodes (itemsOf owner item) := by
  unfold itemsOf
  split
  · split
    · exact raises_ok _
    · exact raises_problem ho _
  · exact raises_ok _

theorem raises_collect {admits : Value → Except Failure Bool} {body : Value → Except Failure Json}
    (ha : ∀ v, Raises nodes (admits v)) (hb : ∀ v, Raises nodes (body v)) (items : List Value) :
    Raises nodes (collect admits body items) := by
  induction items with
  | nil => exact raises_ok _
  | cons item rest ih =>
      apply raises_bind (ha item)
      intro admitted
      cases admitted with
      | false => exact ih
      | true => exact raises_bind (hb item) fun value => raises_bind ih fun values => raises_ok _

/-! Nodes -/

open Node (nodes nodesOfAll nodesOfEntries nodesOfFilter)

variable {all : List Node}

mutual

theorem raises_evaluate : (n : Node) → n.nodes ⊆ all → (role : Role) → (s : Scope) →
    Raises all (evaluate undefinedAsNull n role s)
  | .number _ _, _, _, _ | .bool _ _, _, _, _ | .null _, _, _, _ | .undefined _, _, _, _
  | .quoted _ _, _, _, _ | .text _ _, _, _, _ | .comment _ _, _, _, _ | .otherwise _, _, _, _ =>
      raises_ok _
  | .path p span, h, _, s => by
      have hself : Node.path p span ∈ all := h (Node.mem_nodes_self _)
      exact raises_bind (VariablePath.raises_resolve hself p s) fun v => raises_ok _
  | .comparison op left right span, h, _, s => by
      obtain ⟨-, h⟩ := List.cons_subset.1 h
      obtain ⟨hl, hr⟩ := List.append_subset.1 h
      exact raises_bind (raises_evaluate left hl .value s) fun a =>
        raises_bind (raises_evaluate right hr .value s) fun b => raises_ok _
  | .arithmetic op left right span, h, _, s => by
      obtain ⟨hself, h⟩ := List.cons_subset.1 h
      obtain ⟨hl, hr⟩ := List.append_subset.1 h
      exact raises_bind (raises_evaluate left hl .value s) fun a =>
        raises_bind (raises_evaluate right hr .value s) fun b =>
          raises_bind (op.raises_evaluate hself a.value b.value) fun v => raises_ok _
  | .ternary condition yes no span, h, _, s => by
      obtain ⟨-, h⟩ := List.cons_subset.1 h
      obtain ⟨h, hn⟩ := List.append_subset.1 h
      obtain ⟨hc, hy⟩ := List.append_subset.1 h
      apply raises_bind (raises_evaluate condition hc .value s)
      intro c
      split
      · exact raises_bind (raises_evaluate yes hy .value s) fun v => raises_ok _
      · exact raises_bind (raises_evaluate no hn .value s) fun v => raises_ok _
  | .nullish left right span, h, _, s => by
      obtain ⟨-, h⟩ := List.cons_subset.1 h
      obtain ⟨hl, hr⟩ := List.append_subset.1 h
      have hleft := raises_evaluate left hl .value s
      have hright : Raises all (do
          return Evaluated.plain (← evaluate undefinedAsNull right .value s).value) :=
        raises_bind (raises_evaluate right hr .value s) fun v => raises_ok _
      rw [evaluate]
      split
      · split
        · exact hright
        · exact raises_ok _
      · next f hf =>
          split
          · exact hright
          · intro x hx
            cases hx
            exact hleft f hf
  | .group inner span, h, _, s => by
      obtain ⟨-, hi⟩ := List.cons_subset.1 h
      exact raises_bind (raises_evaluate inner hi .value s) fun v => raises_ok _
  | .onlyIf guard span, h, _, s | .elseIf guard span, h, _, s => by
      obtain ⟨-, hg⟩ := List.cons_subset.1 h
      exact raises_bind (raises_evaluate guard hg .value s) fun v => raises_ok _
  | .each source binding filter span, h, _, s => by
      obtain ⟨hself, -⟩ := List.cons_subset.1 h
      exact raises_bind (VariablePath.raises_resolve hself source s) fun v => raises_ok _
  | .array items span, h, _, s => by
      obtain ⟨hself, hi⟩ := List.cons_subset.1 h
      exact raises_bind (raises_evaluateItems hself items hi s) fun v => raises_ok _
  | .object entries span, h, _, s => by
      obtain ⟨hself, he⟩ := List.cons_subset.1 h
      exact raises_evaluateEntries hself entries he (.fields []) s
  | .template parts span, h, role, s => by
      obtain ⟨hself, hp⟩ := List.cons_subset.1 h
      exact raises_bind (raises_evaluateAll parts hp s) fun results =>
        raises_finishTemplate undefinedAsNull hself role parts results
  | .interpolation spread modifiers value span, h, _, s => by
      obtain ⟨-, hv⟩ := List.cons_subset.1 h
      exact raises_bind (raises_evaluate value hv .value s) fun inner => raises_ok _

theorem raises_evaluateAll : (items : List Node) → nodesOfAll items ⊆ all → (s : Scope) →
    Raises all (evaluateAll undefinedAsNull items s)
  | [], _, _ => raises_ok _
  | n :: rest, h, s => by
      obtain ⟨hn, hrest⟩ := List.append_subset.1 h
      exact raises_bind (raises_evaluate n hn .value s) fun head =>
        raises_bind (raises_evaluateAll rest hrest s) fun tail => raises_ok _

theorem raises_evaluateItems {owner : Node} (ho : owner ∈ all) : (items : List Node) →
    nodesOfAll items ⊆ all → (s : Scope) →
    Raises all (evaluateItems undefinedAsNull owner items s)
  | [], _, _ => raises_ok _
  | n :: rest, h, s => by
      obtain ⟨hn, hrest⟩ := List.append_subset.1 h
      exact raises_bind (raises_evaluate n hn .value s) fun result =>
        raises_bind (raises_itemsOf ho result) fun head =>
          raises_bind (raises_evaluateItems ho rest hrest s) fun tail => raises_ok _

theorem raises_evaluateEntries {owner : Node} (ho : owner ∈ all) : (entries : List Entry) →
    nodesOfEntries entries ⊆ all → (collected : Collected) → (s : Scope) →
    Raises all (evaluateEntries undefinedAsNull owner entries collected s)
  | [], _, _, _ => raises_ok _
  | .mk key value span :: rest, h, collected, s => by
      obtain ⟨h, hrest⟩ := List.append_subset.1 h
      obtain ⟨hkey, hvalue⟩ := List.append_subset.1 h
      apply raises_bind (raises_evaluate key hkey .key s)
      intro name
      split
      · exact raises_bind (raises_evaluate value hvalue .value s) fun result => raises_ok _
      · exact raises_evaluateEntries ho rest hrest collected s
      · next loop _ _ =>
          have hcollect := raises_collect
            (fun v => raises_admits key hkey (s.bind loop.binding v))
            (fun v => raises_bind (raises_evaluate value hvalue .value (s.bind loop.binding v))
              fun result => raises_ok (result.value.getD .null)) loop.items
          exact raises_bind hcollect fun values =>
            raises_bind (raises_applyModifiers ho _ _) fun result => raises_ok _
      · apply raises_bind (raises_evaluate value hvalue .value s)
        intro plain
        apply raises_bind (raises_applyModifiers ho _ _)
        intro result
        split
        · split
          · exact raises_bind (collected.raises_merge ho result) fun collected =>
              raises_evaluateEntries ho rest hrest collected s
          · exact raises_ok _
        · exact raises_bind (collected.raises_assign ho _ result) fun collected =>
            raises_evaluateEntries ho rest hrest collected s

theorem raises_admits : (n : Node) → n.nodes ⊆ all → (s : Scope) →
    Raises all (admits undefinedAsNull n s)
  | .each _ _ filter _, h, s => raises_admitsFilter filter (List.cons_subset.1 h).2 s
  | .interpolation _ _ value _, h, s => raises_admits value (List.cons_subset.1 h).2 s
  | .template parts _, h, s => raises_admitsParts parts (List.cons_subset.1 h).2 s
  | .number _ _, _, _ | .bool _ _, _, _ | .null _, _, _ | .undefined _, _, _ | .quoted _ _, _, _
  | .text _ _, _, _ | .path _ _, _, _ | .comparison _ _ _ _, _, _ | .arithmetic _ _ _ _, _, _
  | .ternary _ _ _ _, _, _ | .nullish _ _ _, _, _ | .group _ _, _, _ | .comment _ _, _, _
  | .onlyIf _ _, _, _ | .elseIf _ _, _, _ | .otherwise _, _, _ | .array _ _, _, _
  | .object _ _, _, _ => raises_ok _

theorem raises_admitsFilter : (filter : Option Node) → nodesOfFilter filter ⊆ all →
    (s : Scope) → Raises all (admitsFilter undefinedAsNull filter s)
  | none, _, _ => raises_ok _
  | some guard, h, s => raises_bind (raises_evaluate guard h .value s) fun _ => raises_ok _

theorem raises_admitsParts : (parts : List Node) → nodesOfAll parts ⊆ all → (s : Scope) →
    Raises all (admitsParts undefinedAsNull parts s)
  | [], _, _ => raises_ok _
  | part :: rest, h, s => by
      obtain ⟨hpart, hrest⟩ := List.append_subset.1 h
      rw [admitsParts]
      split
      · exact raises_admitsParts rest hrest s
      · exact raises_admits part hpart s

end

end Evaluation
end JsonTemplate
