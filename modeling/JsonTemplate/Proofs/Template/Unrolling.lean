import JsonTemplate.Proofs.Evaluation.Filters
import JsonTemplate.Proofs.Evaluation.Relocation
import JsonTemplate.Proofs.Template.Loops

/-!
A loop unrolled. The bindings of a loop live in scopes and its body is read once, yet what
comes of it is what its filter and its body come to as documents of their own, with the name
of the binding as a parameter, for one item after another.
-/

namespace JsonTemplate

namespace TemplateError

/-- What went wrong, without the place. -/
def describe : TemplateError → String
  | failed _ _ failure => failure.describe
  | invalidParameters typeName => message (invalidParameters typeName)

end TemplateError

namespace Loop

/-- What a loop goes over; a value that is no list is its only item. -/
def elements : Json → List Json
  | .arr items => items
  | v => [v]

/-- Whether a filter, expanded alone, comes to true. -/
def admitted (filter : Option String) (parameters : Json) (o : Options) :
    Except TemplateError Bool :=
  match filter with
  | none => .ok true
  | some c => do
      let result ← expand (.str (alone c)) parameters o
      return result matches .bool true

/-- What the body, expanded alone, comes to for those items that the filter admits. -/
def unrolled (body : Json) (filter : Option String) (binding : String)
    (parameters : Fields Json) (o : Options) : List Json → Except TemplateError (List Json)
  | [] => .ok []
  | item :: rest => do
      let bound := .obj (parameters.insert binding item)
      if ← admitted filter bound o then
        let value ← expand body bound o
        let values ← unrolled body filter binding parameters o rest
        return value :: values
      else unrolled body filter binding parameters o rest

end Loop

open Evaluation

namespace Template

theorem evaluateRoot_relocate (f : Span → Span) (n : Node) (undefinedAsNull : Bool)
    (parameters : Fields Json) :
    evaluateRoot (n.relocate f) undefinedAsNull parameters
      = Failure.transport f id (evaluateRoot n undefinedAsNull parameters) :=
  valueIn_relocate f undefinedAsNull n (.refl _)

/-- Expanded, a document comes to the value of its tree, whatever the spans. -/
theorem expand_of_read {document : Json} {n : Node} (h : Rules.read 0 document = .ok n)
    (parameters : Fields Json) (o : Options) :
    (expand document (.obj parameters) o).mapError TemplateError.describe
      = (evaluateRoot n.bare (o.effective parameters) parameters).mapError Failure.describe := by
  rw [Node.bare, evaluateRoot_relocate, Failure.mapError_transport]
  simp only [expand, compile_of_read h, bind, Except.bind, render, parametersOf]
  cases evaluateRoot n (o.effective parameters) parameters <;> rfl

end Template

theorem Options.effective_insert (o : Options) (parameters : Fields Json) {binding : String}
    (h : binding ≠ parameterName) (v : Json) :
    o.effective (parameters.insert binding v) = o.effective parameters := by
  rw [effective, effective, Fields.get?_insert, if_neg h]

namespace Evaluation

/-! Comparisons that stand alone -/

variable (undefinedAsNull : Bool) (s : Scope)

theorem evaluate_comparison (op : Comparison) (left right : Node) (span : Span) :
    evaluate undefinedAsNull (.comparison op left right span) .value s
      = (admitsFilter undefinedAsNull (some (.comparison op left right span)) s).map
          fun b => .plain (some (.bool b)) := by
  simp only [admitsFilter, evaluate]
  cases evaluate undefinedAsNull left .value s with
  | error x => rfl
  | ok a =>
      cases evaluate undefinedAsNull right .value s with
      | error x => rfl
      | ok b => rfl

/-- A truth value is also that of a string which holds nothing else. -/
theorem evaluate_alone {n : Node} {r : Except Failure Bool} (span : Span)
    (h : evaluate undefinedAsNull n .value s = r.map fun b => .plain (some (.bool b))) :
    evaluate undefinedAsNull (.template [.interpolation false [] n span] span) .value s
      = r.map fun b => .plain (some (.bool b)) := by
  simp only [evaluate, evaluateAll, h]
  cases r <;> rfl

end Evaluation

namespace Loop

open Rules Template

variable {filter : Option String} {found : Option Node} {parameters : Fields Json} {o : Options}

/-- Expanded, a comparison that stands alone is whether it holds. -/
theorem expand_alone {c : String} {n : Node} (h : IsComparison c n) (parameters : Fields Json)
    (o : Options) :
    (expand (.str (alone c)) (.obj parameters) o).mapError TemplateError.describe
      = ((admitsFilter (o.effective parameters) (some n) (.ofParameters parameters)).map
          Json.bool).mapError Failure.describe := by
  obtain ⟨m, hm, hbare⟩ := readText_alone h
  obtain ⟨op, left, right, rfl⟩ := comparison_of_reads h.read
  have hcompared := evaluate_comparison (o.effective parameters) (.ofParameters parameters) op left
    right (.empty 0)
  have hvalue := evaluate_alone _ _ (.empty 0) hcompared
  rw [expand_of_read (read_str_of_readText hm), Node.bare_relocate, hbare, evaluateRoot, hvalue]
  cases admitsFilter (o.effective parameters) (some (.comparison op left right (.empty 0)))
    (.ofParameters parameters) <;> rfl

/-- A filter that is expanded alone admits what it admits as a part of its loop. -/
theorem admitted_eq (h : Filters filter found) (parameters : Fields Json) (o : Options) :
    (admitted filter (.obj parameters) o).mapError TemplateError.describe
      = (admitsFilter (o.effective parameters) found (.ofParameters parameters)).mapError
          Failure.describe := by
  cases filter with
  | none =>
      cases found with
      | none => rfl
      | some n => exact h.elim
  | some c =>
      cases found with
      | none => exact h.elim
      | some n =>
          change (Except.map (fun result => result matches .bool true)
            (expand (.str (alone c)) (.obj parameters) o)).mapError _ = _
          rw [mapError_map, expand_alone h, ← mapError_map]
          cases admitsFilter (o.effective parameters) (some n) (.ofParameters parameters) with
          | error x => rfl
          | ok b => cases b <;> rfl

/-! Loops -/

theorem evaluate_key {p : VariablePath} {s : Scope} {v : Json} {span : Span}
    (h : p.resolve span s = .ok (some v)) (undefinedAsNull : Bool) (modifiers : List Modifier)
    (binding : String) (found : Option Node) :
    evaluate undefinedAsNull
        (.template [.interpolation false modifiers (.each p binding found span) span] span) .key s
      = .ok ⟨some (.str ""),
          { modifiers, loop := some ⟨(elements v).map some, binding, found⟩ }⟩ := by
  simp only [evaluate, evaluateAll, h]
  cases undefinedAsNull <;> cases v <;> rfl

/-- What a loop collects under its binding. -/
def collected (undefinedAsNull : Bool) (found : Option Node) (binding : String) (body : Node)
    (s : Scope) (items : List Json) : Except Failure (List Json) :=
  collect (fun v => admitsFilter undefinedAsNull found (s.bind binding v))
    (fun v => valueIn undefinedAsNull body (s.bind binding v)) (items.map some)

/-- An object with a loop for its only key is the list that the loop collects. -/
theorem evaluateRoot_loop {p : VariablePath} {v : Json} {span : Span}
    (h : p.resolve span (.ofParameters parameters) = .ok (some v)) (undefinedAsNull : Bool)
    (count : Nat) (binding : String) (body : Node) :
    evaluateRoot
        (.object [.mk (.template [.interpolation false (List.replicate count .flatten)
          (.each p binding found span) span] span) body span] span) undefinedAsNull parameters
      = (collected undefinedAsNull found binding body (.ofParameters parameters) (elements v)).map
          fun values => .arr (Nat.repeat flattenOnce count values) := by
  have hkey := evaluate_key h undefinedAsNull (List.replicate count .flatten) binding found
  have hentry := effect_of_loop (e := .mk _ body span) (.object [] span) hkey rfl rfl
  rw [evaluateRoot, evaluate_object, evaluateEntries_cons, hentry, List.length_replicate]
  change (collected undefinedAsNull found binding body (.ofParameters parameters) (elements v) >>= _)
    >>= _ >>= _ = _
  cases collected undefinedAsNull found binding body (.ofParameters parameters) (elements v) <;> rfl

/-- Item by item, what a loop collects under its binding is what its filter and its body
come to with a parameter. -/
theorem collected_eq_unrolled {body : Json} {n : Node} {binding : String}
    (hf : Filters filter found) (hn : Rules.read 0 body = .ok n)
    (hb : binding ≠ Options.parameterName) (items : List Json) :
    (collected (o.effective parameters) found binding n.bare (.ofParameters parameters)
        items).mapError Failure.describe
      = (unrolled body filter binding parameters o items).mapError TemplateError.describe := by
  induction items with
  | nil => rfl
  | cons item rest ih =>
      have hscope := Scope.agrees_insert parameters binding item
      have heffective := o.effective_insert parameters hb item
      have hadmits := admitsFilter_agrees (o.effective parameters) found hscope
      have hvalue := valueIn_agrees (o.effective parameters) n.bare hscope
      have hfilter := admitted_eq hf (parameters.insert binding item) o
      have hbody := expand_of_read hn (parameters.insert binding item) o
      rw [heffective] at hfilter hbody
      apply mapError_bind (hadmits.trans hfilter.symm)
      intro admitted
      cases admitted with
      | false => exact ih
      | true =>
          apply mapError_bind (hvalue.trans hbody.symm)
          intro value
          exact mapError_bind ih fun values => rfl

/-! Objects with one key -/

theorem read_body {name : String} {body : Json} {n : Node}
    (h : Rules.read 0 (.obj [(name, body)]) = .ok n) : ∃ b, Rules.read 0 body = .ok b := by
  obtain ⟨_, hentries, -⟩ := read_obj_eq_ok.1 h
  obtain ⟨_, _, _, _, hvalue, -, -⟩ := (readFields_cons_eq_ok rfl rfl).1 hentries
  rw [read_place] at hvalue
  obtain ⟨b, hb, -⟩ := Failure.transport_eq_ok.1 hvalue
  exact ⟨b, hb⟩

theorem read_entry {name : String} {body : Json} {k b : Node} (hk : readText name = .ok k)
    (hb : Rules.read 0 body = .ok b) :
    ∃ n, Rules.read 0 (.obj [(name, body)]) = .ok n ∧
      n.bare = .object [.mk k.bare b.bare (.empty 0)] (.empty 0) := by
  have hplace := read_place (0 + 1 + 2 + (name.toList.length + 2) + 2) body
  rw [hb] at hplace
  simp only [Rules.read, readFields, hplace, readTextAt_of_readText hk]
  refine ⟨_, rfl, ?_⟩
  simp only [Node.bare, Node.relocate, Node.relocateEntries, Node.relocate_relocate]
  rfl

theorem exists_filters (h : ∀ c ∈ filter, ∃ n, IsComparison c n) : ∃ found, Filters filter found := by
  cases filter with
  | none => exact ⟨none, trivial⟩
  | some c =>
      obtain ⟨n, hn⟩ := h c rfl
      exact ⟨some n, hn⟩

/-- A loop comes to what its body comes to, expanded alone with the name of the binding as a
parameter, for one item after another that the filter admits, flattened as often as its key
says. It fails where the first of these expansions fails, and says the same. -/
theorem expand_eq_unrolled {source binding : String} {path : VariablePath} {body v : Json}
    {t : Template} (hs : Denotes source.toList path)
    (hb : Denotes binding.toList ⟨[⟨binding, false⟩]⟩) (hne : binding ≠ Options.parameterName)
    (hf : ∀ c ∈ filter, ∃ n, IsComparison c n) (count : Nat)
    (ht : compile (.obj [(key count source binding filter, body)]) = .ok t)
    (hv : path.resolve (.empty 0) (.ofParameters parameters) = .ok (some v)) (o : Options) :
    (expand (.obj [(key count source binding filter, body)]) (.obj parameters) o).mapError
        TemplateError.describe
      = ((unrolled body filter binding parameters o (elements v)).mapError
          TemplateError.describe).map fun values => .arr (Nat.repeat flattenOnce count values) := by
  obtain ⟨found, hfound⟩ := exists_filters hf
  obtain ⟨k, hk, hkbare⟩ := readText_key hs hb hfound count
  obtain ⟨tree, htree⟩ := (compile_isOk_iff _).1 ⟨t, ht⟩
  obtain ⟨b, hbody⟩ := read_body htree
  obtain ⟨n, hn, hbare⟩ := read_entry hk hbody
  rw [expand_of_read hn, hbare, hkbare, evaluateRoot_loop hv, mapError_map,
    collected_eq_unrolled hfound hbody hne]

/-- A loop with a filter and one call. -/
theorem expand_eq_unrolled_filtered :
    ∃ (t : Template) (v : Json) (path : VariablePath) (parameters : Fields Json),
      parameters = [("xs", v)] ∧ v = .arr [.bool true, .str "a"] ∧ Denotes "xs".toList path ∧
      Denotes "x".toList ⟨[⟨"x", false⟩]⟩ ∧ "x" ≠ Options.parameterName ∧
      (∀ c ∈ some "x != 1", ∃ n, IsComparison c n) ∧
      compile (.obj [(key 1 "xs" "x" (some "x != 1"), .str "\x7b\x7b x \x7d\x7d")]) = .ok t ∧
      path.resolve (.empty 0) (.ofParameters parameters) = .ok (some v) ∧
      (expand (.obj [(key 1 "xs" "x" (some "x != 1"), .str "\x7b\x7b x \x7d\x7d")])
          (.obj parameters) .none).mapError TemplateError.describe
        = ((unrolled (.str "\x7b\x7b x \x7d\x7d") (some "x != 1") "x" parameters .none
            (elements v)).mapError TemplateError.describe).map
              fun values => .arr (Nat.repeat flattenOnce 1 values) := by
  have hb := gap_blank
  have hx : Writing.WritesPath ⟨[⟨"x", false⟩]⟩ "x".toList :=
    .mk ⟨⟨'x', [], rfl, rfl⟩, List.forall_mem_singleton.2 rfl, by decide⟩ .nil (by decide)
  have hxs : Writing.WritesPath ⟨[⟨"xs", false⟩]⟩ "xs".toList :=
    .mk ⟨⟨'x', ['s'], rfl, rfl⟩, List.all_eq_true.1 rfl, by decide⟩ .nil (by decide)
  have hone : Writing.Writes .atom (.number (.int 1 (by decide)) (.empty 0))
      (toString (1 : Int)).toList := .number rfl rfl
  have hcompared : Writing.Writes .comparison _ "x != 1".toList :=
    .comparison .distinct (.operand (.atom (.path hx))) hb hb (.term (.operand (.atom hone)))
  have hf : ∀ c ∈ some "x != 1", ∃ n, IsComparison c n := fun c hc => by
    cases hc
    exact ⟨_, isComparison_of_writes hcompared⟩
  have hbody : Writing.WritesInterpolation (.interpolation false [] _ (.empty 0))
      "\x7b\x7b x \x7d\x7d".toList :=
    .mk hb .no .none (.operand (.atom (.path hx))) hb .none
  obtain ⟨found, hfound⟩ := exists_filters hf
  obtain ⟨k, hk, -⟩ := readText_key (denotes_written hxs) (denotes_written hx) hfound 1
  obtain ⟨b, hvalue, -⟩ := readText_of_interpolation (reads_interpolation hbody [])
  obtain ⟨n, hn, -⟩ := read_entry hk (read_str_of_readText hvalue)
  have ht := compile_of_read hn
  have hv : VariablePath.resolve ⟨[⟨"xs", false⟩]⟩ (.empty 0)
      (.ofParameters [("xs", .arr [.bool true, .str "a"])])
        = .ok (some (.arr [.bool true, .str "a"])) := rfl
  have hunrolled := expand_eq_unrolled (denotes_written hxs) (denotes_written hx) (by decide) hf 1 ht
    hv .none
  exact ⟨_, _, _, _, rfl, rfl, denotes_written hxs, denotes_written hx, by decide, hf, ht, hv,
    hunrolled⟩

end Loop
end JsonTemplate
