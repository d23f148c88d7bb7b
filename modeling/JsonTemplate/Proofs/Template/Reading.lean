import JsonTemplate.Proofs.Results
import JsonTemplate.Proofs.Template.Text

/-!
Documents string by string. `read` gives the tree of a document by recursion on the
document, each string read alone; `run_document` says that the rules read every document
so, wherever it stands in a stream.
-/

namespace JsonTemplate

namespace Rules

variable {α : Type}

/-- A failure gets the words of an expectation around it. -/
def under (e : Expectation) : Except Failure α → Except Failure α
  | .ok a => .ok a
  | .error x => .error (x.under e.message)

/-- The tree of a string at `start`. -/
def readTextAt (start : Nat) (s : String) : Except Failure Node :=
  Failure.transport (Span.shift start) (Node.relocate (Span.shift start)) (readText s)

theorem readTextAt_of_readText {s : String} {n : Node} (h : readText s = .ok n) (start : Nat) :
    readTextAt start s = .ok (n.relocate (Span.shift start)) := by
  rw [readTextAt, h, Failure.transport]

/-- An entry of an object reads its key, and then its value. -/
def entryOf (span : Span) (key value : Except Failure Node) : Except Failure Entry := do
  let key ← under .entryKeyString key
  let value ← value
  return .mk key value span

mutual

/-- The tree of a document whose first token stands at `start`. -/
def read (start : Nat) : Json → Except Failure Node
  | .null => .ok (.null ⟨start, start + 1⟩)
  | .bool b => .ok (.bool b ⟨start, start + 1⟩)
  | .num n => .ok (.number n ⟨start, start + 1⟩)
  | .str s => under .document (readTextAt start s)
  | .arr items =>
      (under .document (under .arrayEntries (readItems (start + 1) items))).map fun nodes =>
        .array nodes ⟨start, start + 1 + Json.tokenCountItems items + 1⟩
  | .obj fields =>
      (under .document (under .objectEntries (readFields (start + 1) fields))).map fun entries =>
        .object entries ⟨start, start + 1 + Json.tokenCountFields fields + 1⟩

def readItems (start : Nat) : List Json → Except Failure (List Node)
  | [] => .ok []
  | item :: rest => do
      let node ← read (start + 1) item
      let nodes ← readItems (start + 1 + item.tokenCount + 1) rest
      return node :: nodes

def readFields (start : Nat) : List (String × Json) → Except Failure (List Entry)
  | [] => .ok []
  | (name, v) :: rest => do
      let place := start + 2 + (name.toList.length + 2) + 2
      let stop := place + v.tokenCount + 2
      let entry ← entryOf ⟨start, stop⟩ (readTextAt (start + 2) name) (read place v)
      let entries ← readFields stop rest
      return entry :: entries

end

theorem read_str_of_readText {s : String} {n : Node} (h : readText s = .ok n) :
    read 0 (.str s) = .ok (n.relocate (Span.shift 0)) := by
  rw [read, readTextAt_of_readText h, under]

/-! What is read of containers -/

theorem under_eq_ok {e : Expectation} {r : Except Failure α} {a : α} :
    under e r = .ok a ↔ r = .ok a := by
  cases r with
  | error x => exact ⟨nofun, nofun⟩
  | ok b => exact .rfl

theorem read_arr_eq_ok {start : Nat} {items : List Json} {n : Node} :
    read start (.arr items) = .ok n ↔ ∃ nodes, readItems (start + 1) items = .ok nodes ∧
      n = .array nodes ⟨start, start + 1 + Json.tokenCountItems items + 1⟩ := by
  rw [read]
  cases readItems (start + 1) items with
  | error x => exact ⟨nofun, fun ⟨_, h, _⟩ => nomatch h⟩
  | ok nodes =>
      exact ⟨fun h => ⟨nodes, rfl, (Except.ok.inj h).symm⟩, fun ⟨_, hn, h⟩ => by cases hn; rw [h]; rfl⟩

theorem read_obj_eq_ok {start : Nat} {fields : List (String × Json)} {n : Node} :
    read start (.obj fields) = .ok n ↔ ∃ entries, readFields (start + 1) fields = .ok entries ∧
      n = .object entries ⟨start, start + 1 + Json.tokenCountFields fields + 1⟩ := by
  rw [read]
  cases readFields (start + 1) fields with
  | error x => exact ⟨nofun, fun ⟨_, h, _⟩ => nomatch h⟩
  | ok entries =>
      exact ⟨fun h => ⟨entries, rfl, (Except.ok.inj h).symm⟩, fun ⟨_, hn, h⟩ => by cases hn; rw [h]; rfl⟩

theorem readItems_cons_eq_ok {start : Nat} {item : Json} {rest : List Json} {nodes : List Node} :
    readItems start (item :: rest) = .ok nodes ↔ ∃ n more, read (start + 1) item = .ok n ∧
      readItems (start + 1 + item.tokenCount + 1) rest = .ok more ∧ nodes = n :: more := by
  simp only [readItems, bind_eq_ok]
  constructor
  · rintro ⟨n, hn, more, hmore, h⟩
    exact ⟨n, more, hn, hmore, (Except.ok.inj h).symm⟩
  · rintro ⟨n, more, hn, hmore, rfl⟩
    exact ⟨n, hn, more, hmore, rfl⟩

theorem readFields_cons_eq_ok {start place stop : Nat} {name : String} {v : Json}
    {rest : List (String × Json)} {entries : List Entry}
    (hp : place = start + 2 + (name.toList.length + 2) + 2) (hs : stop = place + v.tokenCount + 2) :
    readFields start ((name, v) :: rest) = .ok entries ↔
      ∃ key value more, readTextAt (start + 2) name = .ok key ∧ read place v = .ok value ∧
        readFields stop rest = .ok more ∧ entries = .mk key value ⟨start, stop⟩ :: more := by
  subst hp hs
  simp only [readFields, entryOf, bind_eq_ok, under_eq_ok]
  constructor
  · rintro ⟨_, ⟨key, hkey, value, hvalue, he⟩, more, hmore, h⟩
    cases he
    exact ⟨key, value, more, hkey, hvalue, hmore, (Except.ok.inj h).symm⟩
  · rintro ⟨key, value, more, hkey, hvalue, hmore, rfl⟩
    exact ⟨_, ⟨key, hkey, value, hvalue, rfl⟩, more, hmore, rfl⟩

/-! Documents at another place -/

section Shift

open Failure (transport transport_map transport_bind)

variable (k : Nat)

theorem shift_comp (start : Nat) : Span.shift k ∘ Span.shift start = Span.shift (start + k) := by
  funext span
  simp only [Function.comp_apply, Span.shift, Nat.add_assoc]

theorem under_transport {β : Type} (f : Span → Span) (g : α → β) (e : Expectation)
    (r : Except Failure α) : under e (transport f g r) = transport f g (under e r) := by
  cases r with
  | ok a => rfl
  | error x => exact congrArg Except.error (Failure.relocate_under f e.message x).symm

theorem readTextAt_shift (start : Nat) (s : String) :
    readTextAt (start + k) s
      = transport (Span.shift k) (Node.relocate (Span.shift k)) (readTextAt start s) := by
  rw [readTextAt, readTextAt, ← shift_comp]
  cases readText s with
  | ok n => exact congrArg Except.ok (Node.relocate_relocate _ _ n).symm
  | error x => exact congrArg Except.error (Failure.relocate_relocate _ _ x).symm

theorem entryOf_shift (span : Span) (key value : Except Failure Node) :
    entryOf (span.shift k) (transport (Span.shift k) (Node.relocate (Span.shift k)) key)
        (transport (Span.shift k) (Node.relocate (Span.shift k)) value)
      = transport (Span.shift k) (Entry.relocate (Span.shift k)) (entryOf span key value) :=
  transport_bind _ (under_transport _ _ _ key) fun _ => transport_bind _ rfl fun _ => rfl

mutual

/-- A document that stands further on has the same tree, and fails alike. -/
theorem read_shift (start : Nat) : (v : Json) →
    read (start + k) v = transport (Span.shift k) (Node.relocate (Span.shift k)) (read start v)
  | .null | .bool b | .num n => by
      simp only [read, transport, Node.relocate, Span.shift, Nat.add_right_comm]
  | .str s => by rw [read, read, readTextAt_shift, under_transport]
  | .arr items => by
      have hstart : start + k + 1 = start + 1 + k := Nat.add_right_comm start k 1
      have hstop : start + 1 + k + Json.tokenCountItems items + 1
          = start + 1 + Json.tokenCountItems items + 1 + k := by omega
      rw [read, read, hstart, hstop, readItems_shift (start + 1) items, under_transport,
        under_transport]
      refine transport_map _ (fun nodes => ?_) _
      rw [Node.relocate, Node.relocateAll_eq_map, Span.shift]
  | .obj fields => by
      have hstart : start + k + 1 = start + 1 + k := Nat.add_right_comm start k 1
      have hstop : start + 1 + k + Json.tokenCountFields fields + 1
          = start + 1 + Json.tokenCountFields fields + 1 + k := by omega
      rw [read, read, hstart, hstop, readFields_shift (start + 1) fields, under_transport,
        under_transport]
      refine transport_map _ (fun entries => ?_) _
      rw [Node.relocate, Entry.relocateEntries_eq_map, Span.shift]

theorem readItems_shift (start : Nat) : (items : List Json) →
    readItems (start + k) items
      = transport (Span.shift k) (List.map (Node.relocate (Span.shift k))) (readItems start items)
  | [] => rfl
  | item :: rest => by
      have hstart : start + k + 1 = start + 1 + k := Nat.add_right_comm start k 1
      have hnext : start + 1 + k + item.tokenCount + 1 = start + 1 + item.tokenCount + 1 + k := by omega
      rw [readItems, readItems, hstart, hnext]
      exact transport_bind _ (read_shift (start + 1) item) fun node =>
        transport_bind _ (readItems_shift _ rest) fun nodes => rfl

theorem readFields_shift (start : Nat) : (fields : List (String × Json)) →
    readFields (start + k) fields
      = transport (Span.shift k) (List.map (Entry.relocate (Span.shift k)))
          (readFields start fields)
  | [] => rfl
  | (name, v) :: rest => by
      let place := start + 2 + (name.toList.length + 2) + 2
      have hname : start + k + 2 = start + 2 + k := Nat.add_right_comm start k 2
      have hplace : start + 2 + k + (name.toList.length + 2) + 2 = place + k := by omega
      have hstop : place + k + v.tokenCount + 2 = place + v.tokenCount + 2 + k := by omega
      have hentry := entryOf_shift k ⟨start, place + v.tokenCount + 2⟩ (readTextAt (start + 2) name)
        (read place v)
      rw [← readTextAt_shift, ← read_shift place v] at hentry
      simp only [readFields, hname, hplace, hstop]
      exact transport_bind _ hentry fun entry =>
        transport_bind _ (readFields_shift _ rest) fun entries => rfl

end

/-- A document is read wherever it stands as it is read alone. -/
theorem read_place (place : Nat) (document : Json) :
    read place document
      = transport (Span.shift place) (Node.relocate (Span.shift place)) (read 0 document) := by
  have hshift := read_shift place 0 document
  rwa [Nat.zero_add] at hshift

end Shift

/-! Rules of documents, given what their parts do -/

section Parts

variable {tokens : Stream} {call : Symbol → Nat → Outcome Piece}

theorem run_tagged_noMatch {t : Tag} {start : Nat} {parts : List TemplateRule}
    {build : Option (Span → List Piece → Build Fragment)} (h : tokens.tagAt? start ≠ some t) :
    (Rule.sequence (.tag t :: parts) build).run tokens call start = .noMatch := by
  simp only [Rule.run, Rule.runAll, h, if_false, Outcome.noMatch_bind]

theorem run_must {item : TemplateRule} {start : Nat} {span : Span} {r : Except Failure Node}
    (h : item.run tokens call start = answer .node span r) (e : Expectation) :
    (must item e).run tokens call start = answer .node span (under e r) := by
  cases r <;> simp only [must, Rule.run, h, answer, under]

theorem run_must_matched {item : TemplateRule} {start : Nat} {piece : Piece}
    (h : item.run tokens call start = .matched piece) (e : Expectation) :
    (must item e).run tokens call start = .matched piece := by
  simp only [must, Rule.run, h]

/-- A repetition took these pieces, or failed. -/
def Repeats (read? : Piece → Option α) (stop : Nat) (o : Outcome (Nat × List Piece)) :
    Except Failure (List α) → Prop
  | .ok xs => ∃ pieces, pieces.mapM read? = some xs ∧ o = .matched (stop, pieces)
  | .error x => o = .committed x

variable {read? : Piece → Option α} {item : Nat → Outcome Piece} {budget start stop : Nat}

theorem repeats_nil (h : item start = .noMatch) :
    Repeats read? start (repeatedly item (budget + 1) start) (.ok []) :=
  ⟨[], rfl, by simp only [repeatedly, h]⟩

theorem repeats_cons (wrap : α → Fragment) {next : Nat} {r : Except Failure α}
    {rs : Except Failure (List α)}
    (h : item start = answer wrap ⟨start, next⟩ r)
    (ha : ∀ a, read? (⟨start, next⟩, .value (wrap a)) = some a) (hs : start < next)
    (hr : Repeats read? stop (repeatedly item budget next) rs) :
    Repeats read? stop (repeatedly item (budget + 1) start)
      (do let a ← r; let as ← rs; return a :: as) := by
  have hne : Span.isEmpty ⟨start, next⟩ = false := (Span.isEmpty_eq_false_iff _).2 hs
  cases r with
  | error x => simp only [bind, Except.bind, Repeats, repeatedly, h, answer]
  | ok a =>
      cases rs with
      | ok as =>
          obtain ⟨pieces, hp, ho⟩ := hr
          refine ⟨(⟨start, next⟩, .value (wrap a)) :: pieces, ?_, ?_⟩
          · simp only [List.mapM_cons, ha, hp]
            rfl
          · simp only [repeatedly, h, answer, hne, Bool.false_eq_true, if_false, ho, Outcome.matched_map]
      | error x =>
          have ho : repeatedly item budget next = .committed x := hr
          simp only [bind, Except.bind, Repeats, repeatedly, h, answer, hne, Bool.false_eq_true, if_false,
            ho, Outcome.committed_map]

theorem run_arrayEntry {r : Except Failure Node}
    (ho : tokens.tagAt? start = some (.opening .arrayEntry))
    (hd : call .document (start + 1) = answer .node ⟨start + 1, stop⟩ r)
    (hc : tokens.tagAt? stop = some (.closing .arrayEntry)) :
    arrayEntry.run tokens call start = answer .node ⟨start, stop + 1⟩ r := by
  cases r <;>
    simp [arrayEntry, Rule.run, Rule.runAll, ho, hd, hc, answer, buildArrayEntry, node?, shaped,
      made, Outcome.ofBuild]

theorem run_array {r : Except Failure (List Node)}
    (ho : tokens.tagAt? start = some (.opening .array))
    (hr : Repeats node? stop
      (repeatedly (arrayEntry.run tokens call) (tokens.size - (start + 1) + 1) (start + 1)) r)
    (hc : tokens.tagAt? stop = some (.closing .array)) :
    array.run tokens call start
      = answer .node ⟨start, stop + 1⟩
          ((under .arrayEntries r).map fun nodes => .array nodes ⟨start, stop + 1⟩) := by
  cases r with
  | ok nodes =>
      obtain ⟨pieces, hp, hm⟩ := hr
      simp [array, must, Rule.run, Rule.runAll, ho, hm, hc, answer, buildNodes, items?, hp, shaped,
        made, under, Except.map, Outcome.ofBuild]
  | error x =>
      have hm : repeatedly _ _ _ = .committed x := hr
      simp [array, must, Rule.run, Rule.runAll, ho, hm, answer, under, Except.map]

theorem run_objectEntry {key value : Except Failure Node} {inner : Nat}
    (ho : tokens.tagAt? start = some (.opening .objectEntry))
    (hk : tokens.tagAt? (start + 1) = some (.opening .objectKey))
    (hkey : template.run tokens call (start + 2) = answer .node ⟨start + 2, inner⟩ key)
    (hk' : tokens.tagAt? inner = some (.closing .objectKey))
    (hv : tokens.tagAt? (inner + 1) = some (.opening .value))
    (hvalue : call .document (inner + 2) = answer .node ⟨inner + 2, stop⟩ value)
    (hv' : tokens.tagAt? stop = some (.closing .value))
    (hc : tokens.tagAt? (stop + 1) = some (.closing .objectEntry)) :
    objectEntry.run tokens call start
      = answer .entry ⟨start, stop + 2⟩ (entryOf ⟨start, stop + 2⟩ key value) := by
  cases key <;> cases value <;>
    simp [objectEntry, must, Rule.run, Rule.runAll, ho, hk, hkey, hk', hv, hvalue, hv', hc, answer,
      entryOf, under, bind, Except.bind, pure, Except.pure, buildObjectEntry, node?,
      Outcome.ofBuild]

theorem run_object {r : Except Failure (List Entry)}
    (ho : tokens.tagAt? start = some (.opening .object))
    (hr : Repeats entryOf? stop
      (repeatedly (objectEntry.run tokens call) (tokens.size - (start + 1) + 1) (start + 1)) r)
    (hc : tokens.tagAt? stop = some (.closing .object)) :
    object.run tokens call start
      = answer .node ⟨start, stop + 1⟩
          ((under .objectEntries r).map fun entries => .object entries ⟨start, stop + 1⟩) := by
  cases r with
  | ok entries =>
      obtain ⟨pieces, hp, hm⟩ := hr
      simp [object, must, Rule.run, Rule.runAll, ho, hm, hc, answer, buildObject, items?, hp,
        shaped, made, under, Except.map, Outcome.ofBuild]
  | error x =>
      have hm : repeatedly _ _ _ = .committed x := hr
      simp [object, must, Rule.run, Rule.runAll, ho, hm, answer, under, Except.map]

end Parts

/-! Documents wherever they stand -/

section Documents

variable {tokens : Stream} {start stop : Nat}

theorem run_scalar_noMatch {b : Bracket} (h : tokens.tagAt? start = some (.opening b)) :
    scalar.run tokens (run tokens) start = .noMatch := by
  obtain ⟨token, ht, hk⟩ := Option.map_eq_some_iff.1 h
  have hkind : token.kind = .opening b := by
    cases hkind : token.kind <;> rw [hkind] at hk <;> cases hk
    rfl
  simp only [scalar, Rule.run, ht, hkind]

/-- What stands in a container or a string is read by the rule for it alone. -/
theorem run_document_opening (hc : tokens.Coherent) {b : Bracket} {rule : TemplateRule}
    (hb : (b, rule) ∈ [(.string, template), (.array, array), (.object, object)])
    (h : tokens.tagAt? start = some (.opening b)) {span : Span} {r : Except Failure Node}
    (hr : rule.run tokens (run tokens) start = answer .node span r) :
    run tokens .document start = answer .node span (under .document r) := by
  rw [run_eq_body hc]
  refine run_must ?_ .document
  have hs := run_scalar_noMatch h
  have other : ∀ {b' parts build}, b' ≠ b →
      (Rule.sequence (.tag (.opening b') :: parts) build).run tokens (run tokens) start
        = (.noMatch : Outcome Piece) :=
    fun hne => run_tagged_noMatch (by rw [h]; simp [Ne.symm hne])
  simp only [List.mem_cons, Prod.mk.injEq, List.not_mem_nil, or_false] at hb
  obtain ⟨rfl, rfl⟩ | ⟨rfl, rfl⟩ | ⟨rfl, rfl⟩ := hb
  · have ha : array.run tokens (run tokens) start = .noMatch := other (by decide)
    have ho : object.run tokens (run tokens) start = .noMatch := other (by decide)
    cases r <;> simp [Rule.run, Rule.runFirst, hr, hs, ha, ho, answer]
  · have ht : template.run tokens (run tokens) start = .noMatch := other (by decide)
    have ho : object.run tokens (run tokens) start = .noMatch := other (by decide)
    cases r <;> simp [Rule.run, Rule.runFirst, hr, hs, ht, ho, answer]
  · have ht : template.run tokens (run tokens) start = .noMatch := other (by decide)
    have ha : array.run tokens (run tokens) start = .noMatch := other (by decide)
    cases r <;> simp [Rule.run, Rule.runFirst, hr, hs, ht, ha, answer]

theorem run_document_scalar (hc : tokens.Coherent) {kind : Kind} {path : Path} {n : Node}
    (h : tokens[start]? = some (Token.mark kind path))
    (hn : scalar.run tokens (run tokens) start = .matched (⟨start, start + 1⟩, .value (.node n)))
    (hk : ∀ b, kind.tag ≠ .opening b) :
    run tokens .document start = answer .node ⟨start, start + 1⟩ (.ok n) := by
  have ht : template.run tokens (run tokens) start = .noMatch :=
    run_tagged_noMatch (by simp [Stream.tagAt?, h, Token.mark, hk])
  rw [run_eq_body hc]
  refine run_must_matched ?_ .document
  simp [Rule.run, Rule.runFirst, ht, hn]

theorem under_map {β : Type} (e : Expectation) (r : Except Failure α) (f : α → β) :
    (under e r).map f = under e (r.map f) := by
  cases r <;> rfl

theorem tagAt?_of_holds {t : Token} {ts : List Token} (h : tokens.Holds start (t :: ts)) :
    tokens.tagAt? start = some t.kind.tag := by
  rw [Stream.tagAt?, h.1]
  rfl

mutual

theorem run_document (hc : tokens.Coherent) (path : Path) (start : Nat) : (v : Json) →
    tokens.Holds start (Token.ofJson path v) →
    run tokens .document start = answer .node ⟨start, start + v.tokenCount⟩ (read start v)
  | .null, h | .bool b, h | .num n, h =>
      run_document_scalar hc h.1 (by simp only [scalar, Rule.run, h.1, Token.mark]) nofun
  | .str s, h =>
      run_document_opening hc (by simp) (tagAt?_of_holds h) (run_template_read hc ⟨path, h⟩)
  | .arr items, h => by
      rw [Token.ofJson, List.cons_append] at h
      obtain ⟨hitems, hlast⟩ := (Stream.holds_append _ _ _).1 h.2
      rw [Token.length_ofItems] at hlast
      have ho := tagAt?_of_holds h
      have hcl := tagAt?_of_holds hlast
      have hr := run_items hc path 0 (start + 1) items hitems _ rfl hcl
        (tokens.size - (start + 1) + 1) (Nat.lt_succ_self _)
      have hd := run_document_opening hc (by simp) ho (run_array ho hr hcl)
      rw [read, under_map, hd, Json.tokenCount]
      simp only [Nat.add_assoc]
  | .obj fields, h => by
      rw [Token.ofJson, List.cons_append] at h
      obtain ⟨hfields, hlast⟩ := (Stream.holds_append _ _ _).1 h.2
      rw [Token.length_ofFields] at hlast
      have ho := tagAt?_of_holds h
      have hcl := tagAt?_of_holds hlast
      have hr := run_fields hc path (start + 1) fields hfields _ rfl hcl
        (tokens.size - (start + 1) + 1) (Nat.lt_succ_self _)
      have hd := run_document_opening hc (by simp) ho (run_object ho hr hcl)
      rw [read, under_map, hd, Json.tokenCount]
      simp only [Nat.add_assoc]

theorem run_items (hc : tokens.Coherent) (path : Path) (i start : Nat) : (items : List Json) →
    tokens.Holds start (Token.ofItems path i items) → (stop : Nat) →
    stop = start + Json.tokenCountItems items → tokens.tagAt? stop = some (.closing .array) →
    (budget : Nat) → tokens.size - start < budget →
    Repeats node? stop (repeatedly (arrayEntry.run tokens (run tokens)) budget start)
      (readItems start items)
  | [], _, _, rfl, hl, budget + 1, _ => by
      have hn : arrayEntry.run tokens (run tokens) start = .noMatch :=
        run_tagged_noMatch fun h => by
          rw [Json.tokenCountItems, Nat.add_zero, h] at hl
          cases hl
      exact repeats_nil hn
  | item :: rest, h, stop, hs, hl, budget + 1, hb => by
      rw [Token.ofItems, List.cons_append] at h
      obtain ⟨hitem, hrest⟩ := (Stream.holds_append _ _ _).1 h.2
      rw [Token.length_ofJson] at hrest
      have hd := run_document hc _ (start + 1) item hitem
      have he := run_arrayEntry (tagAt?_of_holds h) hd (tagAt?_of_holds hrest)
      have hsize := h.size
      rw [List.length_cons, List.length_append, Token.length_ofJson] at hsize
      rw [Json.tokenCountItems] at hs
      have hr := run_items hc path (i + 1) _ rest hrest.2 stop (by omega) hl budget (by omega)
      exact repeats_cons .node he (fun _ => rfl) (by omega) hr

theorem run_fields (hc : tokens.Coherent) (path : Path) (start : Nat) :
    (fields : List (String × Json)) → tokens.Holds start (Token.ofFields path fields) →
    (stop : Nat) → stop = start + Json.tokenCountFields fields →
    tokens.tagAt? stop = some (.closing .object) →
    (budget : Nat) → tokens.size - start < budget →
    Repeats entryOf? stop (repeatedly (objectEntry.run tokens (run tokens)) budget start)
      (readFields start fields)
  | [], _, _, rfl, hl, budget + 1, _ => by
      have hn : objectEntry.run tokens (run tokens) start = .noMatch :=
        run_tagged_noMatch fun h => by
          rw [Json.tokenCountFields, Nat.add_zero, h] at hl
          cases hl
      exact repeats_nil hn
  | (name, v) :: rest, h, stop, hs, hl, budget + 1, hb => by
      simp only [Token.ofFields, List.cons_append, List.nil_append, List.append_assoc] at h
      obtain ⟨hname, hvalue⟩ := (Stream.holds_append _ _ _).1 h.2.2
      rw [Token.length_ofString] at hvalue
      obtain ⟨hv, hrest⟩ := (Stream.holds_append _ _ _).1 hvalue.2.2
      rw [Token.length_ofJson] at hrest
      have hkey := run_template_read hc ⟨_, hname⟩
      have hd := run_document hc _ _ v hv
      have he := run_objectEntry (tagAt?_of_holds h) (tagAt?_of_holds h.2) hkey
        (tagAt?_of_holds hvalue) (tagAt?_of_holds hvalue.2) hd (tagAt?_of_holds hrest)
        (tagAt?_of_holds hrest.2)
      have hsize := h.size
      simp only [List.length_cons, List.length_append, Token.length_ofString,
        Token.length_ofJson] at hsize
      rw [Json.tokenCountFields] at hs
      have hr := run_fields hc path _ rest hrest.2.2 stop (by omega) hl budget (by omega)
      exact repeats_cons .entry he (fun _ => rfl) (by omega) hr

end

end Documents

end Rules

/-- The tree of a document is read string by string. -/
theorem Stream.tree_ofJson (document : Json) :
    (Stream.ofJson document).tree = Rules.read 0 document := by
  have hr := Rules.run_document (Stream.coherent_ofJson document) .root 0 document
    (Stream.holds_ofJson document)
  have hs : (Stream.ofJson document).size = document.tokenCount := by
    rw [Stream.ofJson, List.size_toArray, Token.length_ofJson]
  rw [Stream.tree, hr, hs, Nat.zero_add]
  cases Rules.read 0 document with
  | error x => rfl
  | ok n => simp only [Rules.answer, ne_eq, not_true_eq_false, if_false]

end JsonTemplate
