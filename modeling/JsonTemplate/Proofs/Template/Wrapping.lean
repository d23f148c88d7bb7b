import JsonTemplate.Proofs.Document.Prefix
import JsonTemplate.Proofs.Template.Nesting
import JsonTemplate.Proofs.Template.Rejections

/-!
Errors inside containers. What is wrong with a document is wrong with it inside of a list or
an object, in the same words and at the same place in it; only the path to that place begins
where the container does.
-/

namespace JsonTemplate

/-- A failure that says the same as another one, so many tokens further on. -/
structure Failure.Echoes (place : Nat) (x y : Failure) : Prop where
  start : y.head.span.start = x.head.span.start + place
  describe : y.describe = x.describe

namespace Failure

theorem echoes_relocate (place : Nat) (x : Failure) :
    Echoes place x (x.relocate (Span.shift place)) :=
  ⟨rfl, describe_relocate _ x⟩

/-- Words in between are not part of what a failure is described by. -/
theorem echoes_under {place : Nat} {x : Failure} {message : String} (h : x.head.message = message)
    (between : String) :
    Echoes place x (((x.relocate (Span.shift place)).under between).under message) := by
  refine ⟨rfl, ?_⟩
  rw [describe, describe, innermost_under, innermost_under, innermost_relocate, h]
  rfl

end Failure

theorem TemplateError.locate_of_token {x : Failure} {tokens : Stream} {t : Token}
    (h : tokens[x.head.span.start]? = some t) (document : Json) :
    locate x tokens document
      = .failed t.path (shortened ((document.at? t.path).getD .null).compact) x := by
  have hlt : x.head.span.start < tokens.size := (Array.getElem?_eq_some_iff.1 h).1
  rw [locate, Nat.min_eq_left (by omega), h]
  rfl

theorem Evaluation.evaluateItems_append (undefinedAsNull : Bool) (owner : Node)
    (before after : List Node) (s : Scope) :
    evaluateItems undefinedAsNull owner (before ++ after) s = (do
      let values ← evaluateItems undefinedAsNull owner before s
      let more ← evaluateItems undefinedAsNull owner after s
      return values ++ more) := by
  induction before with
  | nil =>
      simp only [List.nil_append, evaluateItems]
      exact (bind_pure _).symm
  | cons n rest ih =>
      simp only [List.cons_append, evaluateItems, ih, bind_assoc, pure_bind, List.append_assoc]

theorem Json.tokenCountItems_cons (start : Nat) (item : Json) (rest : List Json) :
    start + 1 + item.tokenCount + 1 + tokenCountItems rest
      = start + tokenCountItems (item :: rest) := by
  rw [tokenCountItems]
  omega

namespace Rules

theorem message_of_under {α : Type} {e : Expectation} {r : Except Failure α} {x : Failure}
    (h : under e r = .error x) : x.head.message = e.message := by
  cases r with
  | ok a => cases h
  | error y =>
      cases h
      rfl

/-- The rules for documents have the first word about what is wrong with one. -/
theorem message_of_read_error {start : Nat} {document : Json} {x : Failure}
    (h : read start document = .error x) : x.head.message = Expectation.document.message := by
  cases document with
  | null | bool _ | num _ => cases h
  | str s => exact message_of_under h
  | arr items =>
      rw [read, under_map] at h
      exact message_of_under h
  | obj fields =>
      rw [read, under_map] at h
      exact message_of_under h

/-! Documents in a list -/

theorem readItems_append (start : Nat) (before after : List Json) :
    readItems start (before ++ after) = (do
      let nodes ← readItems start before
      let more ← readItems (start + Json.tokenCountItems before) after
      return nodes ++ more) := by
  induction before generalizing start with
  | nil => exact (bind_pure _).symm
  | cons item rest ih =>
      simp only [List.cons_append, readItems, ih, Json.tokenCountItems_cons, bind_assoc, pure_bind]

theorem exists_readItems {items : List Json} (h : ∀ e ∈ items, ∃ n, read 0 e = .ok n)
    (start : Nat) : ∃ nodes, readItems start items = .ok nodes := by
  induction items generalizing start with
  | nil => exact ⟨[], rfl⟩
  | cons item rest ih =>
      obtain ⟨⟨m, hm⟩, hrest⟩ := List.forall_mem_cons.1 h
      obtain ⟨nodes, hnodes⟩ := ih hrest (start + 1 + item.tokenCount + 1)
      have hn := read_place (start + 1) item
      rw [hm, Failure.transport] at hn
      exact ⟨_ :: nodes, readItems_cons_eq_ok.2 ⟨_, nodes, hn, hnodes, rfl⟩⟩

/-- The place of an item, behind the items before it. -/
theorem holds_item {tokens : Stream} {path : Path} {i start : Nat} {before after : List Json}
    {document : Json}
    (h : tokens.Holds start (Token.ofItems path i (before ++ document :: after))) :
    tokens.Holds (start + Json.tokenCountItems before + 1)
      (Token.ofJson (path.child (.index (i + before.length)) none) document) := by
  induction before generalizing i start with
  | nil =>
      rw [List.nil_append, Token.ofItems, List.cons_append] at h
      exact ((Stream.holds_append _ _ _).1 h.2).1
  | cons item rest ih =>
      rw [List.cons_append, Token.ofItems, List.cons_append] at h
      obtain ⟨-, hrest⟩ := (Stream.holds_append _ _ _).1 h.2
      rw [Token.length_ofJson] at hrest
      have hindex : i + 1 + rest.length = i + (item :: rest).length := by
        rw [List.length_cons]
        omega
      have := ih hrest.2
      rwa [Json.tokenCountItems_cons, hindex] at this

end Rules

namespace Template

open Evaluation Rules

section Fails

variable {parameters : Fields Json} {o : Options} {document : Json} {x : Failure}

/-- What goes wrong with a document, when it is read or else when it is rendered. -/
def FailsWith (parameters : Fields Json) (o : Options) (document : Json) (x : Failure) : Prop :=
  Rules.read 0 document = .error x ∨ ∃ n, Rules.read 0 document = .ok n ∧
    evaluate (o.effective parameters) n .value (.ofParameters parameters) = .error x

theorem expand_eq_error_iff {e : TemplateError} :
    expand document (.obj parameters) o = .error e ↔
      ∃ x, FailsWith parameters o document x ∧ e = .locate x (Stream.ofJson document) document := by
  simp only [expand, bind_eq_error, compile_eq_error_iff, compile_eq_ok_iff, render_eq_error_iff,
    FailsWith]
  constructor
  · rintro (⟨x, hx, rfl⟩ | ⟨_, ⟨n, hn, rfl⟩, x, hx, rfl⟩)
    · exact ⟨x, .inl hx, rfl⟩
    · exact ⟨x, .inr ⟨n, hn, hx⟩, rfl⟩
  · rintro ⟨x, hx | ⟨n, hn, hx⟩, rfl⟩
    · exact .inl ⟨x, hx, rfl⟩
    · exact .inr ⟨_, ⟨n, hn, rfl⟩, x, hx, rfl⟩

/-- A document fails at one of its tokens. -/
theorem FailsWith.start_lt (h : FailsWith parameters o document x) :
    x.head.span.start < document.tokenCount := by
  obtain hr | ⟨n, hn, he⟩ := h
  · rw [← Stream.size_ofJson]
    exact start_of_read_error hr
  · obtain ⟨-, -, m, hm, hspan⟩ := raises_evaluate _ n (List.Subset.refl _) .value _ x he
    obtain ⟨⟨-, hlt, hle⟩, -⟩ := Node.inside_of_mem_nodes n (inside_of_read hn) hm
    rw [hspan]
    exact Nat.lt_of_lt_of_le hlt hle

/-- At any place a document fails as it does alone. -/
theorem FailsWith.at_place (h : FailsWith parameters o document x) (place : Nat) :
    Rules.read place document = .error (x.relocate (Span.shift place)) ∧
        x.head.message = Expectation.document.message ∨
      ∃ n, Rules.read place document = .ok n ∧
        evaluate (o.effective parameters) n .value (.ofParameters parameters)
          = .error (x.relocate (Span.shift place)) := by
  rw [read_place]
  obtain hr | ⟨n, hn, he⟩ := h
  · refine .inl ⟨?_, message_of_read_error hr⟩
    rw [hr, Failure.transport]
  · refine .inr ⟨n.relocate (Span.shift place), ?_, ?_⟩
    · rw [hn, Failure.transport]
    · rw [evaluate_relocate (Span.shift place) _ n .value (.refl _), he, Failure.transport]

end Fails

/-! Wrappings -/

section Wrappings

variable {parameters : Fields Json} {o : Options} {document : Json} {x : Failure}

/-- A document in another one, as the value of the only field of an object or as an item of a
list. The segment leads from the one to the other. Items before it have results of their own
that are not spread, and those behind it compile. -/
inductive Wraps (parameters : Fields Json) (o : Options) (document : Json) : Segment → Json → Prop
  | field (name : String) : IsPlain name →
      Wraps parameters o document (.key name) (.obj [(name, document)])
  | item (before after : List Json) :
      (∀ e ∈ before, ∃ r, rootResult e parameters o = .ok r ∧ r.signals.spread = false) →
      (∀ e ∈ after, ∃ t, compile e = .ok t) →
      Wraps parameters o document (.index before.length) (.arr (before ++ document :: after))

theorem Wraps.descend? {s : Segment} {around : Json} (h : Wraps parameters o document s around)
    (segments : List Segment) :
    Json.descend? (s :: segments) around = Json.descend? segments document := by
  cases h with
  | field name _ =>
      rw [Json.descend?, Fields.get?, if_pos rfl]
      rfl
  | item before after _ _ =>
      rw [Json.descend?, List.getElem?_append_right (Nat.le_refl _), Nat.sub_self]
      rfl

/-- The place of the value in an object with a single field. -/
def fieldPlace (name : String) : Nat := 0 + 1 + 2 + (name.toList.length + 2) + 2

theorem holds_field (name : String) (document : Json) :
    (Stream.ofJson (.obj [(name, document)])).Holds (fieldPlace name)
      (Token.ofJson (Path.root.child (.key name) (some .value)) document) := by
  have h := Stream.holds_ofJson (.obj [(name, document)])
  rw [Token.ofJson, List.cons_append] at h
  obtain ⟨hfields, -⟩ := (Stream.holds_append _ _ _).1 h.2
  simp only [Token.ofFields, List.cons_append, List.nil_append, List.append_assoc] at hfields
  obtain ⟨-, hv⟩ := (Stream.holds_append _ _ _).1 hfields.2.2
  rw [Token.length_ofString] at hv
  exact ((Stream.holds_append _ _ _).1 hv.2.2).1

theorem failsWith_field {name : String} (hk : StandsFor name name)
    (h : FailsWith parameters o document x) :
    ∃ y, FailsWith parameters o (.obj [(name, document)]) y ∧ x.Echoes (fieldPlace name) y := by
  obtain ⟨key, hkey, hname⟩ := hk.readTextAt (0 + 1 + 2)
  obtain ⟨hr, hmessage⟩ | ⟨n, hn, he⟩ := h.at_place (fieldPlace name)
  · refine ⟨_, .inl ?_, Failure.echoes_under hmessage Expectation.objectEntries.message⟩
    rw [fieldPlace] at hr
    simp only [Rules.read, readFields, hkey, hr]
    rfl
  · refine ⟨_, .inr ⟨_, read_obj_eq_ok.2 ⟨_, (readFields_cons_eq_ok rfl rfl).2
      ⟨key, n, [], hkey, hn, rfl, rfl⟩, rfl⟩, ?_⟩, Failure.echoes_relocate _ x⟩
    rw [evaluate, evaluateEntries_named (hname _ _ _), he]
    rfl

/-- Items with results that are not spread, one after another. -/
theorem exists_rootResults {items : List Json}
    (h : ∀ e ∈ items, ∃ r, rootResult e parameters o = .ok r ∧ r.signals.spread = false) :
    ∃ results, items.mapM (rootResult · parameters o) = .ok results ∧ ∀ r ∈ results, r.Splices := by
  induction items with
  | nil => exact ⟨[], rfl, nofun⟩
  | cons item rest ih =>
      obtain ⟨⟨r, hr, hspread⟩, hrest⟩ := List.forall_mem_cons.1 h
      obtain ⟨results, hresults, hall⟩ := ih hrest
      refine ⟨r :: results, mapM_cons_eq_ok.2 ⟨r, results, hr, hresults, rfl⟩, ?_⟩
      refine List.forall_mem_cons.2 ⟨fun hs => ?_, hall⟩
      rw [hspread] at hs
      cases hs

/-- The place of an item in a list. -/
def itemPlace (before : List Json) : Nat := 0 + 1 + Json.tokenCountItems before + 1

theorem failsWith_item {before after : List Json}
    (hb : ∀ e ∈ before, ∃ r, rootResult e parameters o = .ok r ∧ r.signals.spread = false)
    (ha : ∀ e ∈ after, ∃ t, compile e = .ok t) (h : FailsWith parameters o document x) :
    ∃ y, FailsWith parameters o (.arr (before ++ document :: after)) y ∧
      x.Echoes (itemPlace before) y := by
  obtain ⟨results, hresults, hall⟩ := exists_rootResults hb
  obtain ⟨first, hfirst, hvalues⟩ := items_of_rootResults hresults hall (0 + 1)
  obtain ⟨hr, hmessage⟩ | ⟨n, hn, he⟩ := h.at_place (itemPlace before)
  · refine ⟨_, .inl ?_, Failure.echoes_under hmessage Expectation.arrayEntries.message⟩
    rw [itemPlace] at hr
    rw [Rules.read, readItems_append, hfirst]
    simp only [readItems, hr]
    rfl
  · obtain ⟨more, hmore⟩ := exists_readItems
      (fun e hm => (compile_isOk_iff e).1 (ha e hm)) (itemPlace before + document.tokenCount + 1)
    rw [itemPlace] at hn hmore
    have hitems : readItems (0 + 1) (before ++ document :: after) = .ok (first ++ n :: more) := by
      rw [readItems_append, hfirst]
      simp only [readItems, hn, hmore]
      rfl
    refine ⟨_, .inr ⟨_, read_arr_eq_ok.2 ⟨_, hitems, rfl⟩, ?_⟩, Failure.echoes_relocate _ x⟩
    rw [evaluate, evaluateItems_append, hvalues]
    simp only [evaluateItems, he]
    rfl

/-- A document fails inside of a container as it does alone, at the place where it stands. -/
theorem FailsWith.inside {s : Segment} {around : Json} (h : FailsWith parameters o document x)
    (hw : Wraps parameters o document s around) :
    ∃ place outer y, FailsWith parameters o around y ∧ x.Echoes place y ∧
      (Stream.ofJson around).Holds place (Token.ofJson outer document) ∧
      Path.Prefixed s .root outer := by
  cases hw with
  | field name hplain =>
      obtain ⟨y, hy, hxy⟩ := failsWith_field (standsFor_self hplain) h
      exact ⟨_, _, y, hy, hxy, holds_field name document, rfl, .inr ⟨rfl, rfl⟩, nofun⟩
  | item before after hb ha =>
      obtain ⟨y, hy, hxy⟩ := failsWith_item hb ha h
      have hp := Stream.holds_ofJson (.arr (before ++ document :: after))
      rw [Token.ofJson, List.cons_append] at hp
      have hitem := holds_item ((Stream.holds_append _ _ _).1 hp.2).1
      rw [Nat.zero_add before.length] at hitem
      exact ⟨_, _, y, hy, hxy, hitem, rfl, .inl rfl, nofun⟩

end Wrappings

/-- A document that cannot be expanded cannot be expanded inside of a container either, and the
error is the same, but for its path, which begins with the segment that leads to the
document. -/
theorem expand_wrapped {parameters : Fields Json} {o : Options} {document around : Json}
    {s : Segment} (hw : Wraps parameters o document s around) {path : Path} {snippet : String}
    {x : Failure}
    (h : expand document (.obj parameters) o = .error (.failed path snippet x)) :
    ∃ path' y, expand around (.obj parameters) o = .error (.failed path' snippet y) ∧
      path'.segments = s :: path.segments ∧ y.describe = x.describe := by
  obtain ⟨z, hz, he⟩ := expand_eq_error_iff.1 h
  obtain ⟨place, outer, y, hy, hzy, hholds, hp⟩ := hz.inside hw
  -- The failure starts at a token of the document, so its place is the same in both streams.
  obtain ⟨t, u, ht, hu, htu⟩ := Stream.prefixed_of_holds hp hholds hz.start_lt
  rw [TemplateError.locate_of_token ht] at he
  cases he
  rw [Nat.add_comm, ← hzy.start] at hu
  refine ⟨u.path, y, expand_eq_error_iff.2 ⟨y, hy, ?_⟩, htu.segments, hzy.describe⟩
  rw [TemplateError.locate_of_token hu, Json.at?_prefixed htu hw.descend?]

/-- A key that is read on nothing, in a list between two scalars. -/
theorem expand_wrapped_scalars :
    ∃ path snippet x path' y,
      expand (.str "\x7b\x7b a.b \x7d\x7d") (.obj []) .none = .error (.failed path snippet x) ∧
      expand (.arr [.null, .str "\x7b\x7b a.b \x7d\x7d", .bool true]) (.obj []) .none
        = .error (.failed path' snippet y) ∧
      path'.segments = .index 1 :: path.segments ∧ y.describe = x.describe := by
  have hmissing : (expand (.str "\x7b\x7b a.b \x7d\x7d") (.obj []) .none).isOk = false := by
    decide +kernel
  have hw : Wraps [] .none (.str "\x7b\x7b a.b \x7d\x7d") (.index 1)
      (.arr [.null, .str "\x7b\x7b a.b \x7d\x7d", .bool true]) :=
    .item [.null] [.bool true] (List.forall_mem_singleton.2 ⟨_, rfl, rfl⟩)
      (List.forall_mem_singleton.2 ⟨_, rfl⟩)
  cases h : expand (.str "\x7b\x7b a.b \x7d\x7d") (.obj []) .none with
  | ok v =>
      rw [h] at hmissing
      cases hmissing
  | error e =>
      obtain ⟨z, -, rfl⟩ := expand_eq_error_iff.1 h
      obtain ⟨path', y, hy⟩ := expand_wrapped hw h
      exact ⟨_, _, z, path', y, rfl, hy⟩

end Template
end JsonTemplate
