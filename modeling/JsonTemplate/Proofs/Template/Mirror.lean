import JsonTemplate.Proofs.Document.Spelling
import JsonTemplate.Proofs.Template.Containers
import JsonTemplate.Proofs.Template.Nesting

/-!
Trees mirror their documents. Every value has a node of its own over exactly its tokens, a
string has a template, and the parts of a template divide the characters of its string
among them.
-/

namespace JsonTemplate

namespace Node

/-- A text spells its characters, an interpolation opens and closes its brackets. -/
def Spelled (tokens : Stream) : Node → Prop
  | text s span => tokens.SpellsOut span s.toList
  | interpolation _ _ _ span =>
      ∃ inner, tokens.SpellsOut span ("\x7b\x7b".toList ++ inner ++ "\x7d\x7d".toList)
  | _ => False

/-- Parts that take all tokens from one place to another, each beginning where the one
before it ends. -/
def Tiled (tokens : Stream) : Nat → List Node → Nat → Prop
  | start, [], stop => start = stop
  | start, n :: rest, stop =>
      n.span.start = start ∧ start < n.span.stop ∧ n.Spelled tokens ∧
        Tiled tokens n.span.stop rest stop

/-- The template of a string whose tokens stand at `start`. -/
def MirrorsText (tokens : Stream) (path : Path) (start : Nat) (s : String) : Node → Prop
  | template parts span =>
      tokens.Covers start (Token.ofString path s) span ∧
        Tiled tokens (start + 1) parts (span.stop - 1)
  | _ => False

mutual

/-- The tree of a document whose tokens stand at `start`. -/
def Mirrors (tokens : Stream) (path : Path) (start : Nat) : Json → Node → Prop
  | .null, null span => tokens.Covers start (Token.ofJson path .null) span
  | .bool b, bool b' span => b' = b ∧ tokens.Covers start (Token.ofJson path (.bool b)) span
  | .num n, number n' span => n' = n ∧ tokens.Covers start (Token.ofJson path (.num n)) span
  | .str s, n => n.MirrorsText tokens path start s
  | .arr items, array nodes span =>
      tokens.Covers start (Token.ofJson path (.arr items)) span ∧
        MirrorsItems tokens path 0 (start + 1) items nodes
  | .obj fields, object entries span =>
      tokens.Covers start (Token.ofJson path (.obj fields)) span ∧
        MirrorsFields tokens path (start + 1) fields entries
  | _, _ => False

/-- One node for each item, with a mark before it and one behind it. -/
def MirrorsItems (tokens : Stream) (path : Path) (i start : Nat) :
    List Json → List Node → Prop
  | [], [] => True
  | item :: items, n :: nodes =>
      Mirrors tokens (path.child (.index i) none) (start + 1) item n ∧
        MirrorsItems tokens path (i + 1) (n.span.stop + 1) items nodes
  | _, _ => False

/-- One entry for each field, with two marks around its key and around its value. -/
def MirrorsFields (tokens : Stream) (path : Path) (start : Nat) :
    List (String × Json) → List Entry → Prop
  | [], [] => True
  | (name, v) :: fields, .mk key value span :: entries =>
      span = ⟨start, value.span.stop + 2⟩ ∧
        key.MirrorsText tokens (path.child (.key name) (some .key)) (start + 2) name ∧
        Mirrors tokens (path.child (.key name) (some .value)) (key.span.stop + 2) v value ∧
        MirrorsFields tokens path span.stop fields entries
  | _, _ => False

end

theorem MirrorsText.span_eq {tokens : Stream} {path : Path} {start : Nat} {s : String} {n : Node}
    (h : n.MirrorsText tokens path start s) : n.span = ⟨start, start + (s.toList.length + 2)⟩ := by
  cases n with
  | template parts span =>
      obtain ⟨⟨hspan, -⟩, -⟩ := h
      rwa [Token.length_ofString] at hspan
  | _ => exact h.elim

end Node

namespace Rules

open Rule Node

variable {tokens : Stream} {start : Nat} {s : String}

/-! Parts of a string -/

/-- Of what a string spells, the part between an opening and a closing text. -/
theorem take_enclosed (hc : tokens.Coherent) {place : Nat} {opening closing rest after : List Char}
    (ho : tokens.charsAt start = opening ++ rest)
    (hl : start + opening.length ≤ place)
    (hu : place ≤ start + opening.length + (tokens.charsAt (start + opening.length)).length)
    (hcl : tokens.charsAt place = closing ++ after) :
    ∃ inner, (tokens.charsAt start).take (place + closing.length - start)
      = opening ++ inner ++ closing := by
  have hrest := hc.charsAt_add opening rest start ho
  rw [charsAt_onward hc hl hu, hrest] at hcl
  rw [hrest] at hu
  let inner := rest.take (place - (start + opening.length))
  have hinner : inner.length = place - (start + opening.length) := List.length_take_of_le (by omega)
  have hwhole : tokens.charsAt start = (opening ++ inner ++ closing) ++ after := by
    rw [ho, List.append_assoc, List.append_assoc, ← hcl, List.take_append_drop]
  refine ⟨inner, ?_⟩
  rw [hwhole]
  refine List.take_left' ?_
  simp only [List.length_append, hinner]
  omega

/-- What stands between the brackets of an interpolation. -/
def interior : List TemplateRule :=
  [space, .maybe (around (.text "...")), space, .many flatten, space, must statement .interpolated,
    space, .maybe comment, space]

theorem interpolation_eq :
    interpolation = .sequence ([.text "\x7b\x7b"] ++ interior ++ [.text "\x7d\x7d"])
      (some buildInterpolation) := rfl

theorem runAll_single_matched {call : Symbol → Nat → Outcome Piece} {part : TemplateRule}
    {stop : Nat} {pieces : List Piece}
    (h : runAll tokens call [part] start = .matched (stop, pieces)) :
    ∃ piece, part.run tokens call start = .matched piece ∧ piece.1.stop = stop := by
  obtain ⟨piece, more, hp, hr, -⟩ := runAll_cons_matched h
  exact ⟨piece, hp, (runAll_nil_matched hr).1⟩

theorem buildInterpolation_eq_ok {span : Span} {pieces : List Piece} {payload : Payload Fragment}
    (h : buildInterpolation span pieces = .ok (some payload)) :
    ∃ spread modifiers value, payload = .value (.node (.interpolation spread modifiers value span)) := by
  simp only [buildInterpolation] at h
  split at h
  · obtain ⟨n, hn, rfl⟩ := shaped_eq_ok h
    obtain ⟨item, -, hn⟩ := Option.bind_eq_some_iff.1 hn
    obtain ⟨modifiers, -, hn⟩ := Option.bind_eq_some_iff.1 hn
    obtain ⟨value, -, hn⟩ := Option.bind_eq_some_iff.1 hn
    cases hn
    exact ⟨_, _, _, rfl⟩
  · cases h

theorem run_interpolation_spelled (hc : tokens.Coherent) (hs : tokens.Spells start s)
    {place : Nat} (hl : start + 1 ≤ place) {parsed : Piece}
    (hu : parsed.1.stop ≤ start + 1 + s.toList.length)
    (h : interpolation.run tokens (run tokens) place = .matched parsed) :
    HasNode (fun n => n.span = parsed.1 ∧ n.Spelled tokens) parsed.2 := by
  have hinterior : ∀ r ∈ interior, Rule.Inside tokens (r.run tokens (run tokens)) := by
    intro r hr
    have hparts := (allTextual_iff _ _ _).1 literary_interpolation.1
    exact run_inside hc (hparts r (List.mem_append_left [_] (List.mem_append_right [_] hr)))
  obtain ⟨-, hle, -⟩ := run_inside hc literary_interpolation place parsed h
  rw [interpolation_eq] at h
  obtain ⟨stop, pieces, hall, hb, hspan⟩ := run_sequence_matched h
  obtain ⟨last, _, _, hfront, hclosing, -⟩ := runAll_append_matched hall
  obtain ⟨first, _, _, hopening, hinner, -⟩ := runAll_append_matched hfront
  obtain ⟨opening, ho, rfl⟩ := runAll_single_matched hopening
  obtain ⟨closing, hcl, rfl⟩ := runAll_single_matched hclosing
  obtain ⟨rfl, _, hochars⟩ := run_text_matched ho
  obtain ⟨rfl, _, hclchars⟩ := run_text_matched hcl
  have hbetween := runAll_inside hc hinterior hinner
  obtain ⟨inner, htake⟩ := take_enclosed hc hochars hbetween.1 hbetween.2 hclchars
  rw [hspan] at hle hu ⊢
  have hspelled := hs.spellsOut hc hl hle hu
  rw [htake] at hspelled
  obtain ⟨spread, modifiers, value, hp⟩ := buildInterpolation_eq_ok hb
  exact ⟨_, hp, rfl, inner, hspelled⟩

theorem run_plainText_spelled (hc : tokens.Coherent) (hs : tokens.Spells start s)
    {place : Nat} (hl : start + 1 ≤ place) {parsed : Piece}
    (hu : parsed.1.stop ≤ start + 1 + s.toList.length)
    (h : plainText.run tokens (run tokens) place = .matched parsed) :
    HasNode (fun n => n.span = parsed.1 ∧ n.Spelled tokens) parsed.2 := by
  obtain ⟨inner, hi, hb, hspan⟩ := run_map_matched h
  obtain ⟨count, -, rfl⟩ := run_chars_matched hi
  obtain ⟨_, hcontent, hb⟩ := buildText_eq_ok hb
  cases hcontent
  rw [hspan] at hu ⊢
  have hspelled := hs.spellsOut hc hl (Nat.le_add_right _ _) hu
  rw [Nat.add_sub_cancel_left, List.length_take, ← List.take_eq_take_min] at hspelled
  refine ⟨_, made_eq_ok hb, rfl, ?_⟩
  rw [Spelled, String.toList_ofList, String.toList_ofList, List.length_take]
  exact hspelled

/-- Along the parts of a string, the rest of which is tiled from where a part ends. -/
theorem tiled_of_consecutive (hc : tokens.Coherent) (hs : tokens.Spells start s) {place stop : Nat}
    (hl : start + 1 ≤ place) (hu : stop ≤ start + 1 + s.toList.length) {items : List Piece}
    (h : Consecutive (Rule.run tokens (run tokens) (.oneOf [interpolation, plainText])) place items
      stop) {nodes : List Node} (hn : items.mapM node? = some nodes) :
    Tiled tokens place nodes stop := by
  induction items generalizing place nodes with
  | nil =>
      cases hn
      exact h.1
  | cons parsed items ih =>
      obtain ⟨hp, hne, hrest⟩ := h
      have hinside := consecutive_inside hc (run_inside hc
        (literary_oneOf (List.forall_mem_cons.2 ⟨literary_interpolation,
          List.forall_mem_singleton.2 literary_plainText⟩))) hrest
      have hlt := (Span.isEmpty_eq_false_iff _).1 hne
      rw [List.mapM_cons] at hn
      obtain ⟨n, hfirst, hn⟩ := Option.bind_eq_some_iff.1 hn
      obtain ⟨more, hmore, hn⟩ := Option.bind_eq_some_iff.1 hn
      cases hn
      obtain ⟨r, hr, hp⟩ := run_oneOf_matched hp
      have hpart : HasNode (fun n => n.span = parsed.1 ∧ n.Spelled tokens) parsed.2 ∧
          parsed.1.start = place := by
        simp only [List.mem_cons, List.not_mem_nil, or_false] at hr
        obtain rfl | rfl := hr
        · exact ⟨run_interpolation_spelled hc hs hl (by omega) hp,
            (run_inside hc literary_interpolation place parsed hp).1⟩
        · exact ⟨run_plainText_spelled hc hs hl (by omega) hp,
            (run_inside hc literary_plainText place parsed hp).1⟩
      obtain ⟨⟨m, hm, hspan, hspelled⟩, hstart⟩ := hpart
      rw [node?_of_payload hm] at hfirst
      cases hfirst
      rw [hstart] at hlt
      refine ⟨?_, ?_, hspelled, ?_⟩
      · rw [hspan, hstart]
      · rw [hspan]
        exact hlt
      · rw [hspan]
        exact ih (by omega) hrest hmore

/-- The template of a string, wherever the string stands. -/
theorem mirrorsText_of_readTextAt (hc : tokens.Coherent) {path : Path}
    (hp : tokens.Holds start (Token.ofString path s)) {n : Node} (h : readTextAt start s = .ok n) :
    n.MirrorsText tokens path start s := by
  have hs : tokens.Spells start s := ⟨path, hp⟩
  have hr := run_template_read hc hs
  rw [← readTextAt, h, run_template hc hs] at hr
  obtain ⟨parts, hparts, hclose⟩ := Outcome.bind_eq_matched.1 hr
  rw [closeString] at hclose
  split at hclose
  · next hstop =>
      obtain ⟨hb, -⟩ := Outcome.ofBuild_eq_matched.1 hclose
      obtain ⟨stop, items, hitems, rfl⟩ := run_many_matched (run_required_matched hparts)
      obtain ⟨m, hm, hpayload⟩ := shaped_eq_ok hb
      obtain ⟨nodes, hnodes, rfl⟩ := Option.map_eq_some_iff.1 hm
      cases hpayload
      refine ⟨⟨by rw [Token.length_ofString]; rfl, hp⟩, ?_⟩
      rw [← hstop, Nat.add_sub_cancel]
      exact tiled_of_consecutive hc hs (Nat.le_refl _) (by simp only at hstop ⊢; omega) hitems hnodes
  · cases hclose

/-! Documents -/

/-- A tree begins where its document stands and has as many tokens. -/
theorem span_of_read {v : Json} {n : Node} (h : read start v = .ok n) :
    n.span = ⟨start, start + v.tokenCount⟩ := by
  cases v with
  | null | bool _ | num _ =>
      cases h
      rfl
  | str s =>
      obtain ⟨m, hm, rfl⟩ := Failure.transport_eq_ok.1 (under_eq_ok.1 h)
      have hspan := (mirrorsText_of_readTextAt (Stream.coherent_ofJson _)
        (Stream.holds_ofJson (.str s)) (readTextAt_of_readText hm 0)).span_eq
      rw [Node.span_relocate] at hspan ⊢
      simp only [Span.shift, Span.mk.injEq] at hspan ⊢
      rw [Json.tokenCount]
      omega
  | arr items =>
      obtain ⟨nodes, -, rfl⟩ := read_arr_eq_ok.1 h
      rw [Json.tokenCount]
      simp only [Node.span, Nat.add_assoc]
  | obj fields =>
      obtain ⟨entries, -, rfl⟩ := read_obj_eq_ok.1 h
      rw [Json.tokenCount]
      simp only [Node.span, Nat.add_assoc]

mutual

theorem mirrors_of_read (hc : tokens.Coherent) (path : Path) (start : Nat) : (v : Json) →
    tokens.Holds start (Token.ofJson path v) → {n : Node} → read start v = .ok n →
    Mirrors tokens path start v n
  | .null, hp, _, h => by
      cases h
      exact ⟨rfl, hp⟩
  | .bool b, hp, _, h | .num k, hp, _, h => by
      cases h
      exact ⟨rfl, rfl, hp⟩
  | .str s, hp, n, h => by
      have := mirrorsText_of_readTextAt hc hp (under_eq_ok.1 h)
      cases n <;> exact this
  | .arr items, hp, _, h => by
      have hspan := span_of_read h
      obtain ⟨nodes, hnodes, rfl⟩ := read_arr_eq_ok.1 h
      refine ⟨⟨?_, hp⟩, ?_⟩
      · rw [Token.length_ofJson]
        exact hspan
      · rw [Token.ofJson, List.cons_append] at hp
        exact mirrors_of_readItems hc path 0 (start + 1) items
          ((Stream.holds_append _ _ _).1 hp.2).1 hnodes
  | .obj fields, hp, _, h => by
      have hspan := span_of_read h
      obtain ⟨entries, hentries, rfl⟩ := read_obj_eq_ok.1 h
      refine ⟨⟨?_, hp⟩, ?_⟩
      · rw [Token.length_ofJson]
        exact hspan
      · rw [Token.ofJson, List.cons_append] at hp
        exact mirrors_of_readFields hc path (start + 1) fields
          ((Stream.holds_append _ _ _).1 hp.2).1 hentries

theorem mirrors_of_readItems (hc : tokens.Coherent) (path : Path) (i start : Nat) :
    (items : List Json) → tokens.Holds start (Token.ofItems path i items) → {nodes : List Node} →
    readItems start items = .ok nodes → MirrorsItems tokens path i start items nodes
  | [], _, _, h => by
      cases h
      trivial
  | item :: rest, hp, _, h => by
      obtain ⟨n, more, hn, hmore, rfl⟩ := readItems_cons_eq_ok.1 h
      rw [Token.ofItems, List.cons_append] at hp
      obtain ⟨hitem, hrest⟩ := (Stream.holds_append _ _ _).1 hp.2
      rw [Token.length_ofJson] at hrest
      refine ⟨mirrors_of_read hc _ (start + 1) item hitem hn, ?_⟩
      rw [span_of_read hn]
      exact mirrors_of_readItems hc path (i + 1) _ rest hrest.2 hmore

theorem mirrors_of_readFields (hc : tokens.Coherent) (path : Path) (start : Nat) :
    (fields : List (String × Json)) → tokens.Holds start (Token.ofFields path fields) →
    {entries : List Entry} → readFields start fields = .ok entries →
    MirrorsFields tokens path start fields entries
  | [], _, _, h => by
      cases h
      trivial
  | (name, v) :: rest, hp, _, h => by
      obtain ⟨key, value, more, hkey, hvalue, hmore, rfl⟩ := (readFields_cons_eq_ok rfl rfl).1 h
      simp only [Token.ofFields, List.cons_append, List.nil_append, List.append_assoc] at hp
      obtain ⟨hname, hv⟩ := (Stream.holds_append _ _ _).1 hp.2.2
      rw [Token.length_ofString] at hv
      obtain ⟨hv, hrest⟩ := (Stream.holds_append _ _ _).1 hv.2.2
      rw [Token.length_ofJson] at hrest
      have htext := mirrorsText_of_readTextAt hc hname hkey
      refine ⟨?_, htext, ?_, ?_⟩
      · rw [span_of_read hvalue]
      · rw [htext.span_eq]
        exact mirrors_of_read hc _ _ v hv hvalue
      · exact mirrors_of_readFields hc path _ rest hrest.2.2 hmore

end

end Rules

namespace Template

/-- The tree of a document has a node for each value in it, over the tokens of that value, and
the children of every node stand in order inside of it. -/
theorem mirrors_of_compile {document : Json} {t : Template} (h : compile document = .ok t) :
    t.tree.Mirrors (Stream.ofJson document) .root 0 document ∧ t.tree.Nested := by
  obtain ⟨n, hn, rfl⟩ := compile_eq_ok_iff.1 h
  exact ⟨Rules.mirrors_of_read (Stream.coherent_ofJson document) .root 0 document
    (Stream.holds_ofJson document) hn, (Rules.inside_of_read hn).2⟩

/-- A text for a key, and a string with an interpolation in a list. -/
theorem mirrors_of_compile_quoted :
    ∃ (document : Json) (t : Template),
      document = .obj [("say", .arr [.null, .str "\x7b\x7b \"hi\" \x7d\x7d"])] ∧
      compile document = .ok t ∧ t.tree.Mirrors (Stream.ofJson document) .root 0 document ∧
      t.tree.Nested := by
  have hquoted : quotedText '"' "hi" = "\x7b\x7b \"hi\" \x7d\x7d" := by decide
  obtain ⟨key, hkey, -⟩ := Rules.standsFor_self (s := "say") (by decide)
  obtain ⟨n, hn, -⟩ := hquoted ▸ Rules.standsFor_quotedText (.inl rfl) "hi"
  have hr : ∃ tree, Rules.read 0
      (.obj [("say", .arr [.null, .str "\x7b\x7b \"hi\" \x7d\x7d"])]) = .ok tree := by
    simp only [Rules.read, Rules.readFields, Rules.readItems, Rules.readTextAt_of_readText hn,
      Rules.readTextAt_of_readText hkey]
    exact ⟨_, rfl⟩
  obtain ⟨tree, hr⟩ := hr
  exact ⟨_, _, rfl, compile_of_read hr, mirrors_of_compile (compile_of_read hr)⟩

end Template
end JsonTemplate
