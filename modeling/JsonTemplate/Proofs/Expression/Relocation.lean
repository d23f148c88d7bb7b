import JsonTemplate.Proofs.Expression.Recursion
import JsonTemplate.Proofs.Rule.Relocation

/-!
Expressions wherever they stand. Every rule below documents looks at characters alone, and
every builder puts the spans of its pieces where it finds them; so an expression is read
alike in every string of every document, but for its spans.
-/

namespace JsonTemplate

def Fragment.relocate (f : Span → Span) : Fragment → Fragment
  | flatten => flatten
  | node n => node (n.relocate f)
  | entry e => entry (e.relocate f)

namespace Rules

abbrev Piece.relocate (f : Span → Span) : Piece → Piece := Parsed.relocate Fragment.relocate f

/-! What a builder reads off a piece that was put elsewhere -/

section Pieces

variable (f : Span → Span)

theorem node?_relocate (piece : Piece) :
    node? (Piece.relocate f piece) = (node? piece).map (Node.relocate f) := by
  rcases piece with ⟨s, _ | _ | _ | (_ | _) | (_ | _ | _)⟩ <;> rfl

theorem modifier?_relocate (piece : Piece) :
    modifier? (Piece.relocate f piece) = (modifier? piece).map id := by
  rcases piece with ⟨s, _ | _ | _ | (_ | _) | (_ | _ | _)⟩ <;> rfl

theorem text?_relocate (piece : Piece) : text? (Piece.relocate f piece) = text? piece := by
  rcases piece with ⟨s, _ | _ | _ | (_ | _) | (_ | _ | _)⟩ <;> rfl

theorem items?_relocate (piece : Piece) :
    items? (Piece.relocate f piece) = (items? piece).map (List.map (Piece.relocate f)) := by
  rcases piece with ⟨s, _ | _ | items | (_ | _) | (_ | _ | _)⟩
  case repeated =>
    exact congrArg some (Payload.relocateAll_eq_map Fragment.relocate f items)
  all_goals rfl

theorem optional?_relocate (piece : Piece) :
    optional? (Piece.relocate f piece) = (optional? piece).map (Option.map (Piece.relocate f)) := by
  rcases piece with ⟨s, _ | _ | _ | (_ | _) | (_ | _ | _)⟩ <;> rfl

theorem pathOf?_relocate (piece : Piece) :
    pathOf? (Piece.relocate f piece) = (pathOf? piece).map (Prod.map id f) := by
  simp only [pathOf?, node?_relocate]
  cases node? piece with
  | none => rfl
  | some n => cases n <;> rfl

theorem filterOf?_relocate (piece : Piece) :
    filterOf? (Piece.relocate f piece) = (filterOf? piece).map (Option.map (Node.relocate f)) := by
  simp only [filterOf?, optional?_relocate]
  obtain _ | _ | inner := optional? piece
  · rfl
  · rfl
  · simp only [Option.map_some, node?_relocate]
    cases node? inner with
    | none => rfl
    | some n => cases n <;> rfl

theorem mapM_relocate {α : Type} {read : Piece → Option α} {m : α → α}
    (h : ∀ piece, read (Piece.relocate f piece) = (read piece).map m) (items : List Piece) :
    (items.map (Piece.relocate f)).mapM read = (items.mapM read).map (List.map m) := by
  induction items with
  | nil => rfl
  | cons item rest ih =>
      simp only [List.map_cons, List.mapM_cons, h, ih]
      cases read item <;> cases rest.mapM read <;> rfl

theorem shaped_relocate (span : Span) (n : Option Node) :
    shaped (f span) (n.map (Node.relocate f)) = Build.relocate Fragment.relocate f (shaped span n) := by
  cases n <;> rfl

end Pieces

/-! Builders put spans where they find them -/

section Builders

open Rule (Uniform UniformPiece Textual)

theorem buildText_uniform {node : List Char → Span → Build Fragment}
    (h : ∀ f text span, node text (f span) = Build.relocate Fragment.relocate f (node text span)) :
    UniformPiece Fragment.relocate (buildText node) := by
  intro f piece
  rcases piece with ⟨s, _ | _ | _ | (_ | _) | _⟩
  case text t => exact h f t.toList s
  all_goals rfl

theorem made_uniform {node : Span → Node} (h : ∀ f span, node (f span) = (node span).relocate f) :
    UniformPiece Fragment.relocate fun piece => made (node piece.1) :=
  fun f piece => congrArg made (h f piece.1)

theorem buildVariable_relocate (f : Span → Span) (text : List Char) (span : Span) :
    buildVariable text (f span) = Build.relocate Fragment.relocate f (buildVariable text span) := by
  simp only [buildVariable]
  split
  · rfl
  · split
    · split
      · rfl
      · split <;> rfl
    · rfl

theorem buildComparison_uniform : Uniform Fragment.relocate buildComparison := by
  intro f span pieces
  match pieces with
  | [left, _, sign, _, right] =>
      simp only [List.map_cons, List.map_nil, buildComparison, ← shaped_relocate, node?_relocate,
        text?_relocate]
      cases node? left <;> cases (text? sign).bind Comparison.ofSign? <;> cases node? right <;> rfl
  | [] | [_] | [_, _] | [_, _, _] | [_, _, _, _] | _ :: _ :: _ :: _ :: _ :: _ :: _ => rfl

theorem buildGuard_uniform {node : Node → Span → Node}
    (h : ∀ f guard span, node (guard.relocate f) (f span) = (node guard span).relocate f) :
    Uniform Fragment.relocate (buildGuard node) := by
  intro f span pieces
  match pieces with
  | [_, _, guard] =>
      simp only [List.map_cons, List.map_nil, buildGuard, ← shaped_relocate, node?_relocate]
      cases node? guard with
      | none => rfl
      | some guard => simp only [Option.map_some, h]
  | [] | [_] | [_, _] | _ :: _ :: _ :: _ :: _ => rfl

theorem buildEach_uniform : Uniform Fragment.relocate buildEach := by
  intro f span pieces
  match pieces with
  | [_, _, source, _, _, _, name, _, filter] =>
      simp only [List.map_cons, List.map_nil, buildEach, pathOf?_relocate, filterOf?_relocate]
      cases pathOf? source with
      | none => rfl
      | some source =>
          cases pathOf? name with
          | none => rfl
          | some name =>
              cases filterOf? filter with
              | none => rfl
              | some filter =>
                  simp only [Option.map_some, Prod.map, id_eq]
                  cases name.1.identifier? with
                  | none => rfl
                  | some binding =>
                      simp only [made, Build.relocate, Option.map_some, Payload.relocate,
                        Fragment.relocate, Node.relocate, Node.relocateFilter_eq_map]
  | [] | [_] | [_, _] | [_, _, _] | [_, _, _, _] | [_, _, _, _, _] | [_, _, _, _, _, _]
  | [_, _, _, _, _, _, _] | [_, _, _, _, _, _, _, _]
  | _ :: _ :: _ :: _ :: _ :: _ :: _ :: _ :: _ :: _ :: _ => rfl

theorem buildTernary_uniform : Uniform Fragment.relocate buildTernary := by
  intro f span pieces
  match pieces with
  | [condition, _, _, _, yes, _, _, _, no] =>
      simp only [List.map_cons, List.map_nil, buildTernary, ← shaped_relocate, node?_relocate]
      cases node? condition <;> cases node? yes <;> cases node? no <;> rfl
  | [] | [_] | [_, _] | [_, _, _] | [_, _, _, _] | [_, _, _, _, _] | [_, _, _, _, _, _]
  | [_, _, _, _, _, _, _] | [_, _, _, _, _, _, _, _]
  | _ :: _ :: _ :: _ :: _ :: _ :: _ :: _ :: _ :: _ :: _ => rfl

theorem buildGroup_uniform : Uniform Fragment.relocate buildGroup := by
  intro f span pieces
  match pieces with
  | [_, _, inner, _, _] =>
      simp only [List.map_cons, List.map_nil, buildGroup, ← shaped_relocate, node?_relocate]
      cases node? inner <;> rfl
  | [] | [_] | [_, _] | [_, _, _] | [_, _, _, _] | _ :: _ :: _ :: _ :: _ :: _ :: _ => rfl

theorem buildNullish_uniform : Uniform Fragment.relocate buildNullish := by
  intro f span pieces
  match pieces with
  | [left, _, _, _, right] =>
      simp only [List.map_cons, List.map_nil, buildNullish, ← shaped_relocate, node?_relocate]
      cases node? left <;> cases node? right <;> rfl
  | [] | [_] | [_, _] | [_, _, _] | [_, _, _, _] | _ :: _ :: _ :: _ :: _ :: _ :: _ => rfl

theorem buildOperation_uniform : Uniform Fragment.relocate buildOperation := by
  intro f span pieces
  match pieces with
  | [left, _, sign, _, right] =>
      simp only [List.map_cons, List.map_nil, buildOperation, ← shaped_relocate, node?_relocate,
        text?_relocate]
      cases node? left <;> cases (text? sign).bind Arithmetic.ofSign? <;> cases node? right <;> rfl
  | [] | [_] | [_, _] | [_, _, _] | [_, _, _, _] | _ :: _ :: _ :: _ :: _ :: _ :: _ => rfl

theorem buildInterpolation_uniform : Uniform Fragment.relocate buildInterpolation := by
  intro f span pieces
  match pieces with
  | [_, _, spread, _, calls, _, value, _, _, _, _] =>
      simp only [List.map_cons, List.map_nil, buildInterpolation, ← shaped_relocate,
        node?_relocate, optional?_relocate, items?_relocate]
      cases optional? spread with
      | none => rfl
      | some spread =>
          cases items? calls with
          | none => rfl
          | some calls =>
              simp only [Option.map_some, Option.bind_some, mapM_relocate f (modifier?_relocate f)]
              cases calls.mapM modifier? <;> cases node? value <;> cases spread <;> simp <;> rfl
  | [] | [_] | [_, _] | [_, _, _] | [_, _, _, _] | [_, _, _, _, _] | [_, _, _, _, _, _]
  | [_, _, _, _, _, _, _] | [_, _, _, _, _, _, _, _] | [_, _, _, _, _, _, _, _, _]
  | [_, _, _, _, _, _, _, _, _, _]
  | _ :: _ :: _ :: _ :: _ :: _ :: _ :: _ :: _ :: _ :: _ :: _ :: _ => rfl

theorem buildNodes_uniform {node : List Node → Span → Node}
    (h : ∀ f nodes span, node (nodes.map (Node.relocate f)) (f span) = (node nodes span).relocate f) :
    Rule.Uniform Fragment.relocate (buildNodes node) := by
  intro f span pieces
  match pieces with
  | [_, items, _] =>
      simp only [List.map_cons, List.map_nil, buildNodes, ← shaped_relocate, items?_relocate]
      cases items? items with
      | none => rfl
      | some items =>
          simp only [Option.map_some, Option.bind_some, mapM_relocate f (node?_relocate f)]
          cases items.mapM node? with
          | none => rfl
          | some nodes => simp only [Option.map_some, h]
  | [] | [_] | [_, _] | _ :: _ :: _ :: _ :: _ => rfl

theorem buildFlatten_uniform :
    Uniform Fragment.relocate fun _ _ => .ok (some (.value Fragment.flatten)) :=
  fun _ _ _ => rfl

end Builders

/-! Rules that look at characters alone -/

section Textual

/-- Rules that look at characters alone. -/
def Literary (r : TemplateRule) : Prop := r.Textual Fragment.relocate (· ≠ .document)

theorem literary_ref {symbol : Symbol} (h : symbol ≠ .document) : Literary (.ref symbol) := h

theorem literary_must {item : TemplateRule} (h : Literary item) (e : Expectation) :
    Literary (must item e) :=
  ⟨h, e.message, fun _ _ => rfl⟩

theorem literary_oneOf {rules : List TemplateRule} (h : ∀ r ∈ rules, Literary r) :
    Literary (.oneOf rules) :=
  (Rule.allTextual_iff _ _ rules).2 h

theorem literary_text (s : String) : Literary (.text s) := trivial

theorem literary_space : Literary space := ⟨trivial, trivial, trivial, trivial, trivial⟩

theorem literary_null : Literary null := ⟨trivial, made_uniform fun _ _ => rfl⟩

theorem literary_undefined : Literary undefined := ⟨trivial, made_uniform fun _ _ => rfl⟩

theorem literary_boolean : Literary boolean :=
  ⟨⟨trivial, trivial, trivial⟩, buildText_uniform fun _ _ _ => rfl⟩

theorem literary_number : Literary number := by
  refine ⟨trivial, buildText_uniform fun f text span => ?_⟩
  cases Literal.number? text <;> rfl

theorem literary_path : Literary path := ⟨trivial, buildText_uniform buildVariable_relocate⟩

theorem literary_quoted : Literary quoted :=
  ⟨⟨trivial, trivial, trivial⟩, buildText_uniform fun _ _ _ => rfl⟩

theorem literary_comment : Literary comment := ⟨trivial, buildText_uniform fun _ _ _ => rfl⟩

theorem literary_comparison : Literary comparison := by
  refine ⟨⟨literary_ref (by decide), literary_space, literary_must ?_ _, literary_space,
    literary_must (literary_ref (by decide)) _, trivial⟩, ?_⟩
  · exact literary_oneOf fun r hr => by
      obtain ⟨op, -, rfl⟩ := List.mem_map.1 hr
      trivial
  · rintro _ ⟨⟩
    exact buildComparison_uniform

theorem literary_guarded {start : TemplateRule} {node : Node → Span → Node}
    (hs : Literary start)
    (h : ∀ f guard span, node (guard.relocate f) (f span) = (node guard span).relocate f) :
    Literary (guarded start node) := by
  refine ⟨⟨hs, literary_space, literary_must (literary_ref (by decide)) _, trivial⟩, ?_⟩
  rintro _ ⟨⟩
  exact buildGuard_uniform h

theorem literary_onlyIf : Literary onlyIf := literary_guarded trivial fun _ _ _ => rfl

theorem literary_elseIf : Literary elseIf := by
  refine literary_guarded ⟨trivial, ⟨⟨trivial, literary_space, trivial, trivial⟩, ?_⟩, trivial⟩
    fun _ _ _ => rfl
  rintro _ ⟨⟩

theorem literary_otherwise : Literary otherwise := ⟨trivial, made_uniform fun _ _ => rfl⟩

theorem literary_conditional : Literary conditional :=
  ⟨literary_onlyIf, literary_elseIf, literary_otherwise, trivial⟩

theorem literary_each : Literary each := by
  refine ⟨⟨trivial, literary_space, literary_path, literary_space, trivial, literary_space,
    literary_path, literary_space, literary_onlyIf, trivial⟩, ?_⟩
  rintro _ ⟨⟩
  exact buildEach_uniform

theorem literary_ternary : Literary ternary := by
  refine ⟨⟨literary_must (literary_ref (by decide)) _, literary_space, literary_must (literary_text _) _,
    literary_space, literary_must (literary_ref (by decide)) _, literary_space,
    literary_must (literary_text _) _, literary_space, literary_must (literary_ref (by decide)) _,
    trivial⟩, ?_⟩
  rintro _ ⟨⟩
  exact buildTernary_uniform

theorem literary_parenthesized {inner : TemplateRule} (h : Literary inner) :
    Literary (parenthesized inner) := by
  refine ⟨⟨trivial, literary_space, h, literary_space, trivial, trivial⟩, ?_⟩
  rintro _ ⟨⟩
  exact buildGroup_uniform

theorem literary_group : Literary group :=
  literary_parenthesized
    ⟨literary_ternary, literary_ref (by decide), literary_ref (by decide), trivial⟩

theorem literary_nullish : Literary nullish := by
  refine ⟨⟨literary_ref (by decide), literary_space, trivial, literary_space,
    ⟨literary_ref (by decide), literary_ref (by decide), trivial⟩, trivial⟩, ?_⟩
  rintro _ ⟨⟩
  exact buildNullish_uniform

theorem literary_operation : Literary operation := by
  refine ⟨⟨literary_ref (by decide), literary_space, literary_oneOf ?_, literary_space,
    literary_ref (by decide), trivial⟩, ?_⟩
  · intro r hr
    obtain ⟨op, -, rfl⟩ := List.mem_map.1 hr
    trivial
  · rintro _ ⟨⟩
    exact buildOperation_uniform

theorem literary_expression : Literary expression :=
  ⟨literary_ref (by decide), literary_ref (by decide), literary_ref (by decide), literary_number,
    literary_boolean, literary_null, literary_undefined, literary_path, literary_quoted, trivial⟩

theorem literary_body {symbol : Symbol} (h : symbol ≠ .document) : Literary (body symbol) := by
  cases symbol with
  | document => exact absurd rfl h
  | expression | leftOfNullish => exact literary_expression
  | comparison => exact literary_comparison
  | nullish => exact literary_nullish
  | group => exact literary_group
  | operand =>
      exact ⟨literary_ref (by decide), literary_ref (by decide), literary_number, literary_path,
        trivial⟩
  | operation => exact literary_operation
  | operandGroup => exact literary_parenthesized (literary_ref (by decide))
  | leftOfComparison | insideGroup =>
      exact ⟨literary_ref (by decide), literary_ref (by decide), literary_number,
        literary_boolean, literary_null, literary_undefined, literary_path, literary_quoted,
        trivial⟩
  | leftOfOperation =>
      exact ⟨literary_ref (by decide), literary_number, literary_path, trivial⟩

theorem literary_statement : Literary statement :=
  ⟨literary_conditional, literary_each, literary_ternary, literary_ref (by decide),
    literary_comment, literary_ref (by decide), literary_ref (by decide), literary_null,
    literary_undefined, literary_boolean, literary_number, literary_path, literary_quoted,
    trivial⟩

theorem literary_around {inner : TemplateRule} (h : Literary inner) : Literary (around inner) := by
  refine ⟨⟨literary_space, h, literary_space, trivial⟩, ?_⟩
  rintro _ ⟨⟩

theorem literary_flatten : Literary flatten := by
  refine ⟨⟨trivial, literary_space, literary_around trivial, trivial⟩, ?_⟩
  rintro _ ⟨⟩
  exact buildFlatten_uniform

theorem literary_interpolation : Literary interpolation := by
  refine ⟨⟨trivial, literary_space, literary_around trivial, literary_space, literary_flatten,
    literary_space, literary_must literary_statement _, literary_space, literary_comment,
    literary_space, trivial, trivial⟩, ?_⟩
  rintro _ ⟨⟩
  exact buildInterpolation_uniform

theorem literary_plainText : Literary plainText := ⟨trivial, buildText_uniform fun _ _ _ => rfl⟩

end Textual

/-! Runs at two places that spell the same text -/

section Runs

variable {tokens first second : Stream} {f : Span → Span} {distance lower upper : Nat}

theorem parse_inside (hc : tokens.Coherent) (n : Nat) {symbol : Symbol}
    (h : symbol ≠ .document) : Rule.Inside tokens (grammar.parse tokens n symbol) := by
  induction n generalizing symbol with
  | zero => intro start parsed hp; cases hp
  | succ n ih =>
      intro start parsed hp
      exact Rule.run_inside hc (fun _ => ih) (body symbol) (literary_body h) start parsed
        (parse_matched hp)

theorem parse_shift (hf : first.Coherent) (hs : second.Coherent)
    (hm : Rule.Moves f distance lower upper) (n : Nat) {symbol : Symbol} (h : symbol ≠ .document) :
    Rule.Shifted first second Fragment.relocate f distance lower upper
      (grammar.parse first n symbol) (grammar.parse second n symbol) := by
  induction n generalizing symbol with
  | zero => intro start _ _ _; rfl
  | succ n ih =>
      have hb := Rule.run_shift hf hs hm (fun _ => parse_inside hs n) (fun _ => ih) (body symbol)
        (literary_body h)
      cases n with
      | succ n =>
          rw [parse_eq_body, parse_eq_body]
          exact hb
      | zero =>
          cases symbol with
          | document | expression | comparison | nullish | group | operand | operation
            | operandGroup => exact hb
          | leftOfComparison | leftOfNullish | leftOfOperation | insideGroup =>
              intro start _ _ _
              rfl

theorem run_symbol_inside (hc : tokens.Coherent) {symbol : Symbol} (h : symbol ≠ .document) :
    Rule.Inside tokens (run tokens symbol) :=
  parse_inside hc _ h

theorem run_inside (hc : tokens.Coherent) {r : TemplateRule} (h : Literary r) :
    Rule.Inside tokens (r.run tokens (run tokens)) :=
  Rule.run_inside hc (fun _ => run_symbol_inside hc) r h

theorem run_symbol_shift (hf : first.Coherent) (hs : second.Coherent)
    (hm : Rule.Moves f distance lower upper) {symbol : Symbol} (h : symbol ≠ .document) :
    Rule.Shifted first second Fragment.relocate f distance lower upper (run first symbol)
      (run second symbol) := by
  have := parse_shift hf hs hm (max (callLimit first) (callLimit second)) h
  rwa [parse_eq_run hf (Nat.le_max_left _ _), parse_eq_run hs (Nat.le_max_right _ _)] at this

/-- An expression is read alike wherever the same text stands. -/
theorem run_shift (hf : first.Coherent) (hs : second.Coherent)
    (hm : Rule.Moves f distance lower upper) {r : TemplateRule} (h : Literary r) :
    Rule.Shifted first second Fragment.relocate f distance lower upper (r.run first (run first))
      (r.run second (run second)) :=
  Rule.run_shift hf hs hm (fun _ => run_symbol_inside hs) (fun _ => run_symbol_shift hf hs hm) r h

end Runs

end Rules
end JsonTemplate
