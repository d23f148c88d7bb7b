import JsonTemplate.Proofs.Expression.WordRules

/-!
The constructs of the language, each read from its parts. A construct is given by what
its parts read; the lemmas for it put the blanks and the signs between them and say which
tree is built.
-/

namespace JsonTemplate
namespace Rules

/-- A text that begins with something else than a blank. -/
def Begins (text : List Char) : Prop := ∃ c more, text = c :: more ∧ isGap c = false

theorem Begins.avoids {text : List Char} (h : Begins text) (rest : List Char) :
    Avoids isGap (text ++ rest) := by
  obtain ⟨c, more, rfl, hc⟩ := h
  exact avoids_cons hc _

theorem Begins.append {text : List Char} (h : Begins text) (more : List Char) :
    Begins (text ++ more) := by
  obtain ⟨c, rest, rfl, hc⟩ := h
  exact ⟨c, rest ++ more, rfl, hc⟩

theorem begins_arithmetic (op : Arithmetic) : Begins op.sign.toList := by
  cases op <;> exact ⟨_, _, rfl, rfl⟩

theorem begins_comparison (op : Comparison) : Begins op.sign.toList := by
  cases op <;> exact ⟨_, _, rfl, rfl⟩

variable {s a b t rest : List Char} {l r n : Node}

/-! Signs -/

theorem reads_arithmetic_sign (op : Arithmetic) (rest : List Char) :
    Reads (.oneOf (Arithmetic.all.map fun op => .text op.sign)) op.sign.toList rest
      (· = .text op.sign) := by
  refine reads_oneOf (fun r hr => ?_) ⟨.text op.sign, ?_, reads_text op.sign rest⟩
  · obtain ⟨other, -, rfl⟩ := List.mem_map.1 hr
    by_cases he : other = op
    · subst he
      exact .inl (reads_text _ rest)
    · refine .inr (declines_chars ?_).refuses
      cases op <;> cases other <;> first | rfl | exact absurd rfl he
  · cases op <;> simp [Arithmetic.all]

/-- No sign that is tried before another one begins it. -/
theorem comparison_order (op : Comparison) :
    ∃ front back, Comparison.all = front ++ op :: back ∧
      ∀ other ∈ front, ¬ other.sign.toList <+: op.sign.toList := by
  refine ⟨Comparison.all.takeWhile (· ≠ op), (Comparison.all.dropWhile (· ≠ op)).tail, ?_, ?_⟩
  · cases op <;> rfl
  · cases op <;> decide

theorem reads_comparison_sign (op : Comparison) (h : Spaced rest) :
    Reads (.oneOf (Comparison.all.map fun op => .text op.sign)) op.sign.toList rest
      (· = .text op.sign) := by
  obtain ⟨front, back, hall, hfront⟩ := comparison_order op
  rw [hall, List.map_append, List.map_cons]
  refine reads_oneOf_after (fun r hr => ?_) (reads_text op.sign rest)
  obtain ⟨other, ho, rfl⟩ := List.mem_map.1 hr
  have hsolid : other.sign.toList.any isGap = false := by cases other <;> rfl
  exact (declines_text fun hp => hfront other ho (prefix_of_prefix_append hsolid h hp)).refuses

/-- The characters that signs begin with. -/
def isArithmetic (c : Char) : Bool :=
  c == '+' || c == '-' || c == '*' || c == '/' || c == '%' || c == '^'

def isComparing (c : Char) : Bool := c == '=' || c == '!' || c == '>' || c == '<'

theorem declines_text_of_avoids {p : Char → Bool} {s : String} {text : List Char}
    (hs : ∃ c more, s.toList = c :: more ∧ p c = true) (h : Avoids p text) :
    Declines (.text s) text := by
  obtain ⟨c, more, hc, hp⟩ := hs
  apply declines_text
  rw [hc]
  rintro ⟨rest, rfl⟩
  rw [h c rfl] at hp
  cases hp

theorem refuses_arithmetic_sign {text : List Char} (h : Avoids isArithmetic text) :
    Refuses (.oneOf (Arithmetic.all.map fun op => .text op.sign)) text := by
  apply refuses_oneOf
  intro r hr
  obtain ⟨op, -, rfl⟩ := List.mem_map.1 hr
  exact (declines_text_of_avoids (by cases op <;> exact ⟨_, _, rfl, rfl⟩) h).refuses

theorem refuses_comparison_sign {text : List Char} (h : Avoids isComparing text) :
    Refuses (.oneOf (Comparison.all.map fun op => .text op.sign)) text := by
  apply refuses_oneOf
  intro r hr
  obtain ⟨op, -, rfl⟩ := List.mem_map.1 hr
  exact (declines_text_of_avoids (by cases op <;> exact ⟨_, _, rfl, rfl⟩) h).refuses

theorem ofSign?_arithmetic (op : Arithmetic) : Arithmetic.ofSign? op.sign = some op := by
  cases op <;> decide

theorem ofSign?_comparison (op : Comparison) : Comparison.ofSign? op.sign = some op := by
  cases op <;> decide

/-! Expressions -/

variable {P : Payload Fragment → Prop}

theorem reads_parenthesized {inner : TemplateRule} (ha : ∀ c ∈ a, isGap c = true) (ht : Begins t)
    (hb : ∀ c ∈ b, isGap c = true) (h : Reads inner t (b ++ [')'] ++ rest) (IsNode n)) :
    Reads (parenthesized inner) ('(' :: (a ++ (t ++ (b ++ [')'])))) rest
      (IsNode (.group n (.empty 0))) := by
  have hall := readsAll_cons (reads_char '(' _)
    (readsAll_cons (reads_blanks ha ((ht.append _).avoids rest))
      (readsAll_cons h (readsAll_cons (reads_blanks hb (avoids_cons rfl rest))
        (readsAll_last (reads_char ')' rest)))))
  apply reads_sequence hall
  rintro span _ ⟨_, _, rfl, -, _, _, rfl, -, inner, _, rfl, ⟨m, hm, rfl⟩, _, _, rfl, -, _, rfl, -⟩
  simp only [buildGroup, node?_of_payload hm]
  exact isNode_made (.group m span)

theorem reads_operation (op : Arithmetic) (ha : ∀ c ∈ a, isGap c = true)
    (hb : ∀ c ∈ b, isGap c = true) (ht : Begins t)
    (hl : Reads (.ref .leftOfOperation) s (a ++ (op.sign.toList ++ (b ++ t)) ++ rest) (IsNode l))
    (hr : Reads (.ref .operand) t rest (IsNode r)) :
    Reads operation (s ++ (a ++ (op.sign.toList ++ (b ++ t)))) rest
      (IsNode (.arithmetic op l r (.empty 0))) := by
  have hall := readsAll_cons hl
    (readsAll_cons (reads_blanks ha (((begins_arithmetic op).append _).avoids rest))
      (readsAll_cons (reads_arithmetic_sign op _)
        (readsAll_cons (reads_blanks hb (ht.avoids rest)) (readsAll_last hr))))
  apply reads_sequence hall
  rintro span _ ⟨left, _, rfl, ⟨m, hm, rfl⟩, _, _, rfl, -, sign, _, rfl, hsign, _, _, rfl, -, right,
    rfl, ⟨k, hk, rfl⟩⟩
  simp only [buildOperation, node?_of_payload hm, node?_of_payload hk, text?_of_payload hsign,
    Option.bind_some, ofSign?_arithmetic]
  exact isNode_made (.arithmetic op m k span)

theorem reads_comparison (op : Comparison) (ha : Gap a) (hb : Gap b) (ht : Begins t)
    (hl : Reads (.ref .leftOfComparison) s (a ++ (op.sign.toList ++ (b ++ t)) ++ rest) (IsNode l))
    (hr : Reads (.ref .expression) t rest (IsNode r)) :
    Reads comparison (s ++ (a ++ (op.sign.toList ++ (b ++ t)))) rest
      (IsNode (.comparison op l r (.empty 0))) := by
  have hall := readsAll_cons hl
    (readsAll_cons (reads_space ha (((begins_comparison op).append _).avoids rest))
      (readsAll_cons (reads_must (reads_comparison_sign op ((hb.spaced t).append rest)) .comparisonSign)
        (readsAll_cons (reads_space hb (ht.avoids rest))
          (readsAll_last (reads_must hr .comparisonRight)))))
  apply reads_sequence hall
  rintro span _ ⟨left, _, rfl, ⟨m, hm, rfl⟩, _, _, rfl, -, sign, _, rfl, hsign, _, _, rfl, -, right,
    rfl, ⟨k, hk, rfl⟩⟩
  simp only [buildComparison, node?_of_payload hm, node?_of_payload hk, text?_of_payload hsign,
    Option.bind_some, ofSign?_comparison]
  exact isNode_made (.comparison op m k span)

theorem reads_nullish (ha : Gap a) (hb : Gap b) (ht : Begins t)
    (hl : Reads (.ref .leftOfNullish) s (a ++ ("??".toList ++ (b ++ t)) ++ rest) (IsNode l))
    (hr : Reads (.oneOf [.ref .nullish, .ref .expression]) t rest (IsNode r)) :
    Reads nullish (s ++ (a ++ ("??".toList ++ (b ++ t)))) rest
      (IsNode (.nullish l r (.empty 0))) := by
  have hall := readsAll_cons hl
    (readsAll_cons (reads_space ha (avoids_cons rfl _))
      (readsAll_cons (reads_text "??" _)
        (readsAll_cons (reads_space hb (ht.avoids rest)) (readsAll_last hr))))
  apply reads_sequence hall
  rintro span _ ⟨left, _, rfl, ⟨m, hm, rfl⟩, _, _, rfl, -, _, _, rfl, -, _, _, rfl, -, right,
    rfl, ⟨k, hk, rfl⟩⟩
  simp only [buildNullish, node?_of_payload hm, node?_of_payload hk]
  exact isNode_made (.nullish m k span)

theorem reads_ternary {c y : Node} {d e u : List Char} (ha : Gap a) (hb : Gap b) (ht : Begins t)
    (hd : Gap d) (he : Gap e) (hu : Begins u)
    (hc : Reads (.ref .comparison) s
      (a ++ ("?".toList ++ (b ++ (t ++ (d ++ (":".toList ++ (e ++ u)))))) ++ rest) (IsNode c))
    (hy : Reads (.ref .expression) t (d ++ (":".toList ++ (e ++ u)) ++ rest) (IsNode y))
    (hn : Reads (.ref .expression) u rest (IsNode n)) :
    Reads ternary (s ++ (a ++ ("?".toList ++ (b ++ (t ++ (d ++ (":".toList ++ (e ++ u))))))))
      rest (IsNode (.ternary c y n (.empty 0))) := by
  have hall := readsAll_cons (reads_must hc .ternaryCondition)
    (readsAll_cons (reads_space ha (avoids_cons rfl _))
      (readsAll_cons (reads_must (reads_text "?" _) .ternaryMark)
        (readsAll_cons (reads_space hb ((ht.append _).avoids rest))
          (readsAll_cons (reads_must hy .ternaryThen)
            (readsAll_cons (reads_space hd (avoids_cons rfl _))
              (readsAll_cons (reads_must (reads_text ":" _) .ternaryColon)
                (readsAll_cons (reads_space he (hu.avoids rest))
                  (readsAll_last (reads_must hn .ternaryElse)))))))))
  apply reads_sequence hall
  rintro span _ ⟨condition, _, rfl, ⟨m, hm, rfl⟩, _, _, rfl, -, _, _, rfl, -, _, _, rfl, -, yes, _,
    rfl, ⟨k, hk, rfl⟩, _, _, rfl, -, _, _, rfl, -, _, _, rfl, -, no, rfl, ⟨l, hl, rfl⟩⟩
  simp only [buildTernary, node?_of_payload hm, node?_of_payload hk, node?_of_payload hl]
  exact isNode_made (.ternary m k l span)

/-! Statements -/

theorem reads_guarded {start : TemplateRule} {node : Node → Span → Node}
    (hnode : ∀ m span, (node m span).bare = node m.bare (.empty 0)) (ha : Gap a) (ht : Begins t)
    (hs : Reads start s (a ++ t ++ rest) P) (hc : Reads (.ref .comparison) t rest (IsNode n)) :
    Reads (guarded start node) (s ++ (a ++ t)) rest (IsNode (node n (.empty 0))) := by
  have hall := readsAll_cons hs
    (readsAll_cons (reads_space ha (ht.avoids rest))
      (readsAll_last (reads_must hc .guardComparison)))
  apply reads_sequence hall
  rintro span _ ⟨_, _, rfl, -, _, _, rfl, -, guard, rfl, ⟨m, hm, rfl⟩⟩
  simp only [buildGuard, node?_of_payload hm, ← hnode m span]
  exact isNode_made (node m span)

theorem reads_onlyIf (ha : Gap a) (ht : Begins t)
    (hc : Reads (.ref .comparison) t rest (IsNode n)) :
    Reads onlyIf ("if".toList ++ (a ++ t)) rest (IsNode (.onlyIf n (.empty 0))) :=
  reads_guarded (fun _ _ => rfl) ha ht (reads_keyword "if" ((ha.spaced t).append rest)) hc

theorem reads_ifElse (ha : Gap a) (ht : Begins t)
    (hc : Reads (.ref .comparison) t rest (IsNode n)) :
    Reads elseIf ("ifelse".toList ++ (a ++ t)) rest (IsNode (.elseIf n (.empty 0))) :=
  reads_guarded (fun _ _ => rfl) ha ht
    (reads_oneOf_head (reads_keyword "ifelse" ((ha.spaced t).append rest))) hc

theorem reads_elseIf (ha : Gap a) (hb : Gap b) (ht : Begins t)
    (hc : Reads (.ref .comparison) t rest (IsNode n)) :
    Reads elseIf ("else".toList ++ (a ++ ("if".toList ++ (b ++ t)))) rest
      (IsNode (.elseIf n (.empty 0))) := by
  have hspaced : Spaced (b ++ t ++ rest) := (hb.spaced t).append rest
  have hwords : ReadsAll [.keyword "else", space, .keyword "if"]
      ("else".toList ++ (a ++ "if".toList)) (b ++ t ++ rest) _ :=
    readsAll_cons (reads_keyword "else" ((ha.spaced _).append _))
      (readsAll_cons (reads_space ha (avoids_cons rfl _)) (readsAll_last (reads_keyword "if" hspaced)))
  have hn : firstWord (("else".toList ++ (a ++ "if".toList)) ++ (b ++ t ++ rest)) ≠ "ifelse" := by
    rw [List.append_assoc, firstWord_append _ ((ha.spaced _).append _)]
    decide
  have hstart : Reads (.oneOf [.keyword "ifelse", .sequence [.keyword "else", space, .keyword "if"] none])
      ("else".toList ++ (a ++ "if".toList)) (b ++ t ++ rest) (· = .unit) :=
    reads_oneOf_tail (declines_keyword rfl hn).refuses
      (reads_oneOf_head (reads_sequence_unit hwords))
  have hr : Reads elseIf (("else".toList ++ (a ++ "if".toList)) ++ (b ++ t)) rest
      (IsNode (.elseIf n (.empty 0))) := reads_guarded (fun _ _ => rfl) hb ht hstart hc
  simpa only [List.append_assoc] using hr

theorem reads_otherwise (h : Spaced rest) :
    Reads otherwise "else".toList rest (IsNode (.otherwise (.empty 0))) :=
  reads_map (reads_keyword "else" h) fun span _ _ => isNode_made (.otherwise span)

theorem pathOf?_of_payload {piece : Piece} {m : Node} {p : VariablePath}
    (h : piece.2 = .value (.node m)) (hm : m.bare = .path p (.empty 0)) :
    ∃ place, pathOf? piece = some (p, place) := by
  cases m with
  | path q place =>
      cases hm
      exact ⟨place, by rw [pathOf?, node?_of_payload h]⟩
  | _ => cases hm

/-- A loop has this filter. -/
def IsFilter (filter : Option Node) (piece : Piece) : Prop :=
  ∃ found, filterOf? piece = some found ∧ found.map Node.bare = filter

theorem isFilter_none {piece : Piece} (h : piece.2 = .optional none) : IsFilter none piece :=
  ⟨none, by rw [filterOf?, optional?_of_payload h], rfl⟩

theorem isFilter_some {piece : Piece} (h : IsSome (IsNode (.onlyIf n (.empty 0))) piece.2) :
    IsFilter (some n) piece := by
  obtain ⟨inner, hp, m, hm, hbare⟩ := h
  cases m with
  | onlyIf guard place =>
      refine ⟨some guard, ?_, ?_⟩
      · simp only [filterOf?, optional?_of_payload hp, node?_of_payload hm]
      · cases hbare
        rfl
  | _ => cases hbare

theorem reads_each {p : VariablePath} {x d : List Char} {filter : Option Node} (ha : Gap a)
    (hs : Begins s) (hb : Gap b) (hd : Gap d) (hx : Begins x)
    (hsource : Reads path s (b ++ ("as".toList ++ (d ++ (x ++ t))) ++ rest)
      (IsNode (.path p (.empty 0))))
    (hname : Reads path x (t ++ rest) (IsNode (.path ⟨[⟨String.ofList x, false⟩]⟩ (.empty 0))))
    (hfilter : ReadsAll [space, .maybe onlyIf] t rest
      fun pieces => ∃ gap piece, pieces = [gap, piece] ∧ IsFilter filter piece) :
    Reads each ("each".toList ++ (a ++ (s ++ (b ++ ("as".toList ++ (d ++ (x ++ t))))))) rest
      (IsNode (.each p (String.ofList x) filter (.empty 0))) := by
  have hall := readsAll_cons (reads_keyword "each" ((ha.spaced _).append _))
    (readsAll_cons (reads_space ha ((hs.append _).avoids rest))
      (readsAll_cons hsource
        (readsAll_cons (reads_space hb (avoids_cons rfl _))
          (readsAll_cons (reads_keyword "as" ((hd.spaced _).append _))
            (readsAll_cons (reads_space hd ((hx.append _).avoids rest))
              (readsAll_cons hname hfilter))))))
  apply reads_sequence hall
  rintro span _ ⟨_, _, rfl, -, _, _, rfl, -, source, _, rfl, ⟨m, hm, hsource⟩, _, _, rfl, -,
    _, _, rfl, -, _, _, rfl, -, name, _, rfl, ⟨k, hk, hname⟩, _, _, rfl, found, hfound, rfl⟩
  obtain ⟨_, hsource⟩ := pathOf?_of_payload hm hsource
  obtain ⟨_, hname⟩ := pathOf?_of_payload hk hname
  simp only [buildEach, hsource, hname, hfound, VariablePath.identifier?]
  have hmade := isNode_made (.each p (String.ofList x) found span)
  rwa [Node.bare, Node.relocate, Node.relocateFilter_eq_map] at hmade

/-- A loop without a filter takes the blanks behind it. -/
theorem readsAll_no_filter (hb : Gap b) (ht : Avoids isGap rest) (hr : Refuses onlyIf rest) :
    ReadsAll [space, .maybe onlyIf] b rest
      fun pieces => ∃ gap piece, pieces = [gap, piece] ∧ IsFilter none piece := by
  have hspace : Reads space b ([] ++ rest) fun _ => True := reads_space hb ht
  have hall := readsAll_cons hspace (readsAll_last (reads_maybe_nothing hr))
  rw [List.append_nil] at hall
  apply hall.imp
  rintro _ ⟨gap, _, rfl, -, piece, rfl, hpiece⟩
  exact ⟨gap, piece, rfl, isFilter_none hpiece⟩

theorem readsAll_filter (ha : Gap a) (hb : Gap b) (ht : Begins t)
    (hc : Reads (.ref .comparison) t rest (IsNode n)) :
    ReadsAll [space, .maybe onlyIf] (a ++ ("if".toList ++ (b ++ t))) rest
      fun pieces => ∃ gap piece, pieces = [gap, piece] ∧ IsFilter (some n) piece := by
  have hall := readsAll_cons (reads_space ha (avoids_cons rfl _))
    (readsAll_last (reads_maybe (reads_onlyIf hb ht hc)))
  apply hall.imp
  rintro _ ⟨gap, _, rfl, -, piece, rfl, hpiece⟩
  exact ⟨gap, piece, rfl, isFilter_some hpiece⟩

end Rules
end JsonTemplate
