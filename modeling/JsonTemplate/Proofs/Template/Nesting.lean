import JsonTemplate.Proofs.Expression.Nesting
import JsonTemplate.Proofs.Template.Shape

/-!
The trees of templates nest. Every rule keeps what it makes inside the tokens that it
takes, so that in the tree of a document the children of each node, down to the operands of
an expression, have tokens of their own and stand in order.
-/

namespace JsonTemplate

theorem Rule.eager_textUntil {ν β : Type} (stop : String) :
    (textUntil stop : Rule ν β).Eager := by
  intro run count h
  obtain ⟨hcount, hne⟩ := takeUntil_eq_some h
  have := widthUntil_le stop.toList run
  rw [List.length_take_of_le (by omega)]
  exact Nat.pos_of_ne_zero hne

namespace Rules

open Rule Node Payload

/-! Statements -/

theorem nests_comment : Nests comment :=
  nests_map trivial (eager_pattern rfl) (keepsPieceInside_text fun _ _ _ hb =>
    ⟨_, made_eq_ok hb, rfl, trivial⟩)

theorem nests_otherwise : Nests otherwise :=
  nests_map trivial (eager_keyword (by decide)) (keepsPieceInside_leaf fun _ _ _ hb =>
    ⟨_, made_eq_ok hb, rfl, trivial⟩)

theorem nests_guarded {start : TemplateRule} {node : Node → Span → Node} (h : Nests start)
    (he : start.Eager) (hspan : ∀ guard span, (node guard span).span = span)
    (hn : ∀ guard span, span.Encloses [guard.span] ∧ guard.Nested → (node guard span).Nested) :
    Nests (guarded start node) := by
  refine nests_sequence (fun r hr => ?_) (.inl he) (keepsInside_guard hspan hn)
  simp only [List.mem_cons, List.not_mem_nil, or_false] at hr
  obtain rfl | rfl | rfl := hr
  · exact h
  · exact nests_space
  · trivial

theorem nests_onlyIf : Nests onlyIf :=
  nests_guarded trivial (eager_keyword (by decide)) (fun _ _ => rfl) fun _ _ h => h

theorem nests_elseIf : Nests elseIf := by
  refine nests_guarded ⟨trivial, ⟨⟨trivial, nests_space, trivial, trivial⟩, nofun⟩, trivial⟩
    ⟨eager_keyword (by decide), .inl (eager_keyword (by decide)), trivial⟩ (fun _ _ => rfl)
    fun _ _ h => h

theorem nests_each : Nests each := by
  refine nests_sequence (fun r hr => ?_) (.inl (eager_keyword (by decide))) keepsInside_each
  simp only [List.mem_cons, List.not_mem_nil, or_false] at hr
  obtain rfl | rfl | rfl | rfl | rfl | rfl | rfl | rfl | rfl := hr
  · trivial
  · exact nests_space
  · exact nests_path
  · exact nests_space
  · trivial
  · exact nests_space
  · exact nests_path
  · exact nests_space
  · exact nests_onlyIf

theorem nests_statement : Nests statement := by
  refine nests_oneOf fun r hr => ?_
  simp only [List.mem_cons, List.not_mem_nil, or_false] at hr
  obtain rfl | rfl | rfl | rfl | rfl | rfl | rfl | hr := hr
  · exact ⟨nests_onlyIf, nests_elseIf, nests_otherwise, trivial⟩
  · exact nests_each
  · exact nests_ternary
  · trivial
  · exact nests_comment
  · trivial
  · trivial
  · apply nests_literal r
    simp only [literalRules, List.mem_cons, List.not_mem_nil, or_false]
    grind

theorem nests_around {inner : TemplateRule} (h : Nests inner) : Nests (around inner) :=
  ⟨⟨nests_space, h, nests_space, trivial⟩, nofun⟩

theorem nests_flatten : Nests flatten := by
  refine nests_sequence (fun r hr => ?_) (.inl (eager_keyword (by decide))) keepsInside_flatten
  simp only [List.mem_cons, List.not_mem_nil, or_false] at hr
  obtain rfl | rfl | rfl := hr
  · trivial
  · exact nests_space
  · exact nests_around trivial

theorem nests_interpolation : Nests interpolation := by
  refine nests_sequence (fun r hr => ?_) (.inl (eager_takeText (by decide))) keepsInside_interpolation
  simp only [List.mem_cons, List.not_mem_nil, or_false] at hr
  obtain rfl | rfl | rfl | rfl | rfl | rfl | rfl | rfl | rfl | rfl | rfl := hr
  · trivial
  · exact nests_space
  · exact nests_around trivial
  · exact nests_space
  · exact nests_flatten
  · exact nests_space
  · exact nests_statement
  · exact nests_space
  · exact nests_comment
  · exact nests_space
  · trivial

theorem nests_plainText : Nests plainText :=
  nests_map trivial (eager_textUntil _) (keepsPieceInside_text fun _ _ _ hb =>
    ⟨_, made_eq_ok hb, rfl, trivial⟩)

/-! Strings, lists and objects -/

/-- Items between two marks stand inside the match. -/
theorem fitAll_items {span : Span} {opening items closing : Piece} {found : List Piece}
    (hfit : FitAll Fragment.Inside span.start [opening, items, closing] span.stop)
    (hi : items? items = some found) : FitAll Fragment.Inside span.start found span.stop := by
  obtain ⟨place, payload⟩ := items
  have hs : [(place, payload)].Sublist [opening, (place, payload), closing] := by simp
  obtain ⟨hstart, -, hfits, hstop⟩ := hfit.sublist hs
  cases payload with
  | repeated more =>
      cases hi
      exact FitAll.mono hfits hstart hstop
  | _ => cases hi

theorem keepsInside_nodes {node : List Node → Span → Node}
    (hspan : ∀ nodes span, (node nodes span).span = span)
    (hn : ∀ nodes span, span.Encloses (nodes.map Node.span) → AllNested nodes →
      (node nodes span).Nested) : KeepsInside Fragment.Inside (buildNodes node) := by
  intro span pieces payload hlt hfit hb
  simp only [buildNodes] at hb
  split at hb
  · next opening items closing =>
      obtain ⟨n, hnode, rfl⟩ := shaped_eq_ok hb
      obtain ⟨nodes, hnodes, rfl⟩ := Option.map_eq_some_iff.1 hnode
      obtain ⟨found, hfound, hnodes⟩ := Option.bind_eq_some_iff.1 hnodes
      obtain ⟨henc, hall⟩ := inOrder_of_mapM_node? (fitAll_items hfit hfound) hnodes
      exact fits_node hlt (hspan nodes span) (hn nodes span henc (allNested_iff.2 hall))
  · cases hb

theorem keepsInside_object : KeepsInside Fragment.Inside buildObject := by
  intro span pieces payload hlt hfit hb
  simp only [buildObject] at hb
  split at hb
  · next opening items closing =>
      obtain ⟨n, hnode, rfl⟩ := shaped_eq_ok hb
      obtain ⟨entries, hentries, rfl⟩ := Option.map_eq_some_iff.1 hnode
      obtain ⟨found, hfound, hentries⟩ := Option.bind_eq_some_iff.1 hentries
      obtain ⟨henc, hall⟩ := inOrder_of_mapM_entryOf? (fitAll_items hfit hfound) hentries
      exact fits_node hlt rfl ⟨henc, entriesNested_iff.2 hall⟩
  · cases hb

theorem keepsInside_arrayEntry : KeepsInside Fragment.Inside buildArrayEntry := by
  intro span pieces payload hlt hfit hb
  simp only [buildArrayEntry] at hb
  split at hb
  · next opening item closing =>
      obtain ⟨n, hn, rfl⟩ := shaped_eq_ok hb
      obtain ⟨place, payload⟩ := item
      have hs : [(place, payload)].Sublist [opening, (place, payload), closing] := by simp
      obtain ⟨hstart, -, hfits, hstop⟩ := hfit.sublist hs
      exact (inside_of_node? hfits hn).mono hstart hstop
  · cases hb

theorem keepsInside_objectEntry : KeepsInside Fragment.Inside buildObjectEntry := by
  intro span pieces payload hlt hfit hb
  simp only [buildObjectEntry] at hb
  split at hb
  · next a b key c d value e f =>
      split at hb
      · next k v hk hv =>
          cases hb
          have hs : [key, value].Sublist [a, b, key, c, d, value, e, f] := by simp
          have hns : [key, value].mapM node? = some [k, v] := by simp [hk, hv]
          obtain ⟨henc, hall⟩ := inOrder_of_mapM_node? (hfit.sublist hs) hns
          exact ⟨⟨Nat.le_refl _, hlt, Nat.le_refl _⟩, henc, hall k (by simp), hall v (by simp)⟩
      · cases hb
  · cases hb

theorem nests_template : Nests template := by
  refine nests_sequence (fun r hr => ?_) (.inl trivial)
    (keepsInside_nodes (fun _ _ => rfl) fun _ _ henc hall => ⟨henc, hall⟩)
  simp only [List.mem_cons, List.not_mem_nil, or_false] at hr
  obtain rfl | rfl | rfl := hr
  · trivial
  · exact ⟨nests_interpolation, nests_plainText, trivial⟩
  · trivial

theorem nests_array : Nests array := by
  have hentry : Nests arrayEntry :=
    nests_sequence (by simp [Nests, Fitting]) (.inl trivial) keepsInside_arrayEntry
  refine nests_sequence (fun r hr => ?_) (.inl trivial)
    (keepsInside_nodes (fun _ _ => rfl) fun _ _ henc hall => ⟨henc, hall⟩)
  simp only [List.mem_cons, List.not_mem_nil, or_false] at hr
  obtain rfl | rfl | rfl := hr
  · trivial
  · exact hentry
  · trivial

theorem nests_objectEntry : Nests objectEntry := by
  refine nests_sequence (fun r hr => ?_) (.inl trivial) keepsInside_objectEntry
  simp only [List.mem_cons, List.not_mem_nil, or_false] at hr
  obtain rfl | rfl | rfl | rfl | rfl | rfl | rfl | rfl := hr
  · trivial
  · trivial
  · exact nests_template
  · trivial
  · trivial
  · trivial
  · trivial
  · trivial

theorem nests_object : Nests object := by
  refine nests_sequence (fun r hr => ?_) (.inl trivial) keepsInside_object
  simp only [List.mem_cons, List.not_mem_nil, or_false] at hr
  obtain rfl | rfl | rfl := hr
  · trivial
  · exact nests_objectEntry
  · trivial

theorem nests_scalar : Nests scalar := by
  intro kind start v hv
  have hlt : start < start + 1 := Nat.lt_succ_self start
  cases kind with
  | number _ | bool _ | null =>
      cases hv
      exact ⟨⟨Nat.le_refl _, hlt, Nat.le_refl _⟩, trivial⟩
  | _ => cases hv

theorem nests_document : Nests document :=
  ⟨nests_template, nests_scalar, nests_array, nests_object, trivial⟩

variable {tokens : Stream}

/-- What a symbol makes nests, however deep its calls go. -/
theorem parse_fits (hc : tokens.Coherent) (n : Nat) (symbol : Symbol) :
    FitsEverywhere Fragment.Inside (grammar.parse tokens n symbol) := by
  induction n generalizing symbol with
  | zero =>
      intro start span payload h
      cases h
  | succ n ih =>
      intro start span payload h
      have hbody : Nests (body symbol) := by
        by_cases hs : symbol = .document
        · exact hs ▸ nests_document
        · exact nests_body hs
      exact run_fits hc (parse_within hc n) (parse_advancing hc n) ih _ hbody start span payload
        (parse_matched h)

/-- The tree of a document nests inside its tokens. -/
theorem inside_of_read {document : Json} {n : Node} (h : read 0 document = .ok n) :
    Node.Inside ⟨0, document.tokenCount⟩ n := by
  have hc := Stream.coherent_ofJson document
  have hr := run_document hc .root 0 document (Stream.holds_ofJson document)
  rw [h, Nat.zero_add] at hr
  exact parse_fits hc _ .document 0 _ _ hr

end Rules
end JsonTemplate
