import JsonTemplate.Proofs.Expression.Determinism
import JsonTemplate.Proofs.Expression.Interpolations
import JsonTemplate.Proofs.Template.Decomposition

/-!
A string that is written as an interpolation compiles to the tree it was written for.
-/

namespace JsonTemplate
namespace Rules

open Writing

/-- The trees of a list of pieces, but for their spans. -/
def IsNodes (nodes : List Node) (payload : Payload Fragment) : Prop :=
  ∃ pieces found, payload = .repeated pieces ∧ pieces.mapM node? = some found ∧
    found.map Node.bare = nodes

/-- What the parts of a string read off its characters is the template of the string. -/
theorem readText_of_reads {s : String} {nodes : List Node}
    (h : Reads stringParts s.toList [] (IsNodes nodes)) :
    ∃ n, readText s = .ok n ∧ n.bare = .template nodes (.empty 0) := by
  have hc := Stream.coherent_ofJson (.str s)
  have hs := Stream.spells_str s
  have hchars : (Stream.ofJson (.str s)).charsAt (0 + 1) = s.toList ++ [] := by
    rw [hs.charsAt, List.append_nil]
  obtain ⟨_, hr, pieces, found, rfl, hm, rfl⟩ := h _ hc _ hchars
  have hstop : 0 + 1 + s.toList.length + 1 = 0 + s.toList.length + 2 := by omega
  refine ⟨.template found ⟨0, 0 + s.toList.length + 2⟩, ?_, ?_⟩
  · rw [readText, run_template hc hs, hr, Outcome.matched_bind, closeString, if_pos hstop]
    simp only [buildNodes, items?, Option.bind_some, hm, Option.map_some, shaped, made,
      Outcome.ofBuild, result]
  · rw [Node.bare, Node.relocate, Node.relocateAll_eq_map]
    rfl

/-- Nothing is left to read where a string ends. -/
theorem declines_end : Declines (.oneOf [interpolation, plainText]) [] := by
  apply declines_oneOf
  intro r hr
  simp only [List.mem_cons, List.not_mem_nil, or_false] at hr
  obtain rfl | rfl := hr
  · exact declines_sequence (declines_text (by decide))
  · exact declines_map (declines_chars rfl)

theorem reads_nodes_none : Reads (.many (.oneOf [interpolation, plainText])) [] [] (IsNodes []) := by
  apply (reads_many_nil (P := fun _ => False) declines_end).imp
  rintro _ ⟨pieces, rfl, hlength, -⟩
  obtain rfl := List.length_eq_zero_iff.1 hlength
  exact ⟨[], [], rfl, rfl, rfl⟩

/-- An interpolation or a text before the others. -/
theorem reads_nodes_more {n : Node} {nodes : List Node} {text more : List Char} (ht : text ≠ [])
    (h : Reads (.oneOf [interpolation, plainText]) text more (IsNode n))
    (hs : Reads (.many (.oneOf [interpolation, plainText])) more [] (IsNodes nodes)) :
    Reads (.many (.oneOf [interpolation, plainText])) (text ++ more) [] (IsNodes (n :: nodes)) := by
  have hread : Reads (.oneOf [interpolation, plainText]) text (more ++ []) (IsNode n) := by
    rwa [List.append_nil]
  have hmore := hs.imp (Q := fun payload => ∃ pieces, payload = .repeated pieces ∧
      ∃ found, pieces.mapM node? = some found ∧ found.map Node.bare = nodes)
    fun _ ⟨pieces, found, hp, hfound⟩ => ⟨pieces, hp, found, hfound⟩
  apply (reads_many_more ht hread hmore).imp
  rintro _ ⟨piece, pieces, rfl, ⟨m, hm, rfl⟩, found, hfound, rfl⟩
  refine ⟨piece :: pieces, m :: found, rfl, ?_, rfl⟩
  rw [List.mapM_cons, node?_of_payload hm, hfound]
  rfl

theorem reads_parts_none : Reads stringParts [] [] (IsNodes []) := reads_must reads_nodes_none _

/-- A string may be one interpolation, or one text. -/
theorem reads_parts_one {n : Node} {text : List Char} (ht : text ≠ [])
    (h : Reads (.oneOf [interpolation, plainText]) text [] (IsNode n)) :
    Reads stringParts text [] (IsNodes [n]) := by
  have hmany := reads_nodes_more ht h reads_nodes_none
  rw [List.append_nil] at hmany
  exact reads_must hmany _

theorem reads_parts_interpolation {n : Node} {text : List Char}
    (h : Reads interpolation text [] (IsNode n)) : Reads stringParts text [] (IsNodes [n]) := by
  refine reads_parts_one ?_ (reads_oneOf_head h)
  rintro rfl
  exact not_refuses_of_reads h (declines_sequence (declines_text (by decide))).refuses

/-- A string that is read as one interpolation is the template of that alone. -/
theorem readText_of_interpolation {n : Node} {s : String}
    (h : Reads interpolation s.toList [] (IsNode n)) :
    ∃ m, readText s = .ok m ∧ m.bare = .template [n] (.empty 0) :=
  readText_of_reads (reads_parts_interpolation h)

end Rules

namespace Template

open Rules Writing

/-- Reading undoes writing: whatever is written as an interpolation, with any blanks, quotes
and forms of steps, compiles to the one tree it was written for. -/
theorem compile_written {n : Node} {text : List Char} (h : WritesInterpolation n text) :
    ∃ t, compile (.str (String.ofList text)) = .ok t ∧ t.tree.bare = .template [n] (.empty 0) := by
  have hread := reads_interpolation h []
  rw [← String.toList_ofList (l := text)] at hread
  obtain ⟨tree, ht, hbare⟩ := readText_of_interpolation hread
  exact ⟨_, compile_of_read (read_str_of_readText ht), by rw [Node.bare_relocate, hbare]⟩

/-- A coalescing of a comparison, with an optional step and a quote in a string. -/
theorem compile_written_coalescing :
    ∃ n, n = .interpolation false [.flatten]
        (.nullish
          (.comparison .equal
            (.arithmetic .add (.path ⟨[⟨"a", true⟩, ⟨"b", false⟩]⟩ (.empty 0))
              (.number (.int 1 (by decide)) (.empty 0)) (.empty 0))
            (.quoted "it's" (.empty 0)) (.empty 0))
          (.null (.empty 0)) (.empty 0))
        (.empty 0) ∧
      WritesInterpolation n "\x7b\x7b flatten | a?.b + 1 == 'it\\'s' ?? null \x7d\x7d".toList ∧
      ∃ t, compile (.str "\x7b\x7b flatten | a?.b + 1 == 'it\\'s' ?? null \x7d\x7d") = .ok t ∧
        t.tree.bare = .template [n] (.empty 0) := by
  have hb := gap_blank
  have hname : IsIdentifier ['a'] :=
    ⟨⟨'a', [], rfl, rfl⟩, List.forall_mem_singleton.2 rfl, by decide⟩
  have hstep : ['b'] ≠ [] := nofun
  have hpath : WritesPath ⟨[⟨"a", true⟩, ⟨"b", false⟩]⟩ "a?.b".toList :=
    .mk hname (.dotted hstep (List.forall_mem_singleton.2 rfl) .nil) (by decide)
  have hone : Writes .atom (.number (.int 1 (by decide)) (.empty 0)) (toString (1 : Int)).toList :=
    .number rfl rfl
  have hsum := Writes.operation .add (.path hpath) hb hb (.atom hone)
  have hquoted := WritesLiteral.quoted "it's" (.inr rfl)
  have hcompared := Writes.comparison .equal (.operand hsum) hb hb (.term (.literal hquoted))
  have hvalue := Writes.nullish (.compared hcompared) hb hb (.term (.literal .null))
  have hwritten : WritesInterpolation (.interpolation false [.flatten] _ (.empty 0))
      "\x7b\x7b flatten | a?.b + 1 == 'it\\'s' ?? null \x7d\x7d".toList :=
    .mk hb .no (.more hb hb .none) (.nullish hvalue) hb .none
  have ht := compile_written hwritten
  rw [String.ofList_toList] at ht
  exact ⟨_, rfl, hwritten, ht⟩

end Template
end JsonTemplate
