import JsonTemplate.Proofs.Evaluation.MixedText

/-!
Strings in which expressions stand next to text or to each other. Such a string comes to text.
Where none of the expressions is spread, the text is one element of a list and names a field of
an object as a written key does. Where one is spread, it is the text that is spread: no list can
hold it, and as a key it makes its object what the entry comes to.
-/

namespace JsonTemplate

open Evaluation

/-- An entry with a spread key is its object. -/
theorem Evaluation.evaluateEntries_spread {undefinedAsNull : Bool} {key : Node} {v : Value}
    {s : Scope} (hk : evaluate undefinedAsNull key .key s = .ok ⟨v, { spread := true }⟩)
    (owner value : Node) (span : Span) (rest : List Entry) (collected : Collected) :
    evaluateEntries undefinedAsNull owner (.mk key value span :: rest) collected s = (do
      let result ← evaluate undefinedAsNull value .value s
      return ⟨result.value, { spread := true }⟩) := by
  rw [evaluateEntries, hk]
  rfl

namespace Rules

/-- The entry of a field stands where the field does. -/
theorem readFields_append_cons {before after : List (String × Json)} {name : String} {v : Json}
    {start : Nat} {entries : List Entry}
    (h : readFields start (before ++ (name, v) :: after) = .ok entries) :
    ∃ first key value span more place, readTextAt place name = .ok key ∧
      entries = first ++ .mk key value span :: more ∧ first.length = before.length := by
  induction before generalizing start entries with
  | nil =>
      obtain ⟨key, value, more, hkey, -, -, rfl⟩ := (readFields_cons_eq_ok rfl rfl).1 h
      exact ⟨[], key, value, _, more, _, hkey, rfl, rfl⟩
  | cons field rest ih =>
      obtain ⟨-, -, tail, -, -, htail, rfl⟩ := (readFields_cons_eq_ok rfl rfl).1 h
      obtain ⟨first, key, value, span, more, place, hkey, rfl, hlength⟩ := ih htail
      exact ⟨_ :: first, key, value, span, more, place, hkey, rfl, congrArg (· + 1) hlength⟩

end Rules

namespace Template

open Rules

/-- A string that is no interpolation by itself, and whose interpolations hold expressions. -/
structure IsMixture (w : String) (parts : List Node) : Prop where
  compiles : ∃ t span, compile (.str w) = .ok t ∧ t.tree = .template parts span
  plain : ∀ part ∈ parts, part.isPlainPart = true
  mixed : Node.isLone parts = false

/-- The parts of a string that is a mixture. -/
def mixture? (w : String) : Option (List Node) :=
  match compile (.str w) with
  | .ok ⟨_, _, .template parts _⟩ =>
      if parts.all Node.isPlainPart && !Node.isLone parts then some parts else none
  | _ => none

theorem isMixture_of_mixture? {w : String} {parts : List Node} (h : mixture? w = some parts) :
    IsMixture w parts := by
  unfold mixture? at h
  split at h
  · next document tokens found span ht =>
      split at h
      · next hfound =>
          cases h
          obtain ⟨hplain, hmixed⟩ := Bool.and_eq_true_iff.1 hfound
          exact ⟨⟨_, span, ht, rfl⟩, List.all_eq_true.1 hplain, by simpa using hmixed⟩
      · cases h
  · cases h

variable {w : String} {parts : List Node} {parameters : Fields Json} {o : Options} {v : Json}

/-- A mixture comes to the same text as a value and as a key, wherever it stands. -/
theorem evaluate_mixture (h : IsMixture w parts)
    (hv : expand (.str w) (.obj parameters) o = .ok v) :
    ∃ s r, v = .str s ∧ r = ⟨some (.str s), { spread := parts.any Node.isSpread }⟩ ∧
      rootResult (.str w) parameters o = .ok r ∧
      ∀ place key, readTextAt place w = .ok key →
        evaluate (o.effective parameters) key .key (.ofParameters parameters) = .ok r := by
  obtain ⟨⟨t, span, ht, htree⟩, hplain, hmixed⟩ := h
  obtain ⟨n, hn, rfl⟩ := compile_eq_ok_iff.1 ht
  obtain rfl : n = .template parts span := htree
  obtain ⟨r, hr, rfl⟩ := expand_eq_ok_iff.1 hv
  obtain ⟨m, hm, hvalue⟩ := rootResult_eq_ok_iff.1 hr
  cases hn.symm.trans hm
  obtain ⟨⟨s, rfl⟩, hkey⟩ := evaluate_mixed hplain hmixed hvalue
  refine ⟨s, _, rfl, rfl, hr, fun place key hplace => ?_⟩
  have hfirst : readTextAt 0 w = .ok (.template parts span) := under_eq_ok.1 hn
  have hshift := readTextAt_shift place 0 w
  rw [Nat.zero_add, hplace, hfirst] at hshift
  cases hshift
  rw [evaluate_relocate (Span.shift place) _ _ .key (.refl _), hkey]
  rfl

theorem elements_of_not_spread {r : Evaluated} (h : r.signals.spread = false) :
    r.elements = [r.value.getD .null] := by
  obtain ⟨value, spread, modifiers, condition, loop, comment⟩ := r
  cases h
  rfl

/-- In a list that is rendered an item that is not spread is one element. -/
theorem expand_arr_element {r : Evaluated} {u : Json} {before after : List Json} {document : Json}
    (hr : rootResult document parameters o = .ok r) (hs : r.signals.spread = false) :
    expand (.arr (before ++ document :: after)) (.obj parameters) o = .ok u ↔
      ∃ first more, expand (.arr before) (.obj parameters) o = .ok (.arr first) ∧
        expand (.arr after) (.obj parameters) o = .ok (.arr more) ∧
        u = .arr (first ++ r.value.getD .null :: more) := by
  have hone := elements_of_not_spread hs
  simp only [expand_arr_eq_ok_iff, mapM_append_cons_eq_ok, Json.arr.injEq]
  constructor
  · rintro ⟨_, ⟨first, b, more, hfirst, hb, hmore, rfl⟩, hall, rfl⟩
    cases hr.symm.trans hb
    obtain ⟨hbefore, hrest⟩ := List.forall_mem_append.1 hall
    obtain ⟨-, hafter⟩ := List.forall_mem_cons.1 hrest
    refine ⟨_, _, ⟨first, hfirst, hbefore, rfl⟩, ⟨more, hmore, hafter, rfl⟩, ?_⟩
    rw [List.flatMap_append, List.flatMap_cons, hone]
    rfl
  · rintro ⟨_, _, ⟨first, hfirst, hbefore, rfl⟩, ⟨more, hmore, hafter, rfl⟩, rfl⟩
    have hsplices : r.Splices := fun h => Bool.noConfusion (hs.symm.trans h)
    refine ⟨_, ⟨first, r, more, hfirst, hr, hmore, rfl⟩, ?_, ?_⟩
    · exact List.forall_mem_append.2 ⟨hbefore, List.forall_mem_cons.2 ⟨hsplices, hafter⟩⟩
    · rw [List.flatMap_append, List.flatMap_cons, hone]
      rfl

/-- No list is rendered with an item in it that is spread and is no list. -/
theorem expand_arr_refused {r : Evaluated} {document : Json}
    (hr : rootResult document parameters o = .ok r) (hs : ¬ r.Splices) (before after : List Json) :
    ∃ e, expand (.arr (before ++ document :: after)) (.obj parameters) o = .error e := by
  cases hu : expand (.arr (before ++ document :: after)) (.obj parameters) o with
  | error e => exact ⟨e, rfl⟩
  | ok u =>
      rw [expand_arr_eq_ok_iff] at hu
      obtain ⟨_, hresults, hall, -⟩ := hu
      obtain ⟨first, b, more, -, hb, -, rfl⟩ := mapM_append_cons_eq_ok.1 hresults
      cases hr.symm.trans hb
      exact absurd (hall r (List.mem_append_right _ List.mem_cons_self)) hs

/-- The tree of an object has an entry for each field, and reads the name of the field. -/
theorem entry_of_compile {before after : List (String × Json)} {value : Json} {t : Template}
    (h : compile (.obj (before ++ (w, value) :: after)) = .ok t) :
    ∃ first key node span more place outer, readTextAt place w = .ok key ∧
      t.tree = .object (first ++ .mk key node span :: more) outer ∧
      first.length = before.length := by
  obtain ⟨n, hn, rfl⟩ := compile_eq_ok_iff.1 h
  obtain ⟨entries, hentries, rfl⟩ := read_obj_eq_ok.1 hn
  obtain ⟨first, key, node, span, more, place, hkey, rfl, hlength⟩ :=
    readFields_append_cons hentries
  exact ⟨first, key, node, span, more, place, _, hkey, rfl, hlength⟩

/-- A mixture that spreads nothing is one element of a list and names a field of an object,
wherever it stands; the other elements and entries are what they are without it. A mixture that
spreads something is spread itself: no list holds it, and it makes an object what its entry comes
to. -/
theorem expand_mixture (h : IsMixture w parts)
    (hv : expand (.str w) (.obj parameters) o = .ok v) :
    ∃ s, v = .str s ∧
      ((∀ part ∈ parts, part.isSpread = false) →
        (∀ before after u,
          expand (.arr (before ++ .str w :: after)) (.obj parameters) o = .ok u ↔
            ∃ first more, expand (.arr before) (.obj parameters) o = .ok (.arr first) ∧
              expand (.arr after) (.obj parameters) o = .ok (.arr more) ∧
              u = .arr (first ++ .str s :: more)) ∧
        ∀ before after value t, compile (.obj (before ++ (w, value) :: after)) = .ok t →
          ∃ first e more span, t.tree = .object (first ++ e :: more) span ∧
            first.length = before.length ∧
            ∀ owner collected,
              evaluateEntries (o.effective parameters) owner (e :: more) collected
                  (.ofParameters parameters) = (do
                let result ←
                  evaluate (o.effective parameters) e.value .value (.ofParameters parameters)
                let collected ← collected.assign owner s result.value
                evaluateEntries (o.effective parameters) owner more collected
                  (.ofParameters parameters))) ∧
      ((∃ part ∈ parts, part.isSpread = true) →
        (∀ before after, ∃ e,
          expand (.arr (before ++ .str w :: after)) (.obj parameters) o = .error e) ∧
        ∀ before after value t, compile (.obj (before ++ (w, value) :: after)) = .ok t →
          ∃ first e more span, t.tree = .object (first ++ e :: more) span ∧
            first.length = before.length ∧
            ∀ owner collected,
              evaluateEntries (o.effective parameters) owner (e :: more) collected
                  (.ofParameters parameters) = (do
                let result ←
                  evaluate (o.effective parameters) e.value .value (.ofParameters parameters)
                return ⟨result.value, { spread := true }⟩)) := by
  obtain ⟨s, r, rfl, rfl, hr, hkeys⟩ := evaluate_mixture h hv
  refine ⟨s, rfl, fun hnone => ?_, fun hsome => ?_⟩
  · have hspread : parts.any Node.isSpread = false := by
      rw [List.any_eq_false]
      exact fun part hpart => Bool.eq_false_iff.1 (hnone part hpart)
    rw [hspread] at hr hkeys
    refine ⟨fun before after u => expand_arr_element hr rfl, fun before after value t ht => ?_⟩
    obtain ⟨first, key, node, span, more, place, outer, hkey, htree, hlength⟩ :=
      entry_of_compile ht
    exact ⟨first, _, more, outer, htree, hlength, fun owner collected =>
      evaluateEntries_named (hkeys place key hkey) owner node span more collected⟩
  · have hspread : parts.any Node.isSpread = true := List.any_eq_true.2 hsome
    rw [hspread] at hr hkeys
    have hrefused : ¬ Evaluated.Splices ⟨some (.str s), { spread := true }⟩ := by
      intro hsplices
      obtain ⟨items, hitems⟩ := hsplices rfl
      cases hitems
    refine ⟨expand_arr_refused hr hrefused, fun before after value t ht => ?_⟩
    obtain ⟨first, key, node, span, more, place, outer, hkey, htree, hlength⟩ :=
      entry_of_compile ht
    exact ⟨first, _, more, outer, htree, hlength, fun owner collected =>
      evaluateEntries_spread (hkeys place key hkey) owner node span more collected⟩

/-- A text with an expression behind it, and the same with the expression spread. -/
theorem expand_mixture_text :
    ∃ (parameters : Fields Json) (quiet loud : List Node) (s s' : String) (t : Template),
      parameters = [("a", .str "y")] ∧
      IsMixture "x\x7b\x7b a \x7d\x7d" quiet ∧ (∀ part ∈ quiet, part.isSpread = false) ∧
      IsMixture "x\x7b\x7b ...a \x7d\x7d" loud ∧ (∃ part ∈ loud, part.isSpread = true) ∧
      expand (.str "x\x7b\x7b a \x7d\x7d") (.obj parameters) .none = .ok (.str s) ∧
      expand (.str "x\x7b\x7b ...a \x7d\x7d") (.obj parameters) .none = .ok (.str s') ∧
      expand (.arr [.str "x\x7b\x7b a \x7d\x7d"]) (.obj parameters) .none = .ok (.arr [.str s]) ∧
      (∃ e, expand (.arr [.str "x\x7b\x7b ...a \x7d\x7d"]) (.obj parameters) .none = .error e) ∧
      compile (.obj [("b", .null), ("x\x7b\x7b a \x7d\x7d", .bool true)]) = .ok t ∧
      ∃ first e more span, t.tree = .object (first ++ e :: more) span ∧ first.length = 1 ∧
        ∀ owner collected,
          evaluateEntries false owner (e :: more) collected (.ofParameters parameters) = (do
            let result ← evaluate false e.value .value (.ofParameters parameters)
            let collected ← collected.assign owner s result.value
            evaluateEntries false owner more collected (.ofParameters parameters)) := by
  have hquiet : ((mixture? "x\x7b\x7b a \x7d\x7d").any
      fun parts => parts.all fun part => !part.isSpread) = true := by decide +kernel
  have hloud : ((mixture? "x\x7b\x7b ...a \x7d\x7d").any
      fun parts => parts.any Node.isSpread) = true := by decide +kernel
  obtain ⟨quiet, hq, hnone⟩ := (Option.any_eq_true _ _).1 hquiet
  obtain ⟨loud, hl, hsome⟩ := (Option.any_eq_true _ _).1 hloud
  have hunspread : ∀ part ∈ quiet, part.isSpread = false := by simpa using hnone
  obtain ⟨v, hv⟩ := exists_eq_ok (r := expand (.str "x\x7b\x7b a \x7d\x7d")
    (.obj [("a", .str "y")]) .none) (by decide +kernel)
  obtain ⟨v', hv'⟩ := exists_eq_ok (r := expand (.str "x\x7b\x7b ...a \x7d\x7d")
    (.obj [("a", .str "y")]) .none) (by decide +kernel)
  obtain ⟨t, ht⟩ := exists_eq_ok (r := compile (.obj [("b", .null),
    ("x\x7b\x7b a \x7d\x7d", .bool true)])) (by decide +kernel)
  obtain ⟨s, rfl, hs, -⟩ := expand_mixture (isMixture_of_mixture? hq) hv
  obtain ⟨s', rfl, -, hs'⟩ := expand_mixture (isMixture_of_mixture? hl) hv'
  obtain ⟨hitems, hentries⟩ := hs hunspread
  obtain ⟨hrefused, -⟩ := hs' (List.any_eq_true.1 hsome)
  have hempty : expand (.arr []) (.obj [("a", .str "y")]) .none = .ok (.arr []) :=
    expand_arr_eq_ok_iff.2 ⟨[], rfl, nofun, rfl⟩
  exact ⟨_, quiet, loud, s, s', t, rfl, isMixture_of_mixture? hq, hunspread,
    isMixture_of_mixture? hl, List.any_eq_true.1 hsome, hv, hv',
    (hitems [] [] _).2 ⟨[], [], hempty, hempty, rfl⟩, hrefused [] [], ht,
    hentries [("b", .null)] [] (.bool true) t ht⟩

/-- A mixture that spreads its expression comes to text, but not as an element of a list, and as
a key it leaves nothing of the other fields. -/
theorem expand_mixture_spread :
    (∃ parts, IsMixture "x\x7b\x7b ...a \x7d\x7d" parts) ∧
      (expand (.str "x\x7b\x7b ...a \x7d\x7d") (.obj [("a", .str "y")]) .none).toOption.map
        Json.compact = some "\"xy\"" ∧
      (expand (.arr [.str "x\x7b\x7b ...a \x7d\x7d"]) (.obj [("a", .str "y")])
        .none).toOption.map Json.compact = none ∧
      (expand (.obj [("b", .null), ("x\x7b\x7b ...a \x7d\x7d", .bool true)])
        (.obj [("a", .str "y")]) .none).toOption.map Json.compact = some "true" := by
  have hparts : (mixture? "x\x7b\x7b ...a \x7d\x7d").isSome = true := by decide +kernel
  obtain ⟨parts, hparts⟩ := Option.isSome_iff_exists.1 hparts
  exact ⟨⟨parts, isMixture_of_mixture? hparts⟩, by decide +kernel, by decide +kernel,
    by decide +kernel⟩

end Template
end JsonTemplate
