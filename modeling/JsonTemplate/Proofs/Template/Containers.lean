import JsonTemplate.Proofs.Template.Verbatim

/-!
Containers come to what their parts come to. The result of a document is that of its root
when it is compiled alone; a list joins the results of its items and an object names those
of its values, wherever they stand in it and however they are nested.
-/

namespace JsonTemplate

namespace Evaluated

/-- A result that is spread is a list. -/
def Splices (r : Evaluated) : Prop := r.signals.spread = true → ∃ items, r.value = some (.arr items)

/-- What a result brings to a list: its items if it is spread, or else its value. -/
def elements (r : Evaluated) : List Json :=
  match r.signals.spread, r.value with
  | true, some (.arr items) => items
  | _, v => [v.getD .null]

/-- The fields whose values are defined, given the results of all values. -/
def definedFields (fields : Fields Json) (results : List Evaluated) : Fields Json :=
  (fields.zip results).filterMap fun (field, r) => r.value.map fun v => (field.1, v)

theorem definedFields_cons (field : String × Json) (rest : Fields Json) (r : Evaluated)
    (results : List Evaluated) :
    definedFields (field :: rest) (r :: results)
      = (r.value.map fun v => (field.1, v)).toList ++ definedFields rest results := by
  obtain ⟨v, signals⟩ := r
  cases v <;> rfl

theorem elements_relocate (f : Span → Span) (r : Evaluated) :
    (r.relocate f).elements = r.elements :=
  rfl

end Evaluated

namespace Evaluation

open Failure (transport)

theorem itemsOf_eq_ok_iff {owner : Node} {r : Evaluated} {items : List Json} :
    itemsOf owner r = .ok items ↔ r.Splices ∧ items = r.elements := by
  obtain ⟨v, spread, modifiers, condition, loop, comment⟩ := r
  cases spread with
  | false => exact ⟨fun h => ⟨nofun, (Except.ok.inj h).symm⟩, fun ⟨_, h⟩ => h ▸ rfl⟩
  | true =>
      have hsplices : ∀ w : Value, (∀ inner, w ≠ some (.arr inner)) →
          ¬ Evaluated.Splices ⟨w, true, modifiers, condition, loop, comment⟩ := fun w hw h =>
        let ⟨inner, hinner⟩ := h rfl
        hw inner hinner
      cases v with
      | none => exact ⟨nofun, fun ⟨h, _⟩ => absurd h (hsplices none nofun)⟩
      | some v =>
          cases v with
          | arr inner =>
              exact ⟨fun h => ⟨fun _ => ⟨inner, rfl⟩, (Except.ok.inj h).symm⟩,
                fun ⟨_, h⟩ => h ▸ rfl⟩
          | _ => exact ⟨nofun, fun ⟨h, _⟩ => absurd h (hsplices _ nofun)⟩

/-- An entry whose key is a text alone. -/
theorem evaluateEntries_named {undefinedAsNull : Bool} {key : Node} {name : String} {s : Scope}
    (hk : evaluate undefinedAsNull key .key s = .ok (.plain (some (.str name))))
    (owner value : Node) (span : Span) (rest : List Entry) (collected : Collected) :
    evaluateEntries undefinedAsNull owner (.mk key value span :: rest) collected s = (do
      let result ← evaluate undefinedAsNull value .value s
      let collected ← collected.assign owner name result.value
      evaluateEntries undefinedAsNull owner rest collected s) := by
  rw [evaluateEntries, hk]
  rfl

end Evaluation

theorem Collected.assign_of_not_mem {fields : Fields Json} {name : String}
    (h : name ∉ fields.names) (owner : Node) (v : Value) :
    (Collected.fields fields).assign owner name v
      = .ok (.fields (fields ++ (v.map fun w => (name, w)).toList)) := by
  cases v with
  | none =>
      rw [assign, Fields.erase_of_not_mem h, Option.map_none, Option.toList_none, List.append_nil]
  | some w => rw [assign, Fields.insert_of_not_mem h, Option.map_some, Option.toList_some]

namespace Template

open Evaluation Rules

/-- The result of a document that is compiled alone: the value and the signals of its root. -/
def rootResult (document : Json) (parameters : Fields Json) (o : Options) :
    Except TemplateError Evaluated := do
  let t ← compile document
  (evaluate (o.effective parameters) t.tree .value (.ofParameters parameters)).mapError
    fun failure => .locate failure t.tokens t.document

theorem compile_eq_ok_iff {document : Json} {t : Template} :
    compile document = .ok t ↔ ∃ n, Rules.read 0 document = .ok n ∧
      t = ⟨document, Stream.ofJson document, n⟩ := by
  cases hn : Rules.read 0 document with
  | error x =>
      rw [compile_of_read_error hn]
      exact ⟨nofun, fun ⟨_, h, _⟩ => nomatch h⟩
  | ok n =>
      rw [compile_of_read hn]
      exact ⟨fun h => ⟨n, rfl, (Except.ok.inj h).symm⟩, fun ⟨_, hm, h⟩ => by cases hm; rw [h]⟩

theorem compile_eq_error_iff {document : Json} {e : TemplateError} :
    compile document = .error e ↔ ∃ x, Rules.read 0 document = .error x ∧
      e = .locate x (Stream.ofJson document) document := by
  cases hn : Rules.read 0 document with
  | ok n =>
      rw [compile_of_read hn]
      exact ⟨nofun, fun ⟨_, h, _⟩ => nomatch h⟩
  | error x =>
      rw [compile_of_read_error hn]
      exact ⟨fun h => ⟨x, rfl, (Except.error.inj h).symm⟩, fun ⟨_, hy, h⟩ => by cases hy; rw [h]⟩

section Results

variable {parameters : Fields Json} {o : Options}

theorem rootResult_eq_ok_iff {document : Json} {r : Evaluated} :
    rootResult document parameters o = .ok r ↔ ∃ n, Rules.read 0 document = .ok n ∧
      evaluate (o.effective parameters) n .value (.ofParameters parameters) = .ok r := by
  simp only [rootResult, bind_eq_ok, mapError_eq_ok, compile_eq_ok_iff]
  constructor
  · rintro ⟨_, ⟨n, hn, rfl⟩, hr⟩
    exact ⟨n, hn, hr⟩
  · rintro ⟨n, hn, hr⟩
    exact ⟨_, ⟨n, hn, rfl⟩, hr⟩

theorem render_eq_ok_iff {t : Template} {v : Json} :
    t.render (.obj parameters) o = .ok v ↔
      ∃ r, evaluate (o.effective parameters) t.tree .value (.ofParameters parameters) = .ok r ∧
        v = r.value.getD .null := by
  simp only [render, parametersOf, evaluateRoot]
  cases evaluate (o.effective parameters) t.tree .value (.ofParameters parameters) with
  | error x => exact ⟨nofun, fun ⟨_, h, _⟩ => nomatch h⟩
  | ok r =>
      exact ⟨fun h => ⟨r, rfl, (Except.ok.inj h).symm⟩,
        fun ⟨_, hr, h⟩ => by cases hr; rw [h]; rfl⟩

theorem render_eq_error_iff {t : Template} {e : TemplateError} :
    t.render (.obj parameters) o = .error e ↔
      ∃ x, evaluate (o.effective parameters) t.tree .value (.ofParameters parameters) = .error x ∧
        e = .locate x t.tokens t.document := by
  simp only [render, parametersOf, evaluateRoot]
  cases evaluate (o.effective parameters) t.tree .value (.ofParameters parameters) with
  | ok r => exact ⟨nofun, fun ⟨_, h, _⟩ => nomatch h⟩
  | error x =>
      exact ⟨fun h => ⟨x, rfl, (Except.error.inj h).symm⟩,
        fun ⟨_, hx, h⟩ => by cases hx; rw [h]; rfl⟩

theorem expand_eq_ok_iff {document v : Json} :
    expand document (.obj parameters) o = .ok v ↔
      ∃ r, rootResult document parameters o = .ok r ∧ v = r.value.getD .null := by
  simp only [expand, bind_eq_ok, rootResult_eq_ok_iff, compile_eq_ok_iff, render_eq_ok_iff]
  constructor
  · rintro ⟨_, ⟨n, hn, rfl⟩, r, hr, hv⟩
    exact ⟨r, ⟨n, hn, hr⟩, hv⟩
  · rintro ⟨r, ⟨n, hn, hr⟩, hv⟩
    exact ⟨_, ⟨n, hn, rfl⟩, r, hr, hv⟩

/-! One part at its place -/

theorem rootResult_of_place {document : Json} {place : Nat} {n : Node} {r : Evaluated}
    (hn : Rules.read place document = .ok n)
    (hr : evaluate (o.effective parameters) n .value (.ofParameters parameters) = .ok r) :
    ∃ alone, rootResult document parameters o = .ok alone ∧
      r = alone.relocate (Span.shift place) := by
  rw [read_place] at hn
  obtain ⟨m, hm, rfl⟩ := Failure.transport_eq_ok.1 hn
  rw [evaluate_relocate (Span.shift place) _ m .value (.refl _)] at hr
  obtain ⟨alone, halone, rfl⟩ := Failure.transport_eq_ok.1 hr
  exact ⟨alone, rootResult_eq_ok_iff.2 ⟨m, hm, halone⟩, rfl⟩

theorem place_of_rootResult {document : Json} {alone : Evaluated}
    (h : rootResult document parameters o = .ok alone) (place : Nat) :
    ∃ n, Rules.read place document = .ok n ∧
      evaluate (o.effective parameters) n .value (.ofParameters parameters)
        = .ok (alone.relocate (Span.shift place)) := by
  obtain ⟨n, hn, hr⟩ := rootResult_eq_ok_iff.1 h
  refine ⟨n.relocate (Span.shift place), ?_, ?_⟩
  · rw [read_place, hn, Failure.transport]
  · rw [evaluate_relocate (Span.shift place) _ n .value (.refl _), hr, Failure.transport]

/-! Lists -/

/-- The items of a list that is rendered have results of their own. -/
theorem rootResults_of_items {items : List Json} {start : Nat} {owner : Node} {nodes : List Node}
    {values : List Json} (hn : readItems start items = .ok nodes)
    (hv : evaluateItems (o.effective parameters) owner nodes (.ofParameters parameters)
      = .ok values) :
    ∃ results, items.mapM (rootResult · parameters o) = .ok results ∧
      (∀ r ∈ results, r.Splices) ∧ values = results.flatMap Evaluated.elements := by
  induction items generalizing start nodes values with
  | nil =>
      cases hn
      cases hv
      exact ⟨[], rfl, nofun, rfl⟩
  | cons item rest ih =>
      obtain ⟨n, more, hitem, hrest, rfl⟩ := readItems_cons_eq_ok.1 hn
      simp only [evaluateItems, bind_eq_ok, itemsOf_eq_ok_iff] at hv
      -- Spreading looks at the value and the signals alone, which are the same anywhere.
      obtain ⟨_, hr, _, ⟨hsplices, rfl⟩, tail, htail, h⟩ := hv
      cases h
      obtain ⟨alone, halone, rfl⟩ := rootResult_of_place hitem hr
      obtain ⟨results, hresults, hall, rfl⟩ := ih hrest htail
      refine ⟨alone :: results, mapM_cons_eq_ok.2 ⟨alone, results, halone, hresults, rfl⟩, ?_, ?_⟩
      · exact List.forall_mem_cons.2 ⟨hsplices, hall⟩
      · rw [List.flatMap_cons, Evaluated.elements_relocate]

/-- A list whose items have results is rendered. -/
theorem items_of_rootResults {items : List Json} {results : List Evaluated}
    (hr : items.mapM (rootResult · parameters o) = .ok results) (hs : ∀ r ∈ results, r.Splices)
    (start : Nat) :
    ∃ nodes, readItems start items = .ok nodes ∧ ∀ owner,
      evaluateItems (o.effective parameters) owner nodes (.ofParameters parameters)
        = .ok (results.flatMap Evaluated.elements) := by
  induction items generalizing start results with
  | nil =>
      cases hr
      exact ⟨[], rfl, fun _ => rfl⟩
  | cons item rest ih =>
      obtain ⟨alone, more, halone, hmore, rfl⟩ := mapM_cons_eq_ok.1 hr
      obtain ⟨hsplices, hall⟩ := List.forall_mem_cons.1 hs
      obtain ⟨n, hn, hvalue⟩ := place_of_rootResult halone (start + 1)
      obtain ⟨nodes, hnodes, hvalues⟩ := ih hmore hall (start + 1 + item.tokenCount + 1)
      refine ⟨n :: nodes, readItems_cons_eq_ok.2 ⟨n, nodes, hn, hnodes, rfl⟩, fun owner => ?_⟩
      simp only [evaluateItems, bind_eq_ok, itemsOf_eq_ok_iff]
      refine ⟨_, hvalue, _, ⟨hsplices, rfl⟩, _, hvalues owner, ?_⟩
      rw [Evaluated.elements_relocate, List.flatMap_cons]
      rfl

theorem rootResult_arr_eq_ok_iff {items : List Json} {r : Evaluated} :
    rootResult (.arr items) parameters o = .ok r ↔
      ∃ results, items.mapM (rootResult · parameters o) = .ok results ∧
        (∀ result ∈ results, result.Splices) ∧
        r = .plain (some (.arr (results.flatMap Evaluated.elements))) := by
  simp only [rootResult_eq_ok_iff, read_arr_eq_ok]
  constructor
  · rintro ⟨_, ⟨nodes, hn, rfl⟩, hr⟩
    simp only [evaluate, bind_eq_ok] at hr
    obtain ⟨values, hvalues, h⟩ := hr
    cases h
    obtain ⟨results, hresults, hall, rfl⟩ := rootResults_of_items hn hvalues
    exact ⟨results, hresults, hall, rfl⟩
  · rintro ⟨results, hresults, hall, rfl⟩
    obtain ⟨nodes, hn, hvalues⟩ := items_of_rootResults hresults hall (0 + 1)
    refine ⟨_, ⟨nodes, hn, rfl⟩, ?_⟩
    rw [evaluate, hvalues]
    rfl

/-! Objects -/

variable {written : String → String}

/-- Fields with their keys written in a way. -/
def spelled (written : String → String) (fields : Fields Json) : Fields Json :=
  fields.map fun field => (written field.1, field.2)

theorem spelled_id (fields : Fields Json) : spelled id fields = fields := List.map_id fields

/-- What is added under the first name leaves the other names free. -/
theorem names_fresh {name : String} {v : Json} {rest done : Fields Json}
    (hfresh : ∀ n ∈ Fields.names ((name, v) :: rest), n ∉ done.names)
    (hd : (Fields.names ((name, v) :: rest)).Nodup) (w : Value) :
    ∀ n ∈ rest.names, n ∉ Fields.names (done ++ (w.map fun x => (name, x)).toList) := by
  intro n hn hmem
  rw [Fields.names, List.map_append, List.mem_append] at hmem
  obtain hmem | hmem := hmem
  · exact hfresh n (List.mem_cons_of_mem _ hn) hmem
  · cases w with
    | none => cases hmem
    | some x =>
        obtain rfl := List.mem_singleton.1 hmem
        exact (List.nodup_cons.1 hd).1 hn

/-- The values of an object that is rendered have results of their own. -/
theorem rootResults_of_fields {fields done : Fields Json} {start : Nat} {owner : Node}
    {entries : List Entry} {r : Evaluated}
    (hk : ∀ name ∈ fields.names, StandsFor (written name) name) (hd : fields.names.Nodup)
    (hfresh : ∀ name ∈ fields.names, name ∉ done.names)
    (hn : readFields start (spelled written fields) = .ok entries)
    (hv : evaluateEntries (o.effective parameters) owner entries (.fields done)
      (.ofParameters parameters) = .ok r) :
    ∃ results, fields.mapM (fun field => rootResult field.2 parameters o) = .ok results ∧
      r = .plain (some (.obj (done ++ Evaluated.definedFields fields results))) := by
  -- The names in `done` are new to the entries that follow, so no field is replaced.
  induction fields generalizing start entries done with
  | nil =>
      cases hn
      cases hv
      refine ⟨[], rfl, ?_⟩
      rw [Evaluated.definedFields, List.zip_nil_left, List.filterMap_nil, List.append_nil]
      rfl
  | cons field rest ih =>
      obtain ⟨name, v⟩ := field
      obtain ⟨key, value, more, hkey, hvalue, hmore, rfl⟩ := (readFields_cons_eq_ok rfl rfl).1 hn
      obtain ⟨hname, hnames⟩ := List.forall_mem_cons.1 hk
      -- The key that was read is the one that stands for the name.
      obtain ⟨key', hkey', hstands⟩ := hname.readTextAt (start + 2)
      cases hkey.symm.trans hkey'
      rw [evaluateEntries_named (hstands _ _ _), bind_eq_ok] at hv
      obtain ⟨_, hr, hv⟩ := hv
      obtain ⟨alone, halone, rfl⟩ := rootResult_of_place hvalue hr
      have hnew : name ∉ done.names := hfresh name List.mem_cons_self
      rw [Collected.assign_of_not_mem hnew] at hv
      obtain ⟨results, hresults, rfl⟩ := ih hnames (List.nodup_cons.1 hd).2
        (names_fresh hfresh hd _) hmore hv
      refine ⟨alone :: results, mapM_cons_eq_ok.2 ⟨alone, results, halone, hresults, rfl⟩, ?_⟩
      rw [Evaluated.definedFields_cons, ← List.append_assoc]
      rfl

/-- An object whose values have results is rendered. -/
theorem fields_of_rootResults {fields done : Fields Json} {results : List Evaluated}
    (hk : ∀ name ∈ fields.names, StandsFor (written name) name) (hd : fields.names.Nodup)
    (hfresh : ∀ name ∈ fields.names, name ∉ done.names)
    (hr : fields.mapM (fun field => rootResult field.2 parameters o) = .ok results) (start : Nat) :
    ∃ entries, readFields start (spelled written fields) = .ok entries ∧ ∀ owner,
      evaluateEntries (o.effective parameters) owner entries (.fields done)
        (.ofParameters parameters)
          = .ok (.plain (some (.obj (done ++ Evaluated.definedFields fields results)))) := by
  induction fields generalizing start results done with
  | nil =>
      cases hr
      refine ⟨[], rfl, fun owner => ?_⟩
      rw [Evaluated.definedFields, List.zip_nil_left, List.filterMap_nil, List.append_nil]
      rfl
  | cons field rest ih =>
      obtain ⟨name, v⟩ := field
      obtain ⟨alone, more, halone, hmore, rfl⟩ := mapM_cons_eq_ok.1 hr
      obtain ⟨hname, hnames⟩ := List.forall_mem_cons.1 hk
      obtain ⟨key, hkey, hstands⟩ := hname.readTextAt (start + 2)
      obtain ⟨value, hvalue, hresult⟩ := place_of_rootResult halone _
      have hnew : name ∉ done.names := hfresh name List.mem_cons_self
      obtain ⟨entries, hentries, hrest⟩ := ih hnames (List.nodup_cons.1 hd).2
        (names_fresh hfresh hd _) hmore _
      have hcons := (readFields_cons_eq_ok rfl rfl).2
        ⟨key, value, entries, hkey, hvalue, hentries, rfl⟩
      refine ⟨_, hcons, fun owner => ?_⟩
      rw [evaluateEntries_named (hstands _ _ _), bind_eq_ok]
      refine ⟨_, hresult, ?_⟩
      rw [Collected.assign_of_not_mem hnew, Evaluated.definedFields_cons, ← List.append_assoc]
      exact hrest owner

theorem rootResult_obj_eq_ok_iff {fields : Fields Json} {r : Evaluated}
    (hk : ∀ name ∈ fields.names, StandsFor (written name) name) (hd : fields.names.Nodup) :
    rootResult (.obj (spelled written fields)) parameters o = .ok r ↔
      ∃ results, fields.mapM (fun field => rootResult field.2 parameters o) = .ok results ∧
        r = .plain (some (.obj (Evaluated.definedFields fields results))) := by
  have hfresh : ∀ name ∈ fields.names, name ∉ Fields.names ([] : Fields Json) := fun _ _ => nofun
  simp only [rootResult_eq_ok_iff, read_obj_eq_ok]
  constructor
  · rintro ⟨_, ⟨entries, hn, rfl⟩, hr⟩
    exact rootResults_of_fields hk hd hfresh hn hr
  · rintro ⟨results, hresults, rfl⟩
    obtain ⟨entries, hn, hvalue⟩ := fields_of_rootResults hk hd hfresh hresults (0 + 1)
    exact ⟨_, ⟨entries, hn, rfl⟩, hvalue _⟩

theorem expand_obj_eq_ok_iff {fields : Fields Json} {v : Json}
    (hk : ∀ name ∈ fields.names, StandsFor (written name) name) (hd : fields.names.Nodup) :
    expand (.obj (spelled written fields)) (.obj parameters) o = .ok v ↔
      ∃ results, fields.mapM (fun field => rootResult field.2 parameters o) = .ok results ∧
        v = .obj (Evaluated.definedFields fields results) := by
  simp only [expand_eq_ok_iff, rootResult_obj_eq_ok_iff hk hd]
  constructor
  · rintro ⟨_, ⟨results, hresults, rfl⟩, hv⟩
    exact ⟨results, hresults, hv⟩
  · rintro ⟨results, hresults, hv⟩
    exact ⟨_, ⟨results, hresults, rfl⟩, hv⟩

theorem expand_arr_eq_ok_iff {items : List Json} {v : Json} :
    expand (.arr items) (.obj parameters) o = .ok v ↔
      ∃ results, items.mapM (rootResult · parameters o) = .ok results ∧
        (∀ r ∈ results, r.Splices) ∧ v = .arr (results.flatMap Evaluated.elements) := by
  simp only [expand_eq_ok_iff, rootResult_arr_eq_ok_iff]
  constructor
  · rintro ⟨_, ⟨results, hresults, hall, rfl⟩, hv⟩
    exact ⟨results, hresults, hall, hv⟩
  · rintro ⟨results, hresults, hall, hv⟩
    exact ⟨_, ⟨results, hresults, hall, rfl⟩, hv⟩

/-- A string that is one interpolation comes to what that comes to, if it asks for no loop. -/
theorem rootResult_of_reads {n : Node} {s : String} {r : Evaluated}
    (h : Reads interpolation s.toList [] (IsNode n))
    (hr : evaluate (o.effective parameters) (.template [n] (.empty 0)) .value
      (.ofParameters parameters) = .ok r) (hl : r.signals.loop = none) :
    rootResult (.str s) parameters o = .ok r := by
  obtain ⟨m, hm, hbare⟩ := readText_of_interpolation h
  refine rootResult_eq_ok_iff.2 ⟨_, read_str_of_readText hm, evaluate_of_bare _ ?_ hl⟩
  rw [Node.bare_relocate, hbare, hr]

theorem rootResult_of_written {n : Node} {s : String} {r : Evaluated}
    (h : Writing.WritesInterpolation n s.toList)
    (hr : evaluate (o.effective parameters) (.template [n] (.empty 0)) .value
      (.ofParameters parameters) = .ok r) (hl : r.signals.loop = none) :
    rootResult (.str s) parameters o = .ok r :=
  rootResult_of_reads (reads_interpolation h []) hr hl

end Results

/-- Containers come to what their parts come to when each is compiled alone: an object with
plain keys to the defined values under those keys, a list to the elements of its items. -/
theorem expand_containers (parameters : Fields Json) (o : Options) :
    (∀ fields : Fields Json, fields.names.Nodup → (∀ name ∈ fields.names, IsPlain name) →
      ∀ v, expand (.obj fields) (.obj parameters) o = .ok v ↔
        ∃ results, fields.mapM (fun field => rootResult field.2 parameters o) = .ok results ∧
          v = .obj (Evaluated.definedFields fields results)) ∧
    ∀ items v, expand (.arr items) (.obj parameters) o = .ok v ↔
      ∃ results, items.mapM (rootResult · parameters o) = .ok results ∧
        (∀ r ∈ results, r.Splices) ∧ v = .arr (results.flatMap Evaluated.elements) := by
  refine ⟨fun fields hd hplain v => ?_, fun items v => expand_arr_eq_ok_iff⟩
  have hk : ∀ name ∈ fields.names, StandsFor (id name) name := fun name hname =>
    standsFor_self (hplain name hname)
  have hobj : expand (.obj (spelled id fields)) (.obj parameters) o = .ok v ↔ _ :=
    expand_obj_eq_ok_iff hk hd
  rwa [spelled_id] at hobj

/-- A field without a value and a list that is spread. -/
theorem expand_containers_spread :
    ∃ (fields : Fields Json) (items : List Json) (parameters : Fields Json),
      fields = [("a", .str "\x7b\x7b ... undefined \x7d\x7d"), ("b", .null)] ∧
      items = [.str "\x7b\x7b ... xs \x7d\x7d", .null] ∧
      parameters = [("xs", .arr [.bool true, .bool false])] ∧
      fields.names.Nodup ∧ (∀ name ∈ fields.names, IsPlain name) ∧
      expand (.obj fields) (.obj parameters) .none = .ok (.obj [("b", .null)]) ∧
      expand (.arr items) (.obj parameters) .none
        = .ok (.arr [.bool true, .bool false, .null]) := by
  have hb := gap_blank
  have hxs : Writing.WritesPath ⟨[⟨"xs", false⟩]⟩ "xs".toList :=
    .mk ⟨⟨'x', ['s'], rfl, rfl⟩, List.all_eq_true.1 rfl, by decide⟩ .nil (by decide)
  have hspread : Writing.WritesInterpolation (.interpolation true [] _ (.empty 0))
      "\x7b\x7b ... xs \x7d\x7d".toList :=
    .mk hb (.yes hb) .none (.operand (.atom (.path hxs))) hb .none
  have hmissing : Writing.WritesInterpolation (.interpolation true [] _ (.empty 0))
      "\x7b\x7b ... undefined \x7d\x7d".toList :=
    .mk hb (.yes hb) .none (.literal .undefined) hb .none
  let parameters : Fields Json := [("xs", .arr [.bool true, .bool false])]
  let fields : Fields Json := [("a", .str "\x7b\x7b ... undefined \x7d\x7d"), ("b", .null)]
  have hfields : fields.mapM (fun field => rootResult field.2 parameters .none)
      = .ok [⟨none, { spread := true }⟩, .plain (some .null)] :=
    mapM_cons_eq_ok.2 ⟨_, _, rootResult_of_written hmissing rfl rfl, rfl, rfl⟩
  have hitems : [.str "\x7b\x7b ... xs \x7d\x7d", .null].mapM (rootResult · parameters .none)
      = .ok [⟨some (.arr [.bool true, .bool false]), { spread := true }⟩, .plain (some .null)] :=
    mapM_cons_eq_ok.2 ⟨_, _, rootResult_of_written hspread rfl rfl, rfl, rfl⟩
  have hd : fields.names.Nodup := by decide
  have hplain : ∀ name ∈ fields.names, IsPlain name := by decide +kernel
  refine ⟨_, _, parameters, rfl, rfl, rfl, hd, hplain, ?_, ?_⟩
  · exact ((expand_containers parameters .none).1 _ hd hplain _).2 ⟨_, hfields, rfl⟩
  · refine ((expand_containers parameters .none).2 _ _).2 ⟨_, hitems, ?_, rfl⟩
    exact List.forall_mem_cons.2 ⟨fun _ => ⟨_, rfl⟩, List.forall_mem_singleton.2 nofun⟩

end Template
end JsonTemplate
