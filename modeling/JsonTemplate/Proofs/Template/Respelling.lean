import JsonTemplate.Proofs.Template.Containers

/-!
Documents whose strings stand for texts. Such a document is rendered to the document of
the texts, whatever the parameters, so a plain document is rendered to itself and a
document with all its strings in quotes to the one without them.
-/

namespace JsonTemplate

namespace Json

variable (written : String → String)

mutual

/-- A document with its strings, keys and values, written in a way. -/
def respell : Json → Json
  | str s => str (written s)
  | arr items => arr (respellItems items)
  | obj fields => obj (respellFields fields)
  | d => d

def respellItems : List Json → List Json
  | [] => []
  | item :: rest => respell item :: respellItems rest

def respellFields : List (String × Json) → List (String × Json)
  | [] => []
  | (name, value) :: rest => (written name, respell value) :: respellFields rest

end

mutual

theorem respell_id : (d : Json) → d.respell id = d
  | null | bool _ | num _ | str _ => rfl
  | arr items => congrArg arr (respellItems_id items)
  | obj fields => congrArg obj (respellFields_id fields)

theorem respellItems_id : (items : List Json) → respellItems id items = items
  | [] => rfl
  | item :: rest => by rw [respellItems, respell_id item, respellItems_id rest]

theorem respellFields_id : (fields : List (String × Json)) → respellFields id fields = fields
  | [] => rfl
  | (name, value) :: rest => by rw [respellFields, respell_id value, respellFields_id rest, id]

end

/-- The name of a field is one of the strings. -/
theorem exists_string_of_name {fields : Fields Json} {name : String} (h : name ∈ fields.names)
    (start : Nat) : ∃ p ∈ stringsFields start fields, p.2 = name := by
  induction fields generalizing start with
  | nil => cases h
  | cons field rest ih =>
      rw [stringsFields]
      obtain rfl | hrest := List.mem_cons.1 h
      · exact ⟨_, List.mem_append_left _ List.mem_cons_self, rfl⟩
      · obtain ⟨p, hp, rfl⟩ := ih hrest _
        exact ⟨p, List.mem_append_right _ hp, rfl⟩

end Json

namespace Evaluated

theorem elements_plain (items : List Json) :
    (items.map fun v => plain (some v)).flatMap elements = items := by
  rw [List.flatMap_map]
  exact List.flatMap_singleton' items

theorem definedFields_plain (fields : Fields Json) (alter : Json → Json) :
    definedFields (fields.map fun field => (field.1, alter field.2))
      (fields.map fun field => plain (some field.2)) = fields := by
  induction fields with
  | nil => rfl
  | cons field rest ih => rw [List.map_cons, List.map_cons, definedFields_cons, ih]; rfl

end Evaluated

namespace Template

open Rules

variable {written : String → String}

theorem respellFields_eq (fields : Fields Json) :
    Json.respellFields written fields
      = spelled written (fields.map fun field => (field.1, field.2.respell written)) := by
  induction fields with
  | nil => rfl
  | cons field rest ih => rw [Json.respellFields, ih]; rfl

variable {parameters : Fields Json} {o : Options}

mutual

theorem rootResult_respell (start : Nat) : (d : Json) → d.Distinct →
    (∀ p ∈ d.strings start, StandsFor (written p.2) p.2) →
    rootResult (d.respell written) parameters o = .ok (.plain (some d))
  | .null, _, _ | .bool _, _, _ | .num _, _, _ => rootResult_eq_ok_iff.2 ⟨_, rfl, rfl⟩
  | .str s, _, h => by
      obtain ⟨n, hn, hvalue⟩ := (h (start, s) List.mem_cons_self).readTextAt 0
      rw [Json.respell, rootResult_eq_ok_iff, Rules.read]
      exact ⟨n, under_eq_ok.2 hn, hvalue _ _ _⟩
  | .arr items, hd, h => by
      refine rootResult_arr_eq_ok_iff.2 ⟨_, rootResults_respell (start + 1) items hd h, ?_, ?_⟩
      · exact List.forall_mem_map.2 fun _ _ => nofun
      · rw [Evaluated.elements_plain]
  | .obj fields, hd, h => by
      have hnames : Fields.names (fields.map fun field => (field.1, field.2.respell written))
          = Fields.names fields := by rw [Fields.names, List.map_map]; rfl
      have hk : ∀ name ∈ Fields.names fields, StandsFor (written name) name := fun name hname =>
        let ⟨p, hp, hs⟩ := Json.exists_string_of_name hname (start + 1)
        hs ▸ h p hp
      rw [Json.respell, respellFields_eq, rootResult_obj_eq_ok_iff (hnames ▸ hk) (hnames ▸ hd.1)]
      refine ⟨_, fieldResults_respell (start + 1) fields hd.2 h, ?_⟩
      rw [Evaluated.definedFields_plain]

theorem rootResults_respell (start : Nat) : (items : List Json) → Json.DistinctItems items →
    (∀ p ∈ Json.stringsItems start items, StandsFor (written p.2) p.2) →
    (Json.respellItems written items).mapM (rootResult · parameters o)
      = .ok (items.map fun v => .plain (some v))
  | [], _, _ => rfl
  | item :: rest, hd, h => by
      obtain ⟨hitem, hrest⟩ := List.forall_mem_append.1 h
      exact mapM_cons_eq_ok.2 ⟨_, _, rootResult_respell _ item hd.1 hitem,
        rootResults_respell _ rest hd.2 hrest, rfl⟩

theorem fieldResults_respell (start : Nat) : (fields : Fields Json) → Json.DistinctFields fields →
    (∀ p ∈ Json.stringsFields start fields, StandsFor (written p.2) p.2) →
    (fields.map fun field => (field.1, field.2.respell written)).mapM
        (fun field => rootResult field.2 parameters o)
      = .ok (fields.map fun field => .plain (some field.2))
  | [], _, _ => rfl
  | (name, value) :: rest, hd, h => by
      obtain ⟨hfield, hrest⟩ := List.forall_mem_append.1 h
      have hvalue := (List.forall_mem_cons.1 hfield).2
      exact mapM_cons_eq_ok.2 ⟨_, _, rootResult_respell _ value hd.1 hvalue,
        fieldResults_respell _ rest hd.2 hrest, rfl⟩

end

theorem expand_respell {d : Json} (hd : d.Distinct)
    (h : ∀ p ∈ d.strings 0, StandsFor (written p.2) p.2) :
    expand (d.respell written) (.obj parameters) o = .ok d :=
  expand_eq_ok_iff.2 ⟨_, rootResult_respell 0 d hd h, rfl⟩

/-- Whatever the strings of a document hold, it is rendered from them in quotes. -/
theorem expand_quoted {d : Json} (hd : d.Distinct) {quote : Char}
    (hq : quote = '"' ∨ quote = '\'') (parameters : Fields Json) (o : Options) :
    expand (d.respell (quotedText quote)) (.obj parameters) o = .ok d :=
  expand_respell hd fun p _ => standsFor_quotedText hq p.2

/-- A key with a quote, and a text with braces that ends in a backslash. -/
theorem expand_quoted_braces :
    ∃ d written : Json,
      d = .obj [("it's", .arr [.str "\x7b\x7b a \x7d\x7d\n\\", .str "", .null])] ∧
      written = .obj [("\x7b\x7b 'it\\'s' \x7d\x7d",
        .arr [.str "\x7b\x7b '\x7b\x7b a \x7d\x7d\n\\\\' \x7d\x7d",
          .str "\x7b\x7b '' \x7d\x7d", .null])] ∧
      written = d.respell (quotedText '\'') ∧ d.Distinct ∧
      expand written (.obj [("a", .null)]) .none = .ok d := by
  have hkey : quotedText '\'' "it's" = "\x7b\x7b 'it\\'s' \x7d\x7d" := by decide +kernel
  have hbraces : quotedText '\'' "\x7b\x7b a \x7d\x7d\n\\"
      = "\x7b\x7b '\x7b\x7b a \x7d\x7d\n\\\\' \x7d\x7d" := by decide +kernel
  have hempty : quotedText '\'' "" = "\x7b\x7b '' \x7d\x7d" := by decide +kernel
  let d : Json := .obj [("it's", .arr [.str "\x7b\x7b a \x7d\x7d\n\\", .str "", .null])]
  have hd : d.Distinct := ⟨by decide, ⟨trivial, trivial, trivial, trivial⟩, trivial⟩
  refine ⟨d, d.respell (quotedText '\''), rfl, ?_, rfl, hd, expand_quoted hd (.inr rfl) _ _⟩
  rw [← hkey, ← hbraces, ← hempty]
  rfl

/-- A document whose strings are all plain is rendered to itself. -/
theorem expand_plain {d : Json} (hd : d.Distinct) (h : ∀ p ∈ d.strings 0, IsPlain p.2)
    (parameters : Fields Json) (o : Options) : expand d (.obj parameters) o = .ok d := by
  have hself : expand (d.respell id) (.obj parameters) o = .ok d :=
    expand_respell hd fun p hp => standsFor_self (h p hp)
  rwa [Json.respell_id] at hself

/-- Empty strings and containers, and text with closing braces. -/
theorem expand_plain_empty :
    ∃ d : Json,
      d = .obj [("", .arr [.str "", .arr [], .obj []]),
        ("\x7b a \x7d\x7d", .num (.int 2 (by decide)))] ∧
      d.Distinct ∧ (∀ p ∈ d.strings 0, IsPlain p.2) ∧
      expand d (.obj [("a", .null)]) ⟨true⟩ = .ok d := by
  let d : Json :=
    .obj [("", .arr [.str "", .arr [], .obj []]), ("\x7b a \x7d\x7d", .num (.int 2 (by decide)))]
  have hd : d.Distinct :=
    ⟨by decide, ⟨trivial, trivial, ⟨.nil, trivial⟩, trivial⟩, trivial, trivial⟩
  have hplain : ∀ p ∈ d.strings 0, IsPlain p.2 := by decide +kernel
  exact ⟨d, rfl, hd, hplain, expand_plain hd hplain _ _⟩

end Template
end JsonTemplate
