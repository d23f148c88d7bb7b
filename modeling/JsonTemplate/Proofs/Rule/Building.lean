import JsonTemplate.Rule.Session

/-!
How rules get onto a bench. A described rule is one symbol behind the symbols of its parts
(`build?_eq`), so what holds of a bench after a build is shown for one symbol at a time.
A build keeps the names and the symbols that are there (`build?_grows`).
-/

namespace JsonTemplate

namespace Description

def parts : Description → List Description
  | sequence parts _ | oneOf parts => parts
  | many item | maybe item | required item _ | named _ item | map item _ => [item]
  | except target excluded => target :: excluded
  | existing _ | tag _ | char _ | text _ | keyword _ | textUntil _ | pattern _ | later
  | commit _ => []

/-- A reference, or a rule of its own that is made of its parts. -/
theorem induct {motive : Description → Prop} (existing : ∀ name, motive (.existing name))
    (made : ∀ d, (∀ name, d ≠ .existing name) → (∀ part ∈ d.parts, motive part) → motive d)
    (d : Description) : motive d := by
  refine @Description.rec motive (fun ds => ∀ d ∈ ds, motive d) existing ?_ ?_ ?_ ?_ ?_ ?_ ?_ ?_
    ?_ ?_ ?_ ?_ ?_ ?_ ?_ ?_ ?nil ?cons d
  case nil => simp
  case cons => exact fun _ _ hhead htail => List.forall_mem_cons.2 ⟨hhead, htail⟩
  all_goals
    intros
    refine made _ (by simp) ?_
    simp_all [parts]

end Description

/-! Symbols that are mentioned -/

variable {ν β : Type}

namespace Rule

mutual

def refs : Rule ν β → List ν
  | tag _ | scalar _ | chars _ | commit _ => []
  | sequence parts _ => refsAll parts
  | oneOf alternatives => refsAll alternatives
  | many item | maybe item | required item _ | map item _ | named _ item => item.refs
  | ref symbol => [symbol]

def refsAll : List (Rule ν β) → List ν
  | [] => []
  | r :: rest => r.refs ++ refsAll rest

end

theorem mem_refsAll {rules : List (Rule ν β)} {symbol : ν} :
    symbol ∈ refsAll rules ↔ ∃ r ∈ rules, symbol ∈ r.refs := by
  induction rules with
  | nil => simp [refsAll]
  | cons r rest ih => simp [refsAll, ih]

@[simp] theorem refsAll_map_ref (symbols : List ν) :
    refsAll (symbols.map (ref : ν → Rule ν β)) = symbols := by
  induction symbols with
  | nil => rfl
  | cons symbol rest ih => simp [refsAll, refs, ih]

end Rule

def Binding.refs : Binding ν β → List ν
  | .rule r => r.refs
  | .forward target => target.toList
  | .view target _ => [target]
  | .spoiled => []

namespace Workbench

/-- What a description stands for, given the symbols of its parts. -/
def binding (b : Workbench) : Description → List Nat → Binding Nat Built
  | .tag t, _ => .rule (.tag t)
  | .char c, _ => .rule (.char c)
  | .text s, _ => .rule (.text s)
  | .keyword s, _ => .rule (.keyword s)
  | .textUntil stop, _ => .rule (.textUntil stop)
  | .pattern width, _ => .rule (.pattern width)
  | .commit message, _ => .rule (.commit message)
  | .sequence _ maker, symbols => .rule (.sequence (symbols.map .ref) (maker.map Maker.build))
  | .oneOf _, symbols => .rule (.oneOf (symbols.map .ref))
  | .many _, item :: _ => .rule (.many (.ref item))
  | .maybe _, item :: _ => .rule (.maybe (.ref item))
  | .required _ reason, item :: _ => .rule (.required (.ref item) (placedReason reason))
  | .named name _, item :: _ => .rule (.named name (.ref item))
  | .map _ maker, item :: _ =>
      .rule (.map (.ref item) fun parsed => maker.build parsed.1 [parsed])
  | .except _ _, target :: excluded => b.exclusion target excluded
  | _, _ => .forward none

/-- A described rule becomes the symbol behind its parts. -/
theorem build?_eq (b : Workbench) (d : Description) (h : ∀ name, d ≠ .existing name) :
    b.build? d
      = (b.buildAll? d.parts).map fun built => built.2.add (built.2.binding d built.1) := by
  have hitem (item : Description) : b.buildAll? [item]
      = (b.build? item).map fun built => ([built.1], built.2) := by
    rw [buildAll?]
    cases b.build? item <;> rfl
  cases d with
  | existing name => exact absurd rfl (h name)
  | tag _ | char _ | text _ | keyword _ | textUntil _ | pattern _ | later | commit _ =>
      rw [build?, Description.parts, buildAll?]
      rfl
  | sequence parts _ | oneOf parts =>
      rw [build?, Description.parts]
      cases b.buildAll? parts <;> rfl
  | many item | maybe item | required item _ | named _ item | map item _ =>
      rw [build?, Description.parts, hitem]
      cases b.build? item <;> rfl
  | except target excluded =>
      rw [build?, Description.parts, buildAll?]
      cases b.build? target with
      | none => rfl
      | some built =>
          simp only [Option.bind_eq_bind, Option.bind_some]
          cases built.2.buildAll? excluded <;> rfl

theorem build?_made {b b' : Workbench} {d : Description} {symbol : Nat}
    (hd : ∀ name, d ≠ .existing name) (h : b.build? d = some (symbol, b')) :
    ∃ symbols c, b.buildAll? d.parts = some (symbols, c) ∧ symbol = c.bindings.size ∧
      b' = (c.add (c.binding d symbols)).2 := by
  rw [b.build?_eq d hd] at h
  obtain ⟨⟨symbols, c⟩, hparts, hadd⟩ := Option.map_eq_some_iff.1 h
  cases hadd
  exact ⟨symbols, c, hparts, rfl, rfl⟩

theorem buildAll?_cons {b b' : Workbench} {d : Description} {rest : List Description}
    {symbols : List Nat} (h : b.buildAll? (d :: rest) = some (symbols, b')) :
    ∃ symbol c more, b.build? d = some (symbol, c) ∧ c.buildAll? rest = some (more, b') ∧
      symbols = symbol :: more := by
  rw [buildAll?] at h
  obtain ⟨⟨symbol, c⟩, hd, h⟩ := Option.bind_eq_some_iff.1 h
  obtain ⟨⟨more, c'⟩, hrest, h⟩ := Option.bind_eq_some_iff.1 h
  cases h
  exact ⟨symbol, c, more, hd, hrest, rfl⟩

/-! Growth -/

/-- The second bench has the names and the symbols of the first, and perhaps more that are
not spoiled. -/
structure Grows (b c : Workbench) : Prop where
  names : c.names = b.names
  size_le : b.bindings.size ≤ c.bindings.size
  grammar : ∀ symbol < b.bindings.size, c.grammar symbol = b.grammar symbol
  unspoiled : ∀ symbol, b.bindings.size ≤ symbol → c.grammar symbol ≠ .spoiled

/-- No symbol and no name leads away from the bench. -/
structure Closed (b : Workbench) : Prop where
  names : ∀ entry ∈ b.names, entry.2 < b.bindings.size
  refs : ∀ symbol, ∀ s ∈ (b.grammar symbol).refs, s < b.bindings.size

theorem grammar_of_size_le (b : Workbench) {symbol : Nat} (h : b.bindings.size ≤ symbol) :
    b.grammar symbol = .forward none := by
  simp only [grammar, Array.getElem?_eq_none h, Option.getD_none]

theorem Grows.refl (b : Workbench) : b.Grows b :=
  ⟨rfl, Nat.le_refl _, fun _ _ => rfl, fun _ hs => b.grammar_of_size_le hs ▸ nofun⟩

theorem Grows.trans {a b c : Workbench} (h : a.Grows b) (h' : b.Grows c) : a.Grows c := by
  refine ⟨h'.names.trans h.names, Nat.le_trans h.size_le h'.size_le, fun symbol hs => ?_,
    fun symbol hs => ?_⟩
  · rw [h'.grammar symbol (Nat.lt_of_lt_of_le hs h.size_le), h.grammar symbol hs]
  · by_cases hlt : symbol < b.bindings.size
    · rw [h'.grammar symbol hlt]
      exact h.unspoiled symbol hs
    · exact h'.unspoiled symbol (Nat.le_of_not_lt hlt)

@[simp] theorem size_add (b : Workbench) (x : Binding Nat Built) :
    (b.add x).2.bindings.size = b.bindings.size + 1 := Array.size_push x

theorem grammar_add (b : Workbench) (x : Binding Nat Built) (symbol : Nat) :
    (b.add x).2.grammar symbol = if symbol = b.bindings.size then x else b.grammar symbol := by
  simp only [grammar, add, Array.getElem?_push]
  split <;> rfl

theorem grows_add (b : Workbench) {x : Binding Nat Built} (hx : x ≠ .spoiled) :
    b.Grows (b.add x).2 := by
  refine ⟨rfl, by simp, fun symbol hs => ?_, fun symbol hs => ?_⟩
  · rw [grammar_add, if_neg (Nat.ne_of_lt hs)]
  · rw [grammar_add]
    split
    · exact hx
    · exact b.grammar_of_size_le hs ▸ nofun

theorem Closed.add {b : Workbench} (h : b.Closed) {x : Binding Nat Built}
    (hx : ∀ s ∈ x.refs, s < b.bindings.size) : (b.add x).2.Closed := by
  refine ⟨fun entry he => ?_, fun symbol s hs => ?_⟩
  · have := h.names entry he
    rw [size_add]
    omega
  · rw [grammar_add] at hs
    rw [size_add]
    split at hs
    · exact Nat.lt_succ_of_lt (hx s hs)
    · exact Nat.lt_succ_of_lt (h.refs symbol s hs)

theorem Closed.find?_lt {b : Workbench} (hb : b.Closed) {name : String} {symbol : Nat}
    (h : b.find? name = some symbol) : symbol < b.bindings.size := by
  obtain ⟨entry, hentry, rfl⟩ := Option.map_eq_some_iff.1 h
  exact hb.names entry (List.mem_of_find?_eq_some hentry)

/-- A described rule refers to its parts, or to an alternative that it takes over. -/
theorem mem_of_mem_refs_binding {b : Workbench} {d : Description} {symbols : List Nat} {s : Nat}
    (h : s ∈ (b.binding d symbols).refs) :
    s ∈ symbols ∨ ∃ symbol, s ∈ (b.grammar symbol).refs := by
  cases d with
  | existing _ | tag _ | char _ | text _ | keyword _ | textUntil _ | pattern _ | later | commit _ =>
      cases h
  | sequence _ _ | oneOf _ => exact .inl (by simpa [binding, Binding.refs, Rule.refs] using h)
  | many _ | maybe _ | required _ _ | named _ _ | map _ _ =>
      cases symbols with
      | nil => cases h
      | cons item _ =>
          obtain rfl : s = item := by simpa [binding, Binding.refs, Rule.refs] using h
          exact .inl List.mem_cons_self
  | except _ _ =>
      cases symbols with
      | nil => cases h
      | cons target excluded =>
          simp only [binding, exclusion] at h
          split at h
          · next alternatives ht =>
              obtain ⟨r, hr, hs⟩ := Rule.mem_refsAll.1 h
              refine .inr ⟨target, ?_⟩
              rw [ht]
              exact Rule.mem_refsAll.2 ⟨r, (List.mem_filter.1 hr).1, hs⟩
          · obtain rfl := List.mem_singleton.1 h
            exact .inl List.mem_cons_self

theorem binding_ne_spoiled (b : Workbench) (d : Description) (symbols : List Nat) :
    b.binding d symbols ≠ .spoiled := by
  cases d with
  | existing _ | tag _ | char _ | text _ | keyword _ | textUntil _ | pattern _ | later | commit _
  | sequence _ _ | oneOf _ => nofun
  | many _ | maybe _ | required _ _ | named _ _ | map _ _ => cases symbols <;> nofun
  | except _ _ =>
      cases symbols with
      | nil => nofun
      | cons target _ =>
          simp only [binding, exclusion]
          split <;> nofun

theorem buildAll?_grows {ds : List Description} {b c : Workbench} {symbols : List Nat}
    (ih : ∀ d ∈ ds, ∀ (b c : Workbench) symbol, b.Closed → b.build? d = some (symbol, c) →
      b.Grows c ∧ c.Closed ∧ symbol < c.bindings.size)
    (hb : b.Closed) (h : b.buildAll? ds = some (symbols, c)) :
    b.Grows c ∧ c.Closed ∧ ∀ symbol ∈ symbols, symbol < c.bindings.size := by
  induction ds generalizing b symbols with
  | nil =>
      cases h
      exact ⟨.refl _, hb, nofun⟩
  | cons d rest ihrest =>
      obtain ⟨symbol, b', more, hd, hrest, rfl⟩ := buildAll?_cons h
      obtain ⟨hg, hb', hs⟩ := ih d List.mem_cons_self b b' symbol hb hd
      obtain ⟨hg', hc, hmore⟩ := ihrest (fun d hd => ih d (List.mem_cons_of_mem _ hd)) hb' hrest
      refine ⟨hg.trans hg', hc, fun s hmem => ?_⟩
      obtain rfl | hmem := List.mem_cons.1 hmem
      · exact Nat.lt_of_lt_of_le hs hg'.size_le
      · exact hmore s hmem

/-- A build adds to the bench, and what it adds mentions symbols of the bench. -/
theorem build?_grows {d : Description} {b c : Workbench} {symbol : Nat} (hb : b.Closed)
    (h : b.build? d = some (symbol, c)) :
    b.Grows c ∧ c.Closed ∧ symbol < c.bindings.size := by
  induction d using Description.induct generalizing b c symbol with
  | existing name =>
      obtain ⟨s, hs, heq⟩ := Option.map_eq_some_iff.1 h
      cases heq
      exact ⟨.refl b, hb, hb.find?_lt hs⟩
  | made d hd ih =>
      obtain ⟨symbols, c', hparts, rfl, rfl⟩ := build?_made hd h
      obtain ⟨hg, hc, hsymbols⟩ := buildAll?_grows (fun d hmem _ _ _ => ih d hmem) hb hparts
      refine ⟨hg.trans (c'.grows_add (c'.binding_ne_spoiled d symbols)),
        hc.add fun s hs => ?_, by simp⟩
      obtain hmem | ⟨symbol, hs⟩ := mem_of_mem_refs_binding hs
      · exact hsymbols s hmem
      · exact hc.refs symbol s hs

end Workbench
end JsonTemplate
