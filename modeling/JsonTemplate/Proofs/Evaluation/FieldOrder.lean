import JsonTemplate.Proofs.Evaluation.Merging
import JsonTemplate.Template
import Mathlib.Data.List.Induction

/-!
The order of the fields of an object. Fields come in the order in which their names were first
inserted, as long as no removal takes a field from in front of two others: the last field fills
the hole, and is then in front of those that were there before it.
-/

namespace JsonTemplate

namespace Contribution

/-- The names that are inserted, or written again where they are. -/
def inserts : Contribution → List String
  | .field name (some _) => [name]
  | .spread (some (.obj fields)) => Fields.names fields
  | _ => []

/-- A name that was inserted is given an undefined value later on. -/
def Removed (cs : List Contribution) (k : String) : Prop :=
  ∃ pre post, cs = pre ++ .field k none :: post ∧ k ∈ pre.flatMap inserts

/-- Every field that is removed has at most one field behind it. -/
def RemovesLast (cs : List Contribution) : Prop :=
  ∀ pre k post, cs = pre ++ .field k none :: post →
    ∀ before v after, pre.foldl onto ([] : Fields Json) = before ++ (k, v) :: after →
      after.length ≤ 1

end Contribution

/-- Fields whose names were inserted in the order of `all`, by now those in `seen`: the names
that are gone for good apart, they stand in that order. -/
structure Fields.InOrder (all : List String) (gone : String → Prop) (seen : List String)
    (fields : Fields Json) : Prop where
  nodup : fields.names.Nodup
  known : ∀ k ∈ fields.names, k ∈ seen
  lost : ∀ k ∈ seen, k ∉ fields.names → gone k
  ordered : fields.names.Pairwise fun a b =>
    ¬ gone a → ¬ gone b → all.idxOf a < all.idxOf b

namespace Fields.InOrder

variable {all seen : List String} {gone : String → Prop} {fields : Fields Json} {name : String}

theorem nil (all : List String) (gone : String → Prop) : InOrder all gone [] [] where
  nodup := .nil
  known := nofun
  lost := nofun
  ordered := .nil

/-- A name that is inserted for the first time comes behind all that were. -/
theorem idxOf_lt {a : String} (hp : seen ++ [name] <+: all) (ha : a ∈ seen)
    (hn : name ∉ seen) : all.idxOf a < all.idxOf name := by
  obtain ⟨later, rfl⟩ := hp
  have hfirst : (seen ++ [name] ++ later).idxOf a = seen.idxOf a := by
    rw [List.append_assoc, List.idxOf_append_of_mem ha]
  have hsecond : (seen ++ [name] ++ later).idxOf name = seen.length := by
    rw [List.append_assoc, List.idxOf_append_of_notMem hn, List.singleton_append,
      List.idxOf_cons_self, Nat.add_zero]
  rw [hfirst, hsecond]
  exact List.idxOf_lt_length_of_mem ha

theorem insert (h : InOrder all gone seen fields) (hp : seen ++ [name] <+: all) (v : Json) :
    InOrder all gone (seen ++ [name]) (fields.insert name v) := by
  by_cases hm : name ∈ fields.names
  · have hnames : (fields.insert name v).names = fields.names := by
      rw [names_insert, if_pos hm]
    refine ⟨hnames ▸ h.nodup, ?_, ?_, hnames ▸ h.ordered⟩
    · rw [hnames]
      exact fun k hk => List.mem_append_left _ (h.known k hk)
    · rw [hnames]
      intro k hk hlost
      obtain hseen | hlast := List.mem_append.1 hk
      · exact h.lost k hseen hlost
      · cases List.mem_singleton.1 hlast
        exact absurd hm hlost
  · have hnames : (fields.insert name v).names = fields.names ++ [name] := by
      rw [names_insert, if_neg hm]
    refine ⟨nodup_names_insert fields name v h.nodup, ?_, ?_, ?_⟩
    · rw [hnames]
      intro k hk
      obtain hknown | hlast := List.mem_append.1 hk
      · exact List.mem_append_left _ (h.known k hknown)
      · exact List.mem_append_right _ hlast
    · rw [hnames]
      intro k hk hlost
      obtain ⟨hout, hother⟩ := not_or.1 (mt List.mem_append.2 hlost)
      obtain hseen | hlast := List.mem_append.1 hk
      · exact h.lost k hseen hout
      · exact absurd hlast hother
    · rw [hnames]
      refine List.pairwise_append.2 ⟨h.ordered, List.pairwise_singleton _ _, ?_⟩
      intro a ha b hb _ hstays
      cases List.mem_singleton.1 hb
      -- A name that is back after its removal is gone for good all the same.
      have hnew : name ∉ seen := fun hseen => hstays (h.lost name hseen hm)
      exact idxOf_lt hp (h.known a ha) hnew

theorem insertAll {new : Fields Json} (h : InOrder all gone seen fields)
    (hp : seen ++ new.names <+: all) :
    InOrder all gone (seen ++ new.names) (fields.insertAll new) := by
  induction new generalizing seen fields with
  | nil => exact (List.append_nil seen).symm ▸ h
  | cons field rest ih =>
      have hsplit : seen ++ names (field :: rest) = seen ++ [field.1] ++ names rest := by
        rw [List.append_assoc]
        rfl
      rw [hsplit] at hp ⊢
      exact ih (h.insert ((List.prefix_append _ _).trans hp) field.2) hp

/-- A removal with at most one field behind it takes a name out and leaves the others. -/
theorem erase (h : InOrder all gone seen fields) (hgone : name ∈ seen → gone name)
    (hlast : ∀ before v after, fields = before ++ (name, v) :: after → after.length ≤ 1) :
    InOrder all gone seen (fields.erase name) := by
  by_cases hm : name ∈ fields.names
  · obtain ⟨⟨k, v⟩, hfield, rfl⟩ := List.mem_map.1 hm
    obtain ⟨before, after, rfl⟩ := List.append_of_mem hfield
    have hnames := (names_erase_split_iff h.nodup).2 (hlast before v after rfl)
    have hsub : (names (before ++ after)).Sublist (names (before ++ (k, v) :: after)) :=
      ((List.sublist_cons_self _ after).append_left before).map Prod.fst
    refine ⟨nodup_names_erase h.nodup _, ?_, ?_, ?_⟩
    · rw [hnames]
      exact fun k hk => h.known k (hsub.mem hk)
    · rw [hnames]
      intro other hseen hlost
      by_cases hother : other ∈ names (before ++ (k, v) :: after)
      · simp only [names, List.map_append, List.map_cons, List.mem_append, List.mem_cons]
          at hother hlost
        obtain hbefore | rfl | hafter := hother
        · exact absurd (.inl hbefore) hlost
        · exact hgone hseen
        · exact absurd (.inr hafter) hlost
      · exact h.lost other hseen hother
    · rw [hnames]
      exact h.ordered.sublist hsub
  · rwa [erase_of_not_mem hm]

end Fields.InOrder

namespace Contribution

variable {cs done : List Contribution} {c : Contribution}

open Fields (InOrder)

theorem inOrder_onto {all seen : List String} {gone : String → Prop} {fields : Fields Json}
    (h : InOrder all gone seen fields) (hp : seen ++ c.inserts <+: all)
    (hgone : ∀ k, c = .field k none → k ∈ seen → gone k)
    (hlast : ∀ k, c = .field k none →
      ∀ before v after, fields = before ++ (k, v) :: after → after.length ≤ 1) :
    InOrder all gone (seen ++ c.inserts) (c.onto fields) := by
  cases c with
  | field name v =>
      cases v with
      | none => exact (List.append_nil seen).symm ▸ h.erase (hgone name rfl) (hlast name rfl)
      | some v => exact h.insert hp v
  | spread v =>
      match v with
      | some (.obj new) => exact h.insertAll hp
      | none | some .null | some (.bool _) | some (.num _) | some (.str _) | some (.arr _) =>
          exact (List.append_nil seen).symm ▸ h

/-- The fields after the first contributions of a run stand in the order of the whole run. -/
theorem inOrder_foldl_onto (hl : RemovesLast cs) (hdone : done <+: cs) :
    InOrder (cs.flatMap inserts) (Removed cs) (done.flatMap inserts) (done.foldl onto []) := by
  induction done using List.reverseRecOn with
  | nil => exact .nil _ _
  | append_singleton init c ih =>
      obtain ⟨post, rfl⟩ := hdone
      have hinit : init <+: init ++ [c] ++ post :=
        (List.prefix_append init [c]).trans (List.prefix_append _ post)
      have hseen : (init ++ [c]).flatMap inserts = init.flatMap inserts ++ c.inserts := by
        rw [List.flatMap_append, List.flatMap_singleton]
      rw [hseen, List.foldl_append]
      refine inOrder_onto (ih hinit) ?_ ?_ ?_
      · rw [List.flatMap_append, hseen]
        exact List.prefix_append _ _
      · rintro k rfl hk
        exact ⟨init, post, List.append_cons .. ▸ rfl, hk⟩
      · rintro k rfl
        exact hl init k post (List.append_cons .. ▸ rfl)

end Contribution

namespace Evaluation

variable {undefinedAsNull : Bool} {s : Scope} {entries : List Entry} {cs : List Contribution}

open Entry (Contributes)
open Contribution (Removed RemovesLast inserts onto)

/-- The fields of an object stand in the order in which their names were first inserted, if no
removal takes one from in front of two others. One more field without a value leaves the order
alone where its name is absent; elsewhere the last field fills the hole, and the order of the
others is kept only where at most one of them was behind it. -/
theorem field_order (span : Span) (role : Role)
    (h : List.Forall₂ (Contributes undefinedAsNull s) entries cs)
    (hm : ∀ c ∈ cs, ¬ c.IsArray ∧ ¬ c.IsScalar) :
    ∃ fields, evaluate undefinedAsNull (.object entries span) role s
        = .ok (.plain (some (.obj fields))) ∧
      (RemovesLast cs → (Fields.names fields).Pairwise fun a b =>
        ¬ Removed cs a → ¬ Removed cs b →
          (cs.flatMap inserts).idxOf a < (cs.flatMap inserts).idxOf b) ∧
      ∀ e k, Contributes undefinedAsNull s e (.field k none) →
        ∃ fewer, evaluate undefinedAsNull (.object (entries ++ [e]) span) role s
            = .ok (.plain (some (.obj fewer))) ∧
          (k ∉ Fields.names fields → fewer = fields) ∧
          ∀ before v after, fields = before ++ (k, v) :: after →
            fewer = before ++ (after.getLast?.toList ++ after.dropLast) ∧
            (Fields.names fewer = Fields.names (before ++ after) ↔ after.length ≤ 1) := by
  have harray : ∀ c ∈ cs, ¬ c.IsArray := fun c hc => (hm c hc).1
  have hscalar : ∀ c ∈ cs, ¬ c.IsScalar := fun c hc => (hm c hc).2
  have hnone : (Fields.names ([] : Fields Json)).Nodup := .nil
  have hd := Contribution.nodup_names_foldl_onto hnone cs
  refine ⟨_, evaluate_fields span role h harray hscalar,
    fun hl => (Contribution.inOrder_foldl_onto hl (List.prefix_refl cs)).ordered, ?_⟩
  intro e k he
  have hmore : List.Forall₂ (Contributes undefinedAsNull s) (entries ++ [e])
      (cs ++ [.field k none]) := List.rel_append h (.cons he .nil)
  have hevaluated := evaluate_fields span role hmore
    (List.forall_mem_append.2 ⟨harray, List.forall_mem_singleton.2 nofun⟩)
    (List.forall_mem_append.2 ⟨hscalar, List.forall_mem_singleton.2 nofun⟩)
  rw [List.foldl_append] at hevaluated
  refine ⟨_, hevaluated, Fields.erase_of_not_mem, fun before v after hfields => ?_⟩
  rw [hfields] at hd ⊢
  exact ⟨Fields.erase_split hd, Fields.names_erase_split_iff hd⟩

/-- The last name is removed and the order stays; then the first of three is. -/
theorem field_order_removed :
    ∃ (p : Span) (s : Scope) (field : String → Node → Entry) (cs : List Contribution)
        (fewer : Fields Json),
      p = .empty 0 ∧ s = .ofParameters [] ∧
      field = (fun name value => .mk (.template [.text name p] p) value p) ∧
      cs = [.field "a" (some .null), .field "d" (some .null), .field "d" none,
        .field "b" (some .null), .field "c" (some .null)] ∧
      RemovesLast cs ∧
      evaluate false (.object [field "a" (.null p), field "d" (.null p), field "d" (.undefined p),
          field "b" (.null p), field "c" (.null p)] p) .value s
        = .ok (.plain (some (.obj [("a", .null), ("b", .null), ("c", .null)]))) ∧
      (["a", "b", "c"].Pairwise fun a b => ¬ Removed cs a → ¬ Removed cs b →
        (cs.flatMap inserts).idxOf a < (cs.flatMap inserts).idxOf b) ∧
      evaluate false (.object [field "a" (.null p), field "d" (.null p), field "d" (.undefined p),
          field "b" (.null p), field "c" (.null p), field "a" (.undefined p)] p) .value s
        = .ok (.plain (some (.obj fewer))) ∧
      fewer = [("c", .null), ("b", .null)] ∧
      (Fields.names fewer = ["b", "c"] ↔ [("b", Json.null), ("c", .null)].length ≤ 1) := by
  let p : Span := .empty 0
  let s : Scope := .ofParameters []
  have hset : ∀ name, Contributes false s (.mk (.template [.text name p] p) (.null p) p)
      (.field name (some .null)) := fun name => contributes_text rfl name p p p
  have hunset : ∀ name, Contributes false s (.mk (.template [.text name p] p) (.undefined p) p)
      (.field name none) := fun name => contributes_text rfl name p p p
  have hlast : RemovesLast [.field "a" (some .null), .field "d" (some .null), .field "d" none,
      .field "b" (some .null), .field "c" (some .null)] := by
    intro pre k post hcs before v after hfields
    obtain _ | ⟨_, _ | ⟨_, _ | ⟨_, _ | ⟨_, _ | ⟨_, rest⟩⟩⟩⟩⟩ := pre <;>
      simp only [List.nil_append, List.cons_append, List.cons.injEq, Contribution.field.injEq,
        List.nil_eq, List.append_eq_nil_iff, reduceCtorEq, and_true, and_false, false_and] at hcs
    obtain ⟨rfl, rfl, rfl, -⟩ := hcs
    have hlength : 2 = _ := congrArg List.length hfields
    rw [List.length_append, List.length_cons] at hlength
    omega
  obtain ⟨fields, hfields, hordered, hremoved⟩ := field_order p .value
    (.cons (hset "a") (.cons (hset "d") (.cons (hunset "d") (.cons (hset "b")
      (.cons (hset "c") .nil)))))
    (by simp [Contribution.IsArray, Contribution.IsScalar])
  have hthree : evaluate false (.object [.mk (.template [.text "a" p] p) (.null p) p,
      .mk (.template [.text "d" p] p) (.null p) p, .mk (.template [.text "d" p] p) (.undefined p) p,
      .mk (.template [.text "b" p] p) (.null p) p, .mk (.template [.text "c" p] p) (.null p) p] p)
      .value s = .ok (.plain (some (.obj [("a", .null), ("b", .null), ("c", .null)]))) := rfl
  cases hfields.symm.trans hthree
  obtain ⟨fewer, hfewer, -, hhole⟩ := hremoved _ "a" (hunset "a")
  obtain ⟨hswapped, horder⟩ := hhole [] .null _ rfl
  exact ⟨p, s, _, _, fewer, rfl, rfl, rfl, rfl, hlast, hthree, hordered hlast, hfewer, hswapped,
    horder⟩

/-- Two names that are never removed, and were inserted one after the other, trade places. -/
theorem expand_swaps :
    (expand (.obj [("a", .null), ("b", .bool true), ("c", .bool false),
        ("\x7b\x7b 'a' \x7d\x7d", .str "\x7b\x7b ...undefined \x7d\x7d")]) (.obj [])
      .none).toOption.map Json.compact = some "\x7b\"c\":false,\"b\":true\x7d" := by
  decide +kernel

end Evaluation
end JsonTemplate
