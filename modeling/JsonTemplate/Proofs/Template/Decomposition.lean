import JsonTemplate.Proofs.Template.Reading
import JsonTemplate.Template

/-!
Compilation decomposes over strings. A document compiles when each of its strings does,
and a document that does not is blamed on the first of its strings, in the order of the
tokens, that does not compile alone.
-/

namespace JsonTemplate
namespace Rules

variable {α β : Type}

/-- All these strings have trees of their own. -/
def AllRead (strings : List (Nat × String)) : Prop := ∀ p ∈ strings, ∃ n, readText p.2 = .ok n

/-- The first of these strings that has no tree of its own is where `x` comes from. -/
def Blames (strings : List (Nat × String)) (x : Failure) : Prop :=
  ∃ front start s back y, strings = front ++ (start, s) :: back ∧ AllRead front ∧
    readText s = .error y ∧ x.head.span.start = y.head.span.start + start ∧
    x.innermost.message = y.innermost.message

/-- A reading that goes through these strings one after another. -/
def Traverses (strings : List (Nat × String)) : Except Failure α → Prop
  | .ok _ => AllRead strings
  | .error x => Blames strings x

theorem traverses_under {strings : List (Nat × String)} {r : Except Failure α} (e : Expectation)
    (h : Traverses strings r) : Traverses strings (under e r) := by
  cases r with
  | ok a => exact h
  | error x =>
      obtain ⟨front, start, s, back, y, hs, hf, hy, hspan, hmessage⟩ := h
      refine ⟨front, start, s, back, y, hs, hf, hy, hspan, ?_⟩
      rw [Failure.innermost_under, hmessage]

theorem traverses_map {strings : List (Nat × String)} {r : Except Failure α} (f : α → β)
    (h : Traverses strings r) : Traverses strings (r.map f) := by
  cases r <;> exact h

theorem traverses_bind {first second : List (Nat × String)} {r : Except Failure α}
    {next : α → Except Failure β} (h : Traverses first r)
    (hn : ∀ a, Traverses second (next a)) : Traverses (first ++ second) (r >>= next) := by
  cases r with
  | error x =>
      obtain ⟨front, start, s, back, y, rfl, hrest⟩ := h
      exact ⟨front, start, s, back ++ second, y, by simp, hrest⟩
  | ok a =>
      have hsecond := hn a
      change Traverses (first ++ second) (next a)
      cases hr : next a with
      | ok b =>
          rw [hr] at hsecond
          intro p hp
          exact (List.mem_append.1 hp).elim (h p) (hsecond p)
      | error x =>
          rw [hr] at hsecond
          obtain ⟨front, start, s, back, y, rfl, hf, hrest⟩ := hsecond
          refine ⟨first ++ front, start, s, back, y, by simp, fun p hp => ?_, hrest⟩
          exact (List.mem_append.1 hp).elim (h p) (hf p)

theorem traverses_readTextAt (start : Nat) (s : String) :
    Traverses [(start, s)] (readTextAt start s) := by
  rw [readTextAt]
  cases hr : readText s with
  | ok n => exact fun p hp => ⟨n, by rw [List.mem_singleton.1 hp, hr]⟩
  | error y =>
      refine ⟨[], start, s, [], y, rfl, List.forall_mem_nil _, hr, rfl, ?_⟩
      rw [Failure.innermost_relocate]
      rfl

theorem traverses_entryOf (span : Span) {first second : List (Nat × String)}
    {key value : Except Failure Node} (hk : Traverses first key) (hv : Traverses second value) :
    Traverses (first ++ second) (entryOf span key value) :=
  traverses_bind (traverses_under .entryKeyString hk) fun k => traverses_map (Entry.mk k · span) hv

mutual

theorem traverses_read (start : Nat) : (v : Json) → Traverses (v.strings start) (read start v)
  | .null | .bool _ | .num _ => nofun
  | .str s => traverses_under .document (traverses_readTextAt start s)
  | .arr items =>
      traverses_map _ (traverses_under .document (traverses_under .arrayEntries
        (traverses_readItems (start + 1) items)))
  | .obj fields =>
      traverses_map _ (traverses_under .document (traverses_under .objectEntries
        (traverses_readFields (start + 1) fields)))

theorem traverses_readItems (start : Nat) : (items : List Json) →
    Traverses (Json.stringsItems start items) (readItems start items)
  | [] => nofun
  | item :: rest =>
      traverses_bind (traverses_read (start + 1) item) fun node =>
        traverses_map (node :: ·) (traverses_readItems _ rest)

theorem traverses_readFields (start : Nat) : (fields : List (String × Json)) →
    Traverses (Json.stringsFields start fields) (readFields start fields)
  | [] => nofun
  | (name, v) :: rest =>
      traverses_bind
        (traverses_entryOf _ (traverses_readTextAt (start + 2) name) (traverses_read _ v))
        fun entry => traverses_map (entry :: ·) (traverses_readFields _ rest)

end

end Rules

namespace Template

theorem compile_isOk_iff (document : Json) :
    (∃ t, compile document = .ok t) ↔ ∃ n, Rules.read 0 document = .ok n := by
  rw [compile, Stream.tree_ofJson]
  cases Rules.read 0 document <;> simp

theorem compile_of_read {document : Json} {n : Node} (h : Rules.read 0 document = .ok n) :
    compile document = .ok ⟨document, Stream.ofJson document, n⟩ := by
  rw [compile, Stream.tree_ofJson, h]

theorem compile_of_read_error {document : Json} {x : Failure}
    (h : Rules.read 0 document = .error x) :
    compile document = .error (.locate x (Stream.ofJson document) document) := by
  rw [compile, Stream.tree_ofJson, h]

theorem compile_str_isOk_iff (s : String) :
    (∃ t, compile (.str s) = .ok t) ↔ ∃ n, Rules.readText s = .ok n := by
  rw [compile_isOk_iff, Rules.read, Rules.readTextAt]
  cases Rules.readText s <;> simp [Failure.transport, Rules.under]

/-- The failure of a string that stands alone has the words for a document around it. -/
theorem read_str_of_readText_error {s : String} {y : Failure} (h : Rules.readText s = .error y) :
    Rules.read 0 (.str s)
      = .error ((y.relocate (Span.shift 0)).under Expectation.document.message) := by
  rw [Rules.read, Rules.readTextAt, h]
  rfl

/-- A document compiles if and only if each of its strings, values and keys, does so alone.
If it does not, the failure starts inside the first string, in the order of the tokens, that
does not compile alone, and in the end it says the same as the failure of that string. -/
theorem compile_decomposes (document : Json) :
    ((∃ t, compile document = .ok t) ↔
      ∀ p ∈ document.strings 0, ∃ t, compile (.str p.2) = .ok t) ∧
    ∀ e, compile document = .error e →
      ∃ front start s back x y, document.strings 0 = front ++ (start, s) :: back ∧
        (∀ p ∈ front, ∃ t, compile (.str p.2) = .ok t) ∧
        compile (.str s) = .error (.locate y (Stream.ofJson (.str s)) (.str s)) ∧
        (Stream.ofJson document).Spells start s ∧
        e = .locate x (Stream.ofJson document) document ∧
        start ≤ x.head.span.start ∧ x.head.span.start < start + s.toList.length + 2 ∧
        x.innermost.message = y.innermost.message := by
  have ht := Rules.traverses_read 0 document
  cases hr : Rules.read 0 document with
  | ok n =>
      rw [hr] at ht
      have hok : ∃ t, compile document = .ok t := (compile_isOk_iff document).2 ⟨n, hr⟩
      refine ⟨⟨fun _ p hp => (compile_str_isOk_iff p.2).2 (ht p hp), fun _ => hok⟩, ?_⟩
      intro e he
      obtain ⟨t, ht⟩ := hok
      rw [ht] at he
      cases he
  | error x =>
      rw [hr] at ht
      obtain ⟨front, start, s, back, y, hs, hf, hy, hspan, hmessage⟩ := ht
      have hfails := compile_of_read_error hr
      have halone := compile_of_read_error (read_str_of_readText_error hy)
      have hmem : (start, s) ∈ document.strings 0 := by simp [hs]
      refine ⟨⟨?_, fun h => ?_⟩, fun e he => ?_⟩
      · rintro ⟨t, ht⟩
        rw [hfails] at ht
        cases ht
      · obtain ⟨t, ht⟩ := h (start, s) hmem
        rw [halone] at ht
        cases ht
      · have hin := Rules.span_of_readText_error hy
        refine ⟨front, start, s, back, x, _, hs, ?_, halone, ?_, ?_, by omega, by omega, ?_⟩
        · exact fun p hp => (compile_str_isOk_iff p.2).2 (hf p hp)
        · exact Json.spells_of_mem_strings .root 0 document (Stream.holds_ofJson document) hmem
        · rw [hfails] at he
          exact (Except.error.inj he).symm
        · rw [hmessage, Failure.innermost_under, Failure.innermost_relocate]
          rfl

end Template
end JsonTemplate
