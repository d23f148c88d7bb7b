import JsonTemplate.Expression.Rules
import JsonTemplate.Proofs.Tree.Relocation

/-!
What builders find in the pieces of a match, given what the pieces are worth.
-/

namespace JsonTemplate
namespace Rules

/-- A tree of this kind. -/
def HasNode (p : Node → Prop) (payload : Payload Fragment) : Prop :=
  ∃ m, payload = .value (.node m) ∧ p m

theorem HasNode.imp {p q : Node → Prop} {payload : Payload Fragment} (h : HasNode p payload)
    (hpq : ∀ m, p m → q m) : HasNode q payload := by
  obtain ⟨m, rfl, hm⟩ := h
  exact ⟨m, rfl, hpq m hm⟩

/-- A tree, but for its spans. -/
def IsNode (n : Node) : Payload Fragment → Prop := HasNode fun m => m.bare = n

theorem isNode_unique {n m : Node} {payload : Payload Fragment} (hn : IsNode n payload)
    (hm : IsNode m payload) : n = m := by
  obtain ⟨k, hk, rfl⟩ := hn
  obtain ⟨l, hl, rfl⟩ := hm
  cases hk.symm.trans hl
  rfl

theorem isNode_made (n : Node) : ∃ built, made n = .ok (some built) ∧ IsNode n.bare built :=
  ⟨_, rfl, n, rfl, rfl⟩

theorem node?_of_payload {piece : Piece} {m : Node} (h : piece.2 = .value (.node m)) :
    node? piece = some m := by
  obtain ⟨span, payload⟩ := piece
  cases h
  rfl

theorem payload_of_node? {piece : Piece} {m : Node} (h : node? piece = some m) :
    piece.2 = .value (.node m) := by
  obtain ⟨span, payload⟩ := piece
  cases payload with
  | value x =>
      cases x with
      | node n =>
          cases h
          rfl
      | _ => cases h
  | _ => cases h

theorem text?_of_payload {piece : Piece} {s : String} (h : piece.2 = .text s) :
    text? piece = some s := by
  obtain ⟨span, payload⟩ := piece
  cases h
  rfl

theorem optional?_of_payload {piece : Piece} {item : Option Piece} (h : piece.2 = .optional item) :
    optional? piece = some item := by
  obtain ⟨span, payload⟩ := piece
  cases h
  rfl

theorem items?_of_payload {piece : Piece} {items : List Piece} (h : piece.2 = .repeated items) :
    items? piece = some items := by
  obtain ⟨span, payload⟩ := piece
  cases h
  rfl

theorem payload_of_optional? {piece : Piece} {item : Option Piece}
    (h : optional? piece = some item) : piece.2 = .optional item := by
  obtain ⟨span, payload⟩ := piece
  cases payload with
  | optional item =>
      cases h
      rfl
  | _ => cases h

theorem payload_of_items? {piece : Piece} {items : List Piece} (h : items? piece = some items) :
    piece.2 = .repeated items := by
  obtain ⟨span, payload⟩ := piece
  cases payload with
  | repeated items =>
      cases h
      rfl
  | _ => cases h

theorem made_eq_ok {n : Node} {payload : Payload Fragment} (h : made n = .ok (some payload)) :
    payload = .value (.node n) := by
  cases h
  rfl

theorem shaped_eq_ok {span : Span} {n? : Option Node} {payload : Payload Fragment}
    (h : shaped span n? = .ok (some payload)) : ∃ n, n? = some n ∧ payload = .value (.node n) := by
  cases n? with
  | none => cases h
  | some n => exact ⟨n, rfl, made_eq_ok h⟩

theorem eq_nil_of_mapM {α : Type} {read? : Piece → Option α} {items : List Piece}
    (h : items.mapM read? = some []) : items = [] := by
  cases items with
  | nil => rfl
  | cons piece more =>
      rw [List.mapM_cons] at h
      obtain ⟨_, -, h⟩ := Option.bind_eq_some_iff.1 h
      obtain ⟨_, -, h⟩ := Option.bind_eq_some_iff.1 h
      cases h

theorem buildText_eq_ok {node : List Char → Span → Build Fragment} {piece : Piece}
    {payload : Payload Fragment} (h : buildText node piece = .ok (some payload)) :
    ∃ s, piece.2 = .text s ∧ node s.toList piece.1 = .ok (some payload) := by
  obtain ⟨span, content⟩ := piece
  cases content with
  | text s => exact ⟨s, rfl, h⟩
  | _ => cases h

end Rules
end JsonTemplate
