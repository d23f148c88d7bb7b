import JsonTemplate.Tree.Basic

/-!
Spans given anew. What a tree or a failure says does not depend on the spans that it
carries; `relocate` replaces them all, by spans further on for the same text at another
place, or by one and the same span for a tree that is to be compared with another.
-/

namespace JsonTemplate

namespace Span

/-- The same tokens with so many more before them. -/
def shift (distance : Nat) (s : Span) : Span := ⟨s.start + distance, s.stop + distance⟩

end Span

def Fault.relocate (f : Span → Span) (x : Fault) : Fault := { x with span := f x.span }

namespace Failure

def relocate (f : Span → Span) (x : Failure) : Failure :=
  ⟨x.head.relocate f, x.causes.map (Fault.relocate f)⟩

variable (f : Span → Span)

theorem relocate_rejected (message : String) (span : Span) :
    (rejected message span).relocate f = rejected message (f span) := rfl

theorem relocate_defect (message : String) (span : Span) :
    (defect message span).relocate f = defect message (f span) := rfl

theorem relocate_undefinedValue (path : List String) (span : Span) :
    (undefinedValue path span).relocate f = undefinedValue path (f span) := rfl

theorem relocate_under (message : String) (x : Failure) :
    (x.under message).relocate f = (x.relocate f).under message := rfl

theorem innermost_relocate (x : Failure) : (x.relocate f).innermost = x.innermost.relocate f := by
  obtain ⟨head, causes⟩ := x
  simp only [innermost, relocate, List.getLastD_eq_getLast?, List.getLast?_map]
  cases causes.getLast? <;> rfl

theorem describe_relocate (x : Failure) : (x.relocate f).describe = x.describe := by
  have hh : (x.relocate f).head.message = x.head.message := rfl
  have hi : (x.relocate f).innermost.message = x.innermost.message := by
    rw [innermost_relocate]
    rfl
  simp only [describe, hh, hi]

theorem isUndefinedValue_relocate (x : Failure) :
    (x.relocate f).isUndefinedValue = x.isUndefinedValue := rfl

/-- A result or a failure with spans given anew. -/
def transport {α β : Type} (g : α → β) : Except Failure α → Except Failure β
  | .ok a => .ok (g a)
  | .error x => .error (x.relocate f)

theorem transport_eq_ok {α β : Type} {f : Span → Span} {g : α → β} {r : Except Failure α} {b : β} :
    transport f g r = .ok b ↔ ∃ a, r = .ok a ∧ b = g a := by
  cases r with
  | error x => exact ⟨nofun, fun ⟨_, h, _⟩ => nomatch h⟩
  | ok a => exact ⟨fun h => ⟨a, rfl, (Except.ok.inj h).symm⟩, fun ⟨_, ha, h⟩ => by cases ha; rw [h]; rfl⟩

theorem transport_map {α β γ δ : Type} {g : α → β} {h : γ → δ} {k : α → γ} {k' : β → δ}
    (hk : ∀ a, k' (g a) = h (k a)) (r : Except Failure α) :
    (transport f g r).map k' = transport f h (r.map k) := by
  cases r with
  | error x => rfl
  | ok a => exact congrArg Except.ok (hk a)

theorem transport_bind {α β γ δ : Type} {g : α → β} {h : γ → δ} {r : Except Failure α}
    {r' : Except Failure β} {k : α → Except Failure γ} {k' : β → Except Failure δ}
    (hr : r' = transport f g r) (hk : ∀ a, k' (g a) = transport f h (k a)) :
    (r' >>= k') = transport f h (r >>= k) := by
  cases hr
  cases r with
  | error x => rfl
  | ok a => exact hk a

theorem mapError_transport {α : Type} (r : Except Failure α) :
    (transport f id r).mapError describe = r.mapError describe := by
  cases r with
  | error x => exact congrArg Except.error (describe_relocate f x)
  | ok a => rfl

variable {f} in
theorem mapError_of_transport {α : Type} {r r' : Except Failure α}
    (h : transport f id r = transport f id r') : r.mapError describe = r'.mapError describe := by
  rw [← mapError_transport f r, h, mapError_transport]

theorem relocate_relocate (g : Span → Span) (x : Failure) :
    (x.relocate f).relocate g = x.relocate (g ∘ f) := by
  simp only [relocate, Fault.relocate, List.map_map]
  rfl

theorem innermost_under (message : String) (x : Failure) :
    (x.under message).innermost = x.innermost := by
  obtain ⟨head, causes⟩ := x
  simp only [innermost, under, List.getLastD_eq_getLast?, List.getLast?_cons, Option.getD_some]

end Failure

namespace Node

mutual

def relocate (f : Span → Span) : Node → Node
  | number n s => number n (f s)
  | bool b s => bool b (f s)
  | null s => null (f s)
  | undefined s => undefined (f s)
  | quoted t s => quoted t (f s)
  | text t s => text t (f s)
  | path p s => path p (f s)
  | comparison op left right s => comparison op (left.relocate f) (right.relocate f) (f s)
  | arithmetic op left right s => arithmetic op (left.relocate f) (right.relocate f) (f s)
  | ternary condition yes no s =>
      ternary (condition.relocate f) (yes.relocate f) (no.relocate f) (f s)
  | nullish left right s => nullish (left.relocate f) (right.relocate f) (f s)
  | group inner s => group (inner.relocate f) (f s)
  | comment t s => comment t (f s)
  | onlyIf guard s => onlyIf (guard.relocate f) (f s)
  | elseIf guard s => elseIf (guard.relocate f) (f s)
  | otherwise s => otherwise (f s)
  | each source binding filter s => each source binding (relocateFilter f filter) (f s)
  | array items s => array (relocateAll f items) (f s)
  | object entries s => object (relocateEntries f entries) (f s)
  | template parts s => template (relocateAll f parts) (f s)
  | interpolation spread modifiers value s =>
      interpolation spread modifiers (value.relocate f) (f s)

def relocateAll (f : Span → Span) : List Node → List Node
  | [] => []
  | n :: rest => n.relocate f :: relocateAll f rest

def relocateEntries (f : Span → Span) : List Entry → List Entry
  | [] => []
  | .mk key value s :: rest => .mk (key.relocate f) (value.relocate f) (f s) :: relocateEntries f rest

def relocateFilter (f : Span → Span) : Option Node → Option Node
  | none => none
  | some n => some (n.relocate f)

end

def bare (n : Node) : Node := n.relocate fun _ => .empty 0

variable (f : Span → Span)

theorem relocateAll_eq_map (nodes : List Node) : relocateAll f nodes = nodes.map (relocate f) := by
  induction nodes with
  | nil => rfl
  | cons n rest ih => rw [relocateAll, ih, List.map_cons]

theorem relocateFilter_eq_map (filter : Option Node) :
    relocateFilter f filter = filter.map (relocate f) := by
  cases filter <;> rfl

theorem span_relocate (n : Node) : (n.relocate f).span = f n.span := by
  cases n <;> rfl

theorem label_relocate (n : Node) : (n.relocate f).label = n.label := by
  cases n <;> rfl

theorem isInterpolation_relocate (n : Node) :
    (n.relocate f).isInterpolation = n.isInterpolation := by
  cases n <;> rfl

end Node

namespace Entry

def relocate (f : Span → Span) : Entry → Entry
  | mk key value s => mk (key.relocate f) (value.relocate f) (f s)

theorem relocateEntries_eq_map (f : Span → Span) (entries : List Entry) :
    Node.relocateEntries f entries = entries.map (relocate f) := by
  induction entries with
  | nil => rfl
  | cons e rest ih =>
      obtain ⟨key, value, s⟩ := e
      rw [Node.relocateEntries, ih, List.map_cons]
      rfl

end Entry

namespace Node

mutual

theorem relocate_relocate (f g : Span → Span) : (n : Node) →
    (n.relocate f).relocate g = n.relocate (g ∘ f)
  | number _ _ | bool _ _ | null _ | undefined _ | quoted _ _ | text _ _ | path _ _
  | comment _ _ | otherwise _ => rfl
  | comparison op left right s => by
      simp only [relocate, relocate_relocate f g left, relocate_relocate f g right,
        Function.comp_apply]
  | arithmetic op left right s => by
      simp only [relocate, relocate_relocate f g left, relocate_relocate f g right,
        Function.comp_apply]
  | ternary condition yes no s => by
      simp only [relocate, relocate_relocate f g condition, relocate_relocate f g yes,
        relocate_relocate f g no, Function.comp_apply]
  | nullish left right s => by
      simp only [relocate, relocate_relocate f g left, relocate_relocate f g right,
        Function.comp_apply]
  | group inner s => by simp only [relocate, relocate_relocate f g inner, Function.comp_apply]
  | onlyIf guard s => by simp only [relocate, relocate_relocate f g guard, Function.comp_apply]
  | elseIf guard s => by simp only [relocate, relocate_relocate f g guard, Function.comp_apply]
  | each source binding filter s => by
      simp only [relocate, relocateFilter_relocateFilter f g filter, Function.comp_apply]
  | array items s => by simp only [relocate, relocateAll_relocateAll f g items, Function.comp_apply]
  | object entries s => by
      simp only [relocate, relocateEntries_relocateEntries f g entries, Function.comp_apply]
  | template parts s => by
      simp only [relocate, relocateAll_relocateAll f g parts, Function.comp_apply]
  | interpolation spread modifiers value s => by
      simp only [relocate, relocate_relocate f g value, Function.comp_apply]

theorem relocateAll_relocateAll (f g : Span → Span) : (nodes : List Node) →
    relocateAll g (relocateAll f nodes) = relocateAll (g ∘ f) nodes
  | [] => rfl
  | n :: rest => by
      simp only [relocateAll, relocate_relocate f g n, relocateAll_relocateAll f g rest]

theorem relocateEntries_relocateEntries (f g : Span → Span) : (entries : List Entry) →
    relocateEntries g (relocateEntries f entries) = relocateEntries (g ∘ f) entries
  | [] => rfl
  | .mk key value s :: rest => by
      simp only [relocateEntries, relocate_relocate f g key, relocate_relocate f g value,
        relocateEntries_relocateEntries f g rest, Function.comp_apply]

theorem relocateFilter_relocateFilter (f g : Span → Span) : (filter : Option Node) →
    relocateFilter g (relocateFilter f filter) = relocateFilter (g ∘ f) filter
  | none => rfl
  | some n => by simp only [relocateFilter, relocate_relocate f g n]

end

theorem bare_relocate (f : Span → Span) (n : Node) : (n.relocate f).bare = n.bare :=
  relocate_relocate f _ n

end Node
end JsonTemplate
