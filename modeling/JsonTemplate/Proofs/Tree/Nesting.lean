import JsonTemplate.Tree.Basic

/-!
Spans that nest. In a tree that was read from a stream the children of a node stand in
order inside of it, each on tokens of its own, so that all nodes of the tree lie inside the
span of its root.
-/

namespace JsonTemplate

namespace Span

/-- Spans of at least one token each, one behind the other between two places. -/
def InOrder : Nat → List Span → Nat → Prop
  | start, [], stop => start ≤ stop
  | start, s :: rest, stop => start ≤ s.start ∧ s.start < s.stop ∧ InOrder s.stop rest stop

def Encloses (outer : Span) (inner : List Span) : Prop := InOrder outer.start inner outer.stop

theorem InOrder.le {start stop : Nat} {spans : List Span} (h : InOrder start spans stop) :
    start ≤ stop := by
  induction spans generalizing start with
  | nil => exact h
  | cons s rest ih =>
      obtain ⟨hs, hne, hrest⟩ := h
      have := ih hrest
      omega

theorem InOrder.of_mem {start stop : Nat} {spans : List Span} (h : InOrder start spans stop)
    {s : Span} (hs : s ∈ spans) : start ≤ s.start ∧ s.start < s.stop ∧ s.stop ≤ stop := by
  induction spans generalizing start with
  | nil => cases hs
  | cons t rest ih =>
      obtain ⟨ht, hne, hrest⟩ := h
      cases hs with
      | head => exact ⟨ht, hne, hrest.le⟩
      | tail _ hs =>
          have := ih hrest hs
          omega

end Span

namespace Node

mutual

/-- The children of every node and of every entry stand in order inside of it. -/
def Nested : Node → Prop
  | number _ _ | bool _ _ | null _ | undefined _ | quoted _ _ | text _ _ | path _ _ | comment _ _
  | otherwise _ => True
  | comparison _ left right s | arithmetic _ left right s | nullish left right s =>
      s.Encloses [left.span, right.span] ∧ left.Nested ∧ right.Nested
  | ternary condition yes no s =>
      s.Encloses [condition.span, yes.span, no.span] ∧ condition.Nested ∧ yes.Nested ∧ no.Nested
  | group inner s | onlyIf inner s | elseIf inner s | interpolation _ _ inner s =>
      s.Encloses [inner.span] ∧ inner.Nested
  | each _ _ filter s => NestedFilter s filter
  | array nodes s | template nodes s => s.Encloses (nodes.map span) ∧ AllNested nodes
  | object entries s => s.Encloses (entries.map Entry.span) ∧ EntriesNested entries

def AllNested : List Node → Prop
  | [] => True
  | n :: rest => n.Nested ∧ AllNested rest

def EntriesNested : List Entry → Prop
  | [] => True
  | .mk key value s :: rest =>
      (s.Encloses [key.span, value.span] ∧ key.Nested ∧ value.Nested) ∧ EntriesNested rest

def NestedFilter (s : Span) : Option Node → Prop
  | none => True
  | some guard => s.Encloses [guard.span] ∧ guard.Nested

end

mutual

/-- A node and all nodes below it. -/
def nodes : Node → List Node
  | comparison op left right s => comparison op left right s :: (left.nodes ++ right.nodes)
  | arithmetic op left right s => arithmetic op left right s :: (left.nodes ++ right.nodes)
  | nullish left right s => nullish left right s :: (left.nodes ++ right.nodes)
  | ternary condition yes no s =>
      ternary condition yes no s :: (condition.nodes ++ yes.nodes ++ no.nodes)
  | group inner s => group inner s :: inner.nodes
  | onlyIf guard s => onlyIf guard s :: guard.nodes
  | elseIf guard s => elseIf guard s :: guard.nodes
  | interpolation spread modifiers value s => interpolation spread modifiers value s :: value.nodes
  | each source binding filter s => each source binding filter s :: nodesOfFilter filter
  | array items s => array items s :: nodesOfAll items
  | template parts s => template parts s :: nodesOfAll parts
  | object entries s => object entries s :: nodesOfEntries entries
  | leaf => [leaf]

def nodesOfAll : List Node → List Node
  | [] => []
  | n :: rest => n.nodes ++ nodesOfAll rest

def nodesOfEntries : List Entry → List Node
  | [] => []
  | .mk key value _ :: rest => key.nodes ++ value.nodes ++ nodesOfEntries rest

def nodesOfFilter : Option Node → List Node
  | none => []
  | some guard => guard.nodes

end

theorem mem_nodes_self (n : Node) : n ∈ n.nodes := by
  cases n <;> simp [nodes]

/-- A nested node on tokens of a span. -/
def Inside (outer : Span) (n : Node) : Prop :=
  (outer.start ≤ n.span.start ∧ n.span.start < n.span.stop ∧ n.span.stop ≤ outer.stop) ∧ n.Nested

theorem Inside.mono {outer wider : Span} {n : Node} (h : Inside outer n)
    (hs : wider.start ≤ outer.start) (ht : outer.stop ≤ wider.stop) : Inside wider n := by
  obtain ⟨hspan, hn⟩ := h
  exact ⟨by omega, hn⟩

/-- A child that is enclosed by a node inside a span is inside the span. -/
theorem inside_of_encloses {outer s : Span} {spans : List Span} {child : Node}
    (ho : outer.start ≤ s.start ∧ s.start < s.stop ∧ s.stop ≤ outer.stop) (h : s.Encloses spans)
    (hm : child.span ∈ spans) (hc : child.Nested) : Inside outer child := by
  have := h.of_mem hm
  exact ⟨by omega, hc⟩

theorem allNested_iff {nodes : List Node} : AllNested nodes ↔ ∀ n ∈ nodes, n.Nested := by
  induction nodes with
  | nil => simp [AllNested]
  | cons n rest ih => simp [AllNested, ih]

theorem entriesNested_iff {entries : List Entry} : EntriesNested entries ↔
    ∀ e ∈ entries, e.span.Encloses [e.key.span, e.value.span] ∧ e.key.Nested ∧ e.value.Nested := by
  induction entries with
  | nil => simp [EntriesNested]
  | cons e rest ih =>
      obtain ⟨key, value, s⟩ := e
      simp [EntriesNested, ih, Entry.key, Entry.value, Entry.span]

mutual

/-- Below a nested node inside a span there are only such nodes. -/
theorem inside_of_mem_nodes {outer : Span} {m : Node} : (n : Node) → Inside outer n →
    m ∈ n.nodes → Inside outer m
  | number _ _, h, hm | bool _ _, h, hm | null _, h, hm | undefined _, h, hm | quoted _ _, h, hm
  | text _ _, h, hm | path _ _, h, hm | comment _ _, h, hm | otherwise _, h, hm => by
      cases List.mem_singleton.1 hm
      exact h
  | comparison _ left right s, h, hm | arithmetic _ left right s, h, hm
  | nullish left right s, h, hm => by
      obtain ⟨ho, henc, hl, hr⟩ := id h
      obtain rfl | hm := List.mem_cons.1 hm
      · exact h
      · obtain hm | hm := List.mem_append.1 hm
        · exact inside_of_mem_nodes left (inside_of_encloses ho henc (by simp) hl) hm
        · exact inside_of_mem_nodes right (inside_of_encloses ho henc (by simp) hr) hm
  | ternary condition yes no s, h, hm => by
      obtain ⟨ho, henc, hc, hy, hn⟩ := id h
      obtain rfl | hm := List.mem_cons.1 hm
      · exact h
      · obtain hm | hm := List.mem_append.1 hm
        · obtain hm | hm := List.mem_append.1 hm
          · exact inside_of_mem_nodes condition (inside_of_encloses ho henc (by simp) hc) hm
          · exact inside_of_mem_nodes yes (inside_of_encloses ho henc (by simp) hy) hm
        · exact inside_of_mem_nodes no (inside_of_encloses ho henc (by simp) hn) hm
  | group inner s, h, hm | onlyIf inner s, h, hm | elseIf inner s, h, hm
  | interpolation _ _ inner s, h, hm => by
      obtain ⟨ho, henc, hi⟩ := id h
      obtain rfl | hm := List.mem_cons.1 hm
      · exact h
      · exact inside_of_mem_nodes inner (inside_of_encloses ho henc (by simp) hi) hm
  | each _ _ filter s, h, hm => by
      obtain rfl | hm := List.mem_cons.1 hm
      · exact h
      · exact inside_of_mem_nodesOfFilter filter h.1 h.2 hm
  | array items s, h, hm | template items s, h, hm => by
      obtain rfl | hm := List.mem_cons.1 hm
      · exact h
      · refine inside_of_mem_nodesOfAll items (fun n hn => ?_) hm
        exact inside_of_encloses h.1 h.2.1 (List.mem_map_of_mem hn) (allNested_iff.1 h.2.2 n hn)
  | object entries s, h, hm => by
      obtain rfl | hm := List.mem_cons.1 hm
      · exact h
      · refine inside_of_mem_nodesOfEntries entries (fun e he => ?_) hm
        have hspan := h.2.1.of_mem (List.mem_map_of_mem he)
        obtain ⟨henc, hk, hv⟩ := entriesNested_iff.1 h.2.2 e he
        have ho : outer.start ≤ e.span.start ∧ e.span.start < e.span.stop
            ∧ e.span.stop ≤ outer.stop := by
          have ho := h.1
          simp only [span] at ho
          omega
        exact ⟨inside_of_encloses ho henc (by simp) hk, inside_of_encloses ho henc (by simp) hv⟩

theorem inside_of_mem_nodesOfAll {outer : Span} {m : Node} : (nodes : List Node) →
    (∀ n ∈ nodes, Inside outer n) → m ∈ nodesOfAll nodes → Inside outer m
  | [], _, hm => nomatch hm
  | n :: rest, h, hm => by
      obtain hn | hm := List.mem_append.1 hm
      · exact inside_of_mem_nodes n (h n List.mem_cons_self) hn
      · exact inside_of_mem_nodesOfAll rest (fun k hk => h k (List.mem_cons_of_mem n hk)) hm

theorem inside_of_mem_nodesOfEntries {outer : Span} {m : Node} : (entries : List Entry) →
    (∀ e ∈ entries, Inside outer e.key ∧ Inside outer e.value) → m ∈ nodesOfEntries entries →
    Inside outer m
  | [], _, hm => nomatch hm
  | .mk key value s :: rest, h, hm => by
      have he := h (.mk key value s) List.mem_cons_self
      obtain hm | hm := List.mem_append.1 hm
      · obtain hm | hm := List.mem_append.1 hm
        · exact inside_of_mem_nodes key he.1 hm
        · exact inside_of_mem_nodes value he.2 hm
      · exact inside_of_mem_nodesOfEntries rest (fun e hm => h e (List.mem_cons_of_mem _ hm)) hm

theorem inside_of_mem_nodesOfFilter {outer s : Span} {m : Node} : (filter : Option Node) →
    (outer.start ≤ s.start ∧ s.start < s.stop ∧ s.stop ≤ outer.stop) → NestedFilter s filter →
    m ∈ nodesOfFilter filter → Inside outer m
  | none, _, _, hm => nomatch hm
  | some guard, ho, h, hm =>
      inside_of_mem_nodes guard (inside_of_encloses ho h.1 (by simp) h.2) hm

end

end Node
end JsonTemplate
