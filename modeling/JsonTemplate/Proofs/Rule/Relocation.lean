import JsonTemplate.Proofs.Rule.Extent
import JsonTemplate.Proofs.Tree.Relocation

/-!
Textual rules see nothing but the text ahead. A rule without marks and scalars, whose
builders put spans where they find them, has the same outcome at every place that spells
the same text, with its spans moved along (`run_shift`). With no distance at all this says
that no span of an outcome lies outside the string.
-/

namespace JsonTemplate

variable {ν β : Type}

namespace Payload

variable (move : (Span → Span) → β → β) (f : Span → Span)

mutual

/-- A payload with other spans; `move` does the same inside a value. -/
def relocate : Payload β → Payload β
  | unit => unit
  | text s => text s
  | repeated items => repeated (relocateAll items)
  | optional none => optional none
  | optional (some (span, p)) => optional (some (f span, p.relocate))
  | value v => value (move f v)

def relocateAll : List (Span × Payload β) → List (Span × Payload β)
  | [] => []
  | (span, p) :: rest => (f span, p.relocate) :: relocateAll rest

end

end Payload

section Relocation

variable (move : (Span → Span) → β → β) (f : Span → Span)

def Parsed.relocate (parsed : Parsed β) : Parsed β := (f parsed.1, parsed.2.relocate move f)

theorem Payload.relocateAll_eq_map (items : List (Parsed β)) :
    Payload.relocateAll move f items = items.map (Parsed.relocate move f) := by
  induction items with
  | nil => rfl
  | cons item rest ih =>
      obtain ⟨span, p⟩ := item
      rw [Payload.relocateAll, ih, List.map_cons]
      rfl

def Build.relocate : Build β → Build β
  | .ok built => .ok (built.map (Payload.relocate move f))
  | .error e => .error (e.relocate f)

end Relocation

namespace Outcome

variable {α γ δ ε : Type} (f : Span → Span)

/-- An outcome with other spans in a failure and something else for a match. -/
def transport (onMatch : α → γ) : Outcome α → Outcome γ
  | unfinished => unfinished
  | noMatch => noMatch
  | matched a => matched (onMatch a)
  | committed x => committed (x.relocate f)

theorem bind_transport {m : α → γ} {k : δ → ε} {next : γ → Outcome ε} {last : α → Outcome δ}
    (o : Outcome α) (h : ∀ a, o = .matched a → next (m a) = (last a).transport f k) :
    (o.transport f m).bind next = (o.bind last).transport f k := by
  cases o with
  | unfinished | noMatch | committed x => rfl
  | matched a => exact h a rfl

theorem ofBuild_relocate (move : (Span → Span) → β → β) (span : Span) (b : Build β) :
    ofBuild (f span) (Build.relocate move f b)
      = (ofBuild span b).transport f (Parsed.relocate move f) := by
  rcases b with x | (_ | p) <;> rfl

end Outcome

namespace Rule

section Uniform

variable (move : (Span → Span) → β → β)

/-- The builder of a sequence puts the spans of its pieces where it finds them. -/
def Uniform (build : Span → List (Parsed β) → Build β) : Prop :=
  ∀ f span pieces, build (f span) (pieces.map (Parsed.relocate move f))
    = Build.relocate move f (build span pieces)

def UniformPiece (build : Parsed β → Build β) : Prop :=
  ∀ f piece, build (Parsed.relocate move f piece) = Build.relocate move f (build piece)

variable (textual : ν → Prop)

mutual

/-- Rules that look at characters alone, given that these symbols do. -/
def Textual : Rule ν β → Prop
  | tag _ | scalar _ => False
  | chars _ | commit _ => True
  | sequence parts build => AllTextual parts ∧ ∀ b ∈ build, Uniform move b
  | oneOf alternatives => AllTextual alternatives
  | many item | maybe item | named _ item => item.Textual
  | required item reason => item.Textual ∧ ∃ message, ∀ start count, reason start count = message
  | map item build => item.Textual ∧ UniformPiece move build
  | ref symbol => textual symbol

def AllTextual : List (Rule ν β) → Prop
  | [] => True
  | r :: rest => r.Textual ∧ AllTextual rest

end

theorem allTextual_iff (rules : List (Rule ν β)) :
    AllTextual move textual rules ↔ ∀ r ∈ rules, r.Textual move textual := by
  induction rules with
  | nil => simp [AllTextual]
  | cons r rest ih => simp [AllTextual, ih]

end Uniform

/-! Textual matches stay inside their string -/

/-- A match takes characters of the string that it starts in. -/
def Inside (tokens : Stream) (item : Nat → Outcome (Parsed β)) : Prop :=
  ∀ start parsed, item start = .matched parsed →
    parsed.1.start = start ∧ start ≤ parsed.1.stop ∧
      parsed.1.stop ≤ start + (tokens.charsAt start).length

section Inside

variable {tokens : Stream} {call : ν → Nat → Outcome (Parsed β)}

theorem charsAt_onward (hc : tokens.Coherent) {start stop : Nat} (hl : start ≤ stop)
    (hs : stop ≤ start + (tokens.charsAt start).length) :
    tokens.charsAt stop = (tokens.charsAt start).drop (stop - start) := by
  have := hc.charsAt_drop start (stop - start) (by omega)
  rwa [Nat.add_sub_cancel' hl] at this

theorem length_charsAt_onward (hc : tokens.Coherent) {start stop : Nat} (hl : start ≤ stop)
    (hs : stop ≤ start + (tokens.charsAt start).length) :
    stop + (tokens.charsAt stop).length = start + (tokens.charsAt start).length := by
  rw [charsAt_onward hc hl hs, List.length_drop]
  omega

theorem consecutive_inside (hc : tokens.Coherent) {item : Nat → Outcome (Parsed β)}
    (hi : Inside tokens item) {start stop : Nat} {items : List (Parsed β)}
    (h : Consecutive item start items stop) :
    start ≤ stop ∧ stop ≤ start + (tokens.charsAt start).length := by
  induction items generalizing start with
  | nil => obtain ⟨rfl, -⟩ := h; omega
  | cons parsed rest ih =>
      obtain ⟨hp, -, hr⟩ := h
      have hb := hi start parsed hp
      have := length_charsAt_onward hc hb.2.1 hb.2.2
      have := ih hr
      omega

theorem runAll_inside (hc : tokens.Coherent) {parts : List (Rule ν β)}
    (hi : ∀ part ∈ parts, Inside tokens (run tokens call part)) {start stop : Nat}
    {pieces : List (Parsed β)} (h : runAll tokens call parts start = .matched (stop, pieces)) :
    start ≤ stop ∧ stop ≤ start + (tokens.charsAt start).length := by
  induction parts generalizing start pieces with
  | nil => obtain ⟨rfl, -⟩ := runAll_nil_matched h; omega
  | cons part rest ih =>
      obtain ⟨piece, more, hp, hr, -⟩ := runAll_cons_matched h
      have hb := hi part List.mem_cons_self start piece hp
      have := length_charsAt_onward hc hb.2.1 hb.2.2
      have := ih (fun r hr => hi r (List.mem_cons_of_mem part hr)) hr
      omega

theorem run_inside (hc : tokens.Coherent) {move : (Span → Span) → β → β} {textual : ν → Prop}
    (hcall : ∀ symbol, textual symbol → Inside tokens (call symbol)) (r : Rule ν β)
    (ht : r.Textual move textual) : Inside tokens (run tokens call r) := by
  induction r using Rule.induct with
  | tag _ | scalar _ => exact ht.elim
  | chars take? =>
      intro start parsed h
      obtain ⟨count, -, rfl⟩ := run_chars_matched h
      have := List.length_take_le' count (tokens.charsAt start)
      exact ⟨rfl, by simp, by simp only; omega⟩
  | sequence parts build ih =>
      intro start parsed h
      have hi := fun part hm => ih part hm ((allTextual_iff move textual parts).1 ht.1 part hm)
      cases build with
      | none =>
          obtain ⟨stop, pieces, ha, rfl⟩ := run_sequence_none_matched h
          exact ⟨rfl, runAll_inside hc hi ha⟩
      | some build =>
          obtain ⟨stop, pieces, ha, -, hs⟩ := run_sequence_matched h
          rw [hs]
          exact ⟨rfl, runAll_inside hc hi ha⟩
  | oneOf alternatives ih =>
      intro start parsed h
      obtain ⟨r, hr, hm⟩ := run_oneOf_matched h
      exact ih r hr ((allTextual_iff move textual alternatives).1 ht r hr) start parsed hm
  | many item ih =>
      intro start parsed h
      obtain ⟨stop, items, hi, rfl⟩ := run_many_matched h
      exact ⟨rfl, consecutive_inside hc (ih ht) hi⟩
  | maybe item ih =>
      intro start parsed h
      obtain ⟨inner, hi, rfl⟩ | rfl := run_maybe_matched h
      · exact ih ht start inner hi
      · exact ⟨rfl, by simp [Span.empty], by simp [Span.empty]⟩
  | required item reason ih =>
      intro start parsed h
      exact ih ht.1 start parsed (run_required_matched h)
  | map item build ih =>
      intro start parsed h
      obtain ⟨inner, hi, -, hs⟩ := run_map_matched h
      rw [hs]
      exact ih ht.1 start inner hi
  | named name item ih => exact ih ht
  | commit message => intro start parsed h; cases h
  | ref symbol => exact hcall symbol ht

end Inside

/-! The same text at another place -/

section Shift

variable {first second : Stream} {move : (Span → Span) → β → β} {f : Span → Span}
  {distance lower upper : Nat}

/-- Between two bounds `f` moves every span by one distance. What it does to other spans is
left open. -/
def Moves (f : Span → Span) (distance lower upper : Nat) : Prop :=
  ∀ i j, lower ≤ i → i ≤ j → j ≤ upper → f ⟨i, j⟩ = ⟨i + distance, j + distance⟩

theorem moves_shift (distance lower upper : Nat) :
    Moves (Span.shift distance) distance lower upper :=
  fun _ _ _ _ _ => rfl

/-- The two readers agree wherever the streams spell the same text between the bounds. -/
def Shifted (first second : Stream) (move : (Span → Span) → β → β) (f : Span → Span)
    (distance lower upper : Nat) (item other : Nat → Outcome (Parsed β)) : Prop :=
  ∀ start, lower ≤ start → start + (second.charsAt start).length ≤ upper →
    first.charsAt (start + distance) = second.charsAt start →
      item (start + distance) = (other start).transport f (Parsed.relocate move f)

theorem charsAt_shift_onward (hf : first.Coherent) (hs : second.Coherent) {start stop : Nat}
    (h : first.charsAt (start + distance) = second.charsAt start) (hl : start ≤ stop)
    (hi : stop ≤ start + (second.charsAt start).length) :
    first.charsAt (stop + distance) = second.charsAt stop := by
  have hl' : start + distance ≤ stop + distance := by omega
  have hi' : stop + distance ≤ start + distance + (first.charsAt (start + distance)).length := by
    rw [h]
    omega
  rw [charsAt_onward hs hl hi, charsAt_onward hf hl' hi', h, Nat.add_sub_add_right]

/-- A chain of matches with the place behind it, moved along. -/
def moveAll (move : (Span → Span) → β → β) (f : Span → Span) (distance : Nat)
    (chain : Nat × List (Parsed β)) : Nat × List (Parsed β) :=
  (chain.1 + distance, chain.2.map (Parsed.relocate move f))

theorem repeatedly_shift (hf : first.Coherent) (hs : second.Coherent)
    (hm : Moves f distance lower upper)
    {item other : Nat → Outcome (Parsed β)} (hi : Inside second other)
    (h : Shifted first second move f distance lower upper item other)
    {budget budget' start : Nat}
    (hb : (second.charsAt start).length < budget) (hb' : (second.charsAt start).length < budget')
    (hl : lower ≤ start) (hu : start + (second.charsAt start).length ≤ upper)
    (ht : first.charsAt (start + distance) = second.charsAt start) :
    repeatedly item budget (start + distance)
      = (repeatedly other budget' start).transport f (moveAll move f distance) := by
  induction budget generalizing budget' start with
  | zero => omega
  | succ budget ih =>
      obtain ⟨budget', rfl⟩ : ∃ n, budget' = n + 1 := ⟨budget' - 1, by omega⟩
      simp only [repeatedly, h start hl hu ht]
      cases ho : other start with
      | unfinished | noMatch | committed x => rfl
      | matched parsed =>
          obtain ⟨⟨first', last⟩, payload⟩ := parsed
          obtain ⟨hp, hle, hge⟩ := hi start _ ho
          simp only at hp hle hge
          have hon := charsAt_shift_onward hf hs ht hle hge
          have hlen := length_charsAt_onward hs hle hge
          simp only [Outcome.transport, Parsed.relocate, hp,
            hm start last hl hle (Nat.le_trans hge hu), Span.isEmpty, Span.length,
            Nat.add_sub_add_right]
          split
          · rfl
          · next hne =>
              have hlt : start < last := by
                simp only [beq_iff_eq] at hne
                omega
              rw [ih (by omega) (by omega : _ < budget') (by omega) (by omega) hon]
              apply Outcome.bind_transport _ _
              intro chain _
              simp only [Outcome.transport, moveAll, List.map_cons, Parsed.relocate,
                hm start last hl hle (Nat.le_trans hge hu)]

variable {callFirst callSecond : ν → Nat → Outcome (Parsed β)}

theorem runAll_shift (hf : first.Coherent) (hs : second.Coherent)
    (hm : Moves f distance lower upper) {parts : List (Rule ν β)}
    (hi : ∀ part ∈ parts, Inside second (run second callSecond part))
    (h : ∀ part ∈ parts, Shifted first second move f distance lower upper
      (run first callFirst part) (run second callSecond part)) {start : Nat}
    (hl : lower ≤ start) (hu : start + (second.charsAt start).length ≤ upper)
    (ht : first.charsAt (start + distance) = second.charsAt start) :
    runAll first callFirst parts (start + distance)
      = (runAll second callSecond parts start).transport f (moveAll move f distance) := by
  induction parts generalizing start with
  | nil => rfl
  | cons part rest ih =>
      simp only [runAll, h part List.mem_cons_self start hl hu ht]
      apply Outcome.bind_transport _ _
      intro piece hp
      obtain ⟨⟨first', last⟩, payload⟩ := piece
      obtain ⟨hstart, hle, hge⟩ := hi part List.mem_cons_self start _ hp
      simp only at hstart hle hge
      have hon := charsAt_shift_onward hf hs ht hle hge
      have hlen := length_charsAt_onward hs hle hge
      have hrest := ih (fun r hr => hi r (List.mem_cons_of_mem part hr))
        (fun r hr => h r (List.mem_cons_of_mem part hr)) (by omega) (by omega) hon
      have hspan := hm start last hl hle (Nat.le_trans hge hu)
      simp only [Parsed.relocate, hstart, hspan, hrest]
      apply Outcome.bind_transport _ _
      intro chain _
      simp only [Outcome.transport, moveAll, List.map_cons, Parsed.relocate, hspan]

theorem runFirst_shift {alternatives : List (Rule ν β)} {start : Nat}
    (h : ∀ r ∈ alternatives, Shifted first second move f distance lower upper
      (run first callFirst r) (run second callSecond r))
    (hl : lower ≤ start) (hu : start + (second.charsAt start).length ≤ upper)
    (ht : first.charsAt (start + distance) = second.charsAt start) :
    runFirst first callFirst alternatives (start + distance)
      = (runFirst second callSecond alternatives start).transport f (Parsed.relocate move f) := by
  induction alternatives with
  | nil => rfl
  | cons r rest ih =>
      have hrest := ih fun s hs => h s (List.mem_cons_of_mem r hs)
      simp only [runFirst, h r List.mem_cons_self start hl hu ht, hrest]
      cases run second callSecond r start with
      | unfinished | noMatch | matched _ => rfl
      | committed x => cases runFirst second callSecond rest start <;> rfl

theorem run_shift (hf : first.Coherent) (hs : second.Coherent)
    (hm : Moves f distance lower upper) {textual : ν → Prop}
    (hi : ∀ symbol, textual symbol → Inside second (callSecond symbol))
    (h : ∀ symbol, textual symbol →
      Shifted first second move f distance lower upper (callFirst symbol) (callSecond symbol))
    (r : Rule ν β) (hr : r.Textual move textual) :
    Shifted first second move f distance lower upper (run first callFirst r)
      (run second callSecond r) := by
  induction r using Rule.induct with
  | tag _ | scalar _ => exact hr.elim
  | chars take? =>
      intro start hl hu ht
      simp only [run, ht]
      cases take? (second.charsAt start) with
      | none => rfl
      | some count =>
          have := List.length_take_le' count (second.charsAt start)
          have hspan := hm start (start + ((second.charsAt start).take count).length) hl
            (Nat.le_add_right _ _) (by omega)
          simp only [Outcome.transport, Parsed.relocate, Payload.relocate, hspan]
          rw [Nat.add_right_comm start distance]
  | sequence parts build ih =>
      intro start hl hu ht
      have hall := (allTextual_iff move textual parts).1 hr.1
      have hin := fun part hp => run_inside hs hi part (hall part hp)
      simp only [run, runAll_shift hf hs hm hin (fun part hp => ih part hp (hall part hp)) hl hu ht]
      apply Outcome.bind_transport _ _
      intro chain hc
      obtain ⟨hle, hge⟩ := runAll_inside hs hin hc
      have hspan := hm start chain.1 hl hle (by omega)
      cases build with
      | none => simp only [moveAll, Outcome.transport, Parsed.relocate, Payload.relocate, hspan]
      | some build =>
          have hb := hr.2 build rfl f ⟨start, chain.1⟩ chain.2
          simp only [moveAll]
          rw [← Outcome.ofBuild_relocate, ← hb, hspan]
  | oneOf alternatives ih =>
      intro start hl hu ht
      exact runFirst_shift
        (fun r hr' => ih r hr' ((allTextual_iff move textual alternatives).1 hr r hr')) hl hu ht
  | many item ih =>
      intro start hl hu ht
      have hin := run_inside hs hi item hr
      have h1 := hf.charsAt_length_le (start + distance)
      have h2 := hs.charsAt_length_le start
      rw [ht] at h1
      have hb : (second.charsAt start).length < first.size - (start + distance) + 1 := by omega
      have hb' : (second.charsAt start).length < second.size - start + 1 := by omega
      simp only [run, repeatedly_shift hf hs hm hin (ih hr) hb hb' hl hu ht]
      apply Outcome.bind_transport _ _
      intro chain hc
      obtain ⟨hle, hge⟩ := consecutive_inside hs hin (repeatedly_matched hc)
      simp only [Outcome.transport, Parsed.relocate, Payload.relocate, Payload.relocateAll_eq_map,
        moveAll, hm start chain.1 hl hle (by omega)]
  | maybe item ih =>
      intro start hl hu ht
      have hempty : f (.empty start) = .empty (start + distance) :=
        hm start start hl (Nat.le_refl _) (by omega)
      simp only [run, ih hr start hl hu ht]
      cases run second callSecond item start with
      | unfinished | matched _ => rfl
      | noMatch | committed x =>
          simp only [Outcome.transport, Parsed.relocate, Payload.relocate, hempty]
  | required item reason ih =>
      intro start hl hu ht
      obtain ⟨message, hmessage⟩ := hr.2
      have hempty : f (.empty start) = .empty (start + distance) :=
        hm start start hl (Nat.le_refl _) (by omega)
      simp only [run, ih hr.1 start hl hu ht, hmessage]
      cases run second callSecond item start with
      | unfinished | matched _ | committed x => rfl
      | noMatch => simp only [Outcome.transport, Failure.relocate_rejected, hempty]
  | map item build ih =>
      intro start hl hu ht
      simp only [run, ih hr.1 start hl hu ht]
      apply Outcome.bind_transport _ _
      intro piece _
      rw [hr.2, ← Outcome.ofBuild_relocate]
      rfl
  | named name item ih => exact ih hr
  | commit message =>
      intro start hl hu ht
      have hempty : f (.empty start) = .empty (start + distance) :=
        hm start start hl (Nat.le_refl _) (by omega)
      simp only [run, Outcome.transport, Failure.relocate_rejected, hempty]
  | ref symbol => exact h symbol hr

end Shift

end Rule
end JsonTemplate
