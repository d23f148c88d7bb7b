import JsonTemplate.Proofs.Document.Strings
import JsonTemplate.Proofs.Expression.Relocation

/-!
One string of a document. The template of a string is read from its characters alone, so
it is the same, but for its spans, wherever the string stands; and what goes wrong in it
goes wrong between its brackets.
-/

namespace JsonTemplate

namespace Rules

open Rule (Moves Shifted)

/-- Text and interpolations, as many as there are. -/
def stringParts : TemplateRule := must (.many (.oneOf [interpolation, plainText])) .stringParts

theorem literary_stringParts : Literary stringParts := by
  have hparts : Literary (.many (.oneOf [interpolation, plainText])) :=
    ⟨literary_interpolation, literary_plainText, trivial⟩
  exact literary_must hparts _

/-- What becomes of the parts of a string that stands between `start` and `stop`. -/
def closeString (start stop : Nat) (parts : Piece) : Outcome Piece :=
  if parts.1.stop + 1 = stop then
    .ofBuild ⟨start, stop⟩
      (buildNodes .template ⟨start, stop⟩
        [(⟨start, start + 1⟩, .unit), parts, (⟨parts.1.stop, stop⟩, .unit)])
  else .committed (.rejected Expectation.stringEnd.message (.empty parts.1.stop))

theorem template_eq :
    template = .sequence
      [.tag (.opening .string), stringParts, must (.tag (.closing .string)) .stringEnd]
      (some (buildNodes .template)) := rfl

variable {tokens : Stream} {start : Nat} {s : String}

/-- The closing token stands where the characters end, and nowhere before. -/
theorem run_stringEnd (h : tokens.Spells start s) {place : Nat} (hl : start + 1 ≤ place)
    (hu : place ≤ start + 1 + s.toList.length) :
    (must (.tag (.closing .string)) .stringEnd).run tokens (run tokens) place
      = if place + 1 = start + s.toList.length + 2 then .matched (⟨place, place + 1⟩, .unit)
        else .committed (.rejected Expectation.stringEnd.message (.empty place)) := by
  split
  · next he =>
      have hp : place = start + 1 + s.toList.length := by omega
      simp only [must, Rule.run, hp, h.tagAt?_last, if_true]
  · next hn =>
      have hi := h.tagAt?_inner (i := place - (start + 1)) (by omega)
      rw [Nat.add_sub_cancel' hl] at hi
      simp only [must, Rule.run, hi, Option.some.injEq, reduceCtorEq, if_false]

theorem run_template (hc : tokens.Coherent) (h : tokens.Spells start s) :
    template.run tokens (run tokens) start
      = (stringParts.run tokens (run tokens) (start + 1)).bind
          (closeString start (start + s.toList.length + 2)) := by
  rw [template_eq]
  cases hp : stringParts.run tokens (run tokens) (start + 1) with
  | unfinished | noMatch | committed x => simp [Rule.run, Rule.runAll, h.tagAt?, hp]
  | matched parts =>
      obtain ⟨-, hle, hge⟩ := run_inside hc literary_stringParts (start + 1) parts hp
      rw [h.charsAt] at hge
      have hend := run_stringEnd h hle hge
      by_cases he : parts.1.stop + 1 = start + s.toList.length + 2
      · rw [if_pos he, he] at hend
        rw [Outcome.matched_bind, closeString, if_pos he]
        simp [Rule.run, Rule.runAll, h.tagAt?, hp, hend]
      · rw [if_neg he] at hend
        rw [Outcome.matched_bind, closeString, if_neg he]
        simp [Rule.run, Rule.runAll, h.tagAt?, hp, hend]

theorem template_uniform : Rule.Uniform Fragment.relocate (buildNodes .template) :=
  buildNodes_uniform fun f nodes span => by rw [Node.relocate, Node.relocateAll_eq_map]

/-- The template of a string is the same wherever the string stands. -/
theorem run_template_shift {first second : Stream} {f : Span → Span} {distance : Nat}
    (hf : first.Coherent) (hs : second.Coherent) (hfs : first.Spells (start + distance) s)
    (hss : second.Spells start s)
    (hm : Moves f distance start (start + s.toList.length + 1))
    (hlast : ∀ i, start ≤ i → i ≤ start + s.toList.length + 1 →
      f ⟨i, start + s.toList.length + 2⟩ = ⟨i + distance, start + s.toList.length + 2 + distance⟩) :
    template.run first (run first) (start + distance)
      = (template.run second (run second) start).transport f (Piece.relocate f) := by
  have ht : first.charsAt (start + 1 + distance) = second.charsAt (start + 1) := by
    rw [hss.charsAt, Nat.add_right_comm, hfs.charsAt]
  have hparts := run_shift hf hs hm literary_stringParts (start + 1) (Nat.le_add_right _ _)
    (by rw [hss.charsAt]; omega) ht
  rw [run_template hf hfs, run_template hs hss, Nat.add_right_comm, hparts]
  apply Outcome.bind_transport _ _
  intro parts hp
  obtain ⟨hstart, hle, hge⟩ := run_inside hs literary_stringParts (start + 1) parts hp
  rw [hss.charsAt] at hge
  obtain ⟨⟨begin, stop⟩, payload⟩ := parts
  simp only at hstart hle hge
  have hspan := hm begin stop (by omega) (by omega) (by omega)
  by_cases he : stop + 1 = start + s.toList.length + 2
  · have hspan' := hlast start (by omega) (by omega)
    have hopen := hm start (start + 1) (by omega) (by omega) (by omega)
    have hclose := hlast stop (by omega) (by omega)
    have hb := template_uniform f ⟨start, start + s.toList.length + 2⟩
      [(⟨start, start + 1⟩, .unit), (⟨begin, stop⟩, payload),
        (⟨stop, start + s.toList.length + 2⟩, .unit)]
    have he' : stop + distance + 1 = start + distance + s.toList.length + 2 := by omega
    have hstop : start + distance + s.toList.length + 2 = start + s.toList.length + 2 + distance := by
      omega
    simp only [List.map_cons, List.map_nil, Parsed.relocate, hspan, hspan', hopen, hclose,
      Payload.relocate] at hb
    simp only [closeString, Parsed.relocate, hspan, he, he', if_true]
    rw [← Outcome.ofBuild_relocate, ← hb, hspan', hstop, Nat.add_right_comm start 1]
  · have hempty : f (.empty stop) = .empty (stop + distance) :=
      hm stop stop (by omega) (by omega) (by omega)
    have he' : stop + distance + 1 ≠ start + distance + s.toList.length + 2 := by omega
    simp only [closeString, Parsed.relocate, hspan, he, he', if_false, Outcome.transport,
      Failure.relocate_rejected, hempty]

/-! What a string is worth by itself -/

/-- A tree or an entry, or why there is none, as what a rule makes of a span. -/
def answer {α : Type} (wrap : α → Fragment) (span : Span) : Except Failure α → Outcome Piece
  | .ok a => .matched (span, .value (wrap a))
  | .error x => .committed x

theorem ofBuild_shaped (span place : Span) (n? : Option Node) :
    ∃ r, Outcome.ofBuild span (shaped place n?) = answer .node span r := by
  cases n? with
  | none => exact ⟨.error _, rfl⟩
  | some n => exact ⟨.ok n, rfl⟩

theorem must_ne_noMatch {call : Symbol → Nat → Outcome Piece} (item : TemplateRule)
    (e : Expectation) (start : Nat) : (must item e).run tokens call start ≠ .noMatch := by
  simp only [must, Rule.run]
  intro h
  split at h <;> cases h

/-- A template never gives up for another alternative, and it takes the whole string. -/
theorem run_template_answer (hc : tokens.Coherent) (h : tokens.Spells start s) :
    ∃ r, template.run tokens (run tokens) start
      = answer .node ⟨start, start + s.toList.length + 2⟩ r := by
  have hfinished := run_isFinished hc .document start
  rw [run_eq_body hc] at hfinished
  have ht := run_template hc h
  cases hp : stringParts.run tokens (run tokens) (start + 1) with
  | unfinished =>
      rw [hp] at ht
      simp [body, document, must, Rule.run, Rule.runFirst, ht, Outcome.isFinished] at hfinished
  | noMatch => exact absurd hp (must_ne_noMatch _ _ _)
  | committed x => exact ⟨.error x, by rw [ht, hp]; rfl⟩
  | matched parts =>
      rw [ht, hp, Outcome.matched_bind, closeString]
      split
      · exact ofBuild_shaped _ _ _
      · exact ⟨.error _, rfl⟩

/-- The tree that a match is worth, or why there is none. -/
def result : Outcome Piece → Except Failure Node
  | .matched (_, .value (.node n)) => .ok n
  | .committed x => .error x
  | _ => .error (.defect "Failed to parse" (.empty 0))

theorem result_answer (span : Span) (r : Except Failure Node) : result (answer .node span r) = r := by
  cases r <;> rfl

/-- The tree of a string that stands alone, or why there is none. -/
def readText (s : String) : Except Failure Node :=
  result (template.run (Stream.ofJson (.str s)) (run (Stream.ofJson (.str s))) 0)

theorem run_template_alone (s : String) :
    template.run (Stream.ofJson (.str s)) (run (Stream.ofJson (.str s))) 0
      = answer .node ⟨0, 0 + s.toList.length + 2⟩ (readText s) := by
  obtain ⟨r, hr⟩ := run_template_answer (Stream.coherent_ofJson _) (Stream.spells_str s)
  rw [readText, hr, result_answer]

theorem answer_transport (f : Span → Span) (span : Span) (r : Except Failure Node) :
    (answer .node span r).transport f (Piece.relocate f)
      = answer .node (f span) (Failure.transport f (Node.relocate f) r) := by
  cases r <;> rfl

/-- Wherever a string stands, its template is that of the string alone. -/
theorem run_template_read (hc : tokens.Coherent) (h : tokens.Spells start s) :
    template.run tokens (run tokens) start
      = answer .node ⟨start, start + s.toList.length + 2⟩
          (Failure.transport (Span.shift start) (Node.relocate (Span.shift start)) (readText s)) := by
  have := run_template_shift (f := Span.shift start) hc (Stream.coherent_ofJson _)
    (by rwa [Nat.zero_add]) (Stream.spells_str s) (Rule.moves_shift start _ _) fun _ _ _ => rfl
  rw [run_template_alone, answer_transport, Nat.zero_add, Span.shift, Nat.zero_add, Nat.zero_add,
    Nat.add_comm (s.toList.length + 2), ← Nat.add_assoc] at this
  exact this

/-- What goes wrong in a string goes wrong between its brackets. -/
theorem span_of_readText_error {x : Failure} (h : readText s = .error x) :
    x.head.span.start < s.toList.length + 2 := by
  let f : Span → Span := fun span => if span.start < s.toList.length + 2 then span else .empty 0
  have hf : ∀ i j, i < s.toList.length + 2 → f ⟨i, j⟩ = ⟨i, j⟩ := fun i j hi => if_pos hi
  have hc := Stream.coherent_ofJson (.str s)
  have hs := Stream.spells_str s
  have hm : Moves f 0 0 (0 + s.toList.length + 1) := fun i j _ hij hj => hf i j (by omega)
  have hstill := run_template_shift hc hc hs hs hm fun i _ hi => hf i _ (by omega)
  rw [run_template_alone, h, answer_transport] at hstill
  have hx : x = x.relocate f := by
    simpa only [answer, Failure.transport, Outcome.committed.injEq] using hstill
  apply Nat.lt_of_not_le
  intro hn
  have hs : x.head.span = f x.head.span := congrArg (fun x => x.head.span) hx
  have hz : f x.head.span = .empty 0 := if_neg (Nat.not_lt.2 hn)
  rw [hs, hz] at hn
  simp [Span.empty] at hn

end Rules
end JsonTemplate
