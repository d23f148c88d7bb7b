import JsonTemplate.Proofs.Rule.Extent

/-!
Which calls a run depends on. Where a rule starts it can only call the symbols that it may
lead with; every other call comes after a token was taken. Two meanings of the symbols
that agree on those calls give the same outcome, and the run ends if those calls do.
-/

namespace JsonTemplate
namespace Rule

variable {ν β : Type}

mutual

/-- The symbols that a run of the rule may call at the place where it starts. -/
def LeadsTo (leads : ν → Prop) : Rule ν β → Prop
  | tag _ | scalar _ | chars _ | commit _ => True
  | sequence parts _ => PartsLeadTo leads parts
  | oneOf alternatives => AllLeadTo leads alternatives
  | many item | maybe item | required item _ | map item _ | named _ item => item.LeadsTo leads
  | ref symbol => leads symbol

/-- Parts behind an eager one are run further on. -/
def PartsLeadTo (leads : ν → Prop) : List (Rule ν β) → Prop
  | [] => True
  | part :: rest => part.LeadsTo leads ∧ (part.Eager ∨ PartsLeadTo leads rest)

def AllLeadTo (leads : ν → Prop) : List (Rule ν β) → Prop
  | [] => True
  | r :: rest => r.LeadsTo leads ∧ AllLeadTo leads rest

end

theorem allLeadTo_iff (leads : ν → Prop) (rules : List (Rule ν β)) :
    AllLeadTo leads rules ↔ ∀ r ∈ rules, r.LeadsTo leads := by
  induction rules with
  | nil => simp [AllLeadTo]
  | cons r rest ih => simp [AllLeadTo, ih]

theorem partsLeadTo_of_forall (leads : ν → Prop) (parts : List (Rule ν β))
    (h : ∀ r ∈ parts, r.LeadsTo leads) : PartsLeadTo leads parts := by
  induction parts with
  | nil => trivial
  | cons r rest ih =>
      exact ⟨h r List.mem_cons_self, .inr (ih fun s hs => h s (List.mem_cons_of_mem r hs))⟩

theorem leadsTo_anything (r : Rule ν β) : r.LeadsTo fun _ => True := by
  induction r using Rule.induct with
  | tag _ | scalar _ | chars _ | commit _ | ref _ => trivial
  | sequence parts build ih => exact partsLeadTo_of_forall _ parts ih
  | oneOf alternatives ih => exact (allLeadTo_iff _ alternatives).2 ih
  | many _ ih | maybe _ ih | required _ _ ih | map _ _ ih | named _ _ ih => exact ih

section Agreement

variable {tokens : Stream} {first second : ν → Nat → Outcome (Parsed β)}

/-- The two meanings agree on the calls that a run from `start` can make. -/
def Agree (size : Nat) (first second : ν → Nat → Outcome (Parsed β)) (leads : ν → Prop)
    (start : Nat) : Prop :=
  (∀ symbol, leads symbol → first symbol start = second symbol start) ∧
    ∀ symbol place, start < place → place ≤ size → first symbol place = second symbol place

theorem Agree.onward {size start place : Nat} {leads : ν → Prop}
    (h : Agree size first second leads start) (hl : start < place) (hp : place ≤ size) :
    Agree size first second (fun _ => True) place :=
  ⟨fun symbol _ => h.2 symbol place hl hp,
    fun symbol further hf hs => h.2 symbol further (Nat.lt_trans hl hf) hs⟩

theorem repeatedly_congr {size : Nat} {item other : Nat → Outcome (Parsed β)}
    (hw : Within size item) {budget start : Nat} (h : item start = other start)
    (hl : ∀ place, start < place → place ≤ size → item place = other place) :
    repeatedly item budget start = repeatedly other budget start := by
  induction budget generalizing start with
  | zero => rfl
  | succ budget ih =>
      simp only [repeatedly, ← h]
      split
      · next parsed hp =>
          split
          · rfl
          · next he =>
              have hb := hw start parsed hp
              have hne := (Span.isEmpty_eq_false_iff parsed.1).1 (by simpa using he)
              have hle : start < parsed.1.stop ∧ parsed.1.stop ≤ size := by omega
              rw [ih (hl _ hle.1 hle.2) fun place hp hs => hl place (by omega) hs]
      · rfl
      · rfl
      · rfl

theorem runAll_congr {size : Nat} {parts : List (Rule ν β)}
    (hw : ∀ part ∈ parts, Within size (run tokens first part))
    (ha : ∀ part ∈ parts, part.Eager → Advancing (run tokens first part))
    (ih : ∀ part ∈ parts, ∀ leads start, part.LeadsTo leads →
      Agree size first second leads start →
      run tokens first part start = run tokens second part start)
    {leads : ν → Prop} {start : Nat} (hl : PartsLeadTo leads parts)
    (h : Agree size first second leads start) :
    runAll tokens first parts start = runAll tokens second parts start := by
  induction parts generalizing leads start with
  | nil => rfl
  | cons part rest ihrest =>
      have hm := fun r (hr : r ∈ rest) => List.mem_cons_of_mem part hr
      have hcont : ∀ leads start, PartsLeadTo leads rest → Agree size first second leads start →
          runAll tokens first rest start = runAll tokens second rest start :=
        fun leads start => ihrest (fun r hr => hw r (hm r hr)) (fun r hr => ha r (hm r hr))
          (fun r hr => ih r (hm r hr))
      have hhead := ih part List.mem_cons_self leads start hl.1 h
      simp only [runAll, ← hhead]
      cases hp : run tokens first part start with
      | unfinished | noMatch | committed f => rfl
      | matched piece =>
          have hb := hw part List.mem_cons_self start piece hp
          have hrest : runAll tokens first rest piece.1.stop
              = runAll tokens second rest piece.1.stop := by
            by_cases hlt : start < piece.1.stop
            · exact hcont _ _ (partsLeadTo_of_forall _ rest fun r _ => leadsTo_anything r)
                (h.onward hlt (by omega))
            · -- the part took no token, so it is not eager and the rest leads as well
              have heq : piece.1.stop = start := by omega
              rw [heq]
              obtain he | hr := hl.2
              · exact absurd (ha part List.mem_cons_self he start piece hp) hlt
              · exact hcont leads start hr h
          simp only [Outcome.bind, hrest]

theorem runFirst_congr {alternatives : List (Rule ν β)} {start : Nat}
    (h : ∀ r ∈ alternatives, run tokens first r start = run tokens second r start) :
    runFirst tokens first alternatives start = runFirst tokens second alternatives start := by
  induction alternatives with
  | nil => rfl
  | cons r rest ih =>
      have hrest := ih fun s hs => h s (List.mem_cons_of_mem r hs)
      simp only [runFirst, h r List.mem_cons_self, hrest]

theorem run_congr (hc : tokens.Coherent) (hw : ∀ symbol, Within tokens.size (first symbol))
    (ha : ∀ symbol, Advancing (first symbol)) (r : Rule ν β) {leads : ν → Prop} {start : Nat}
    (hl : r.LeadsTo leads) (h : Agree tokens.size first second leads start) :
    run tokens first r start = run tokens second r start := by
  induction r using Rule.induct generalizing leads start with
  | tag _ | scalar _ | chars _ | commit _ => rfl
  | sequence parts build ih =>
      have hall := runAll_congr (fun part _ => run_within hc hw part)
        (fun part _ he => run_advancing hc hw ha part he)
        (fun part hm leads start hl h => ih part hm hl h) hl h
      simp only [run, hall]
  | oneOf alternatives ih =>
      exact runFirst_congr fun r hr => ih r hr ((allLeadTo_iff leads alternatives).1 hl r hr) h
  | many item ih =>
      have hi (budget : Nat) : repeatedly (run tokens first item) budget start
          = repeatedly (run tokens second item) budget start :=
        repeatedly_congr (run_within hc hw item) (ih hl h)
          fun place hp hs => ih (leadsTo_anything item) (h.onward hp hs)
      simp only [run, hi]
  | maybe item ih | required item reason ih | map item build ih => simp only [run, ih hl h]
  | named name item ih => exact ih hl h
  | ref symbol => exact h.1 symbol hl

end Agreement

section Ending

variable {tokens : Stream} {call : ν → Nat → Outcome (Parsed β)}

theorem bind_isFinished {α γ : Type} {o : Outcome α} {next : α → Outcome γ}
    (ho : o.isFinished = true) (hn : ∀ a, (next a).isFinished = true) :
    (o.bind next).isFinished = true := by
  cases o with
  | unfinished => cases ho
  | noMatch | committed f => rfl
  | matched a => exact hn a

theorem ofBuild_isFinished (span : Span) (b : Build β) :
    (Outcome.ofBuild span b).isFinished = true := by
  rcases b with f | (_ | p) <;> rfl

theorem runAll_isFinished {parts : List (Rule ν β)}
    (h : ∀ part ∈ parts, ∀ start, (run tokens call part start).isFinished = true) (start : Nat) :
    (runAll tokens call parts start).isFinished = true := by
  induction parts generalizing start with
  | nil => rfl
  | cons part rest ih =>
      apply bind_isFinished (h part List.mem_cons_self start)
      intro piece
      refine bind_isFinished (ih (fun r hr => h r (List.mem_cons_of_mem part hr)) _) fun _ => rfl

theorem runFirst_isFinished {alternatives : List (Rule ν β)} {start : Nat}
    (h : ∀ r ∈ alternatives, (run tokens call r start).isFinished = true) :
    (runFirst tokens call alternatives start).isFinished = true := by
  induction alternatives with
  | nil => rfl
  | cons r rest ih =>
      have hr := h r List.mem_cons_self
      have hrest := ih fun s hs => h s (List.mem_cons_of_mem r hs)
      simp only [runFirst]
      split
      · exact hrest
      · split
        · rfl
        · exact hrest
      · exact hr

theorem run_isFinished (hc : tokens.Coherent) (hw : ∀ symbol, Within tokens.size (call symbol))
    (h : ∀ symbol start, (call symbol start).isFinished = true) (r : Rule ν β) (start : Nat) :
    (run tokens call r start).isFinished = true := by
  induction r using Rule.induct generalizing start with
  | tag _ | scalar _ | chars _ => simp only [run]; repeat' split <;> try rfl
  | commit _ => rfl
  | sequence parts build ih =>
      apply bind_isFinished (runAll_isFinished (fun part hm => ih part hm) start)
      intro piece
      cases build with
      | none => rfl
      | some build => exact ofBuild_isFinished _ _
  | oneOf alternatives ih => exact runFirst_isFinished fun r hr => ih r hr start
  | many item ih =>
      refine bind_isFinished ?_ fun _ => rfl
      exact repeatedly_isFinished (run_within hc hw item) ih (Nat.lt_succ_self _)
  | maybe item ih | required item reason ih =>
      have := ih start
      simp only [run]
      split <;> simp_all [Outcome.isFinished]
  | map item build ih => exact bind_isFinished (ih start) fun _ => ofBuild_isFinished _ _
  | named name item ih => exact ih start
  | ref symbol => exact h symbol start

/-- The same outcomes, with none in place of those that never came. -/
def settled (call : ν → Nat → Outcome (Parsed β)) (symbol : ν) (start : Nat) :
    Outcome (Parsed β) :=
  if (call symbol start).isFinished then call symbol start else .noMatch

theorem settled_eq {symbol : ν} {start : Nat} (h : (call symbol start).isFinished = true) :
    settled call symbol start = call symbol start := by
  simp [settled, h]

theorem settled_matched {symbol : ν} {start : Nat} {parsed : Parsed β}
    (h : settled call symbol start = .matched parsed) : call symbol start = .matched parsed := by
  simp only [settled] at h
  split at h
  · exact h
  · cases h

/-- A run ends if the calls that it can make do. -/
theorem run_isFinished_of_leadsTo (hc : tokens.Coherent)
    (hw : ∀ symbol, Within tokens.size (call symbol)) (ha : ∀ symbol, Advancing (call symbol))
    (r : Rule ν β) {leads : ν → Prop} {start : Nat} (hl : r.LeadsTo leads)
    (hnow : ∀ symbol, leads symbol → (call symbol start).isFinished = true)
    (hlater : ∀ symbol place, start < place → place ≤ tokens.size →
      (call symbol place).isFinished = true) :
    (run tokens call r start).isFinished = true := by
  have hagree : Agree tokens.size call (settled call) leads start :=
    ⟨fun symbol hs => (settled_eq (hnow symbol hs)).symm,
      fun symbol place hp hs => (settled_eq (hlater symbol place hp hs)).symm⟩
  rw [run_congr hc hw ha r hl hagree]
  refine run_isFinished hc (fun symbol start parsed h => hw symbol start parsed (settled_matched h))
    (fun symbol start => ?_) r start
  simp only [settled]
  split
  · assumption
  · rfl

end Ending

end Rule
end JsonTemplate
