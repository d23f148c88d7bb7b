import JsonTemplate.Proofs.Rule.Calls

/-!
What a symbol comes to, one call at a time. `Binding.run` runs what a symbol stands for,
with its own calls handed to a function; a grammar makes that function of itself, one call
deeper. Whatever the symbols of a grammar stand for, their matches stay inside the stream.
-/

namespace JsonTemplate

variable {ν β : Type} {tokens : Stream}

/-- A run calls symbols where it stands or further on in the stream. -/
theorem Rule.Calls.within (hc : tokens.Coherent) {call : ν → Nat → Outcome (Parsed β)}
    (hw : ∀ symbol, Within tokens.size (call symbol)) {r : Rule ν β} {start place : Nat}
    {symbol : ν} (h : r.Calls tokens call start symbol place) :
    start ≤ place ∧ place ≤ max start tokens.size := by
  induction h with
  | ref symbol start => omega
  | @sequence front _ _ _ start stop _ _ _ hr _ ih =>
      have := Rule.runAll_within (fun part (_ : part ∈ front) => Rule.run_within hc hw part) hr
      omega
  | oneOf _ _ ih => exact ih
  | many hr _ ih =>
      have := hr.within (Rule.run_within hc hw _)
      omega
  | maybe _ ih | required _ ih | map _ ih | named _ ih => exact ih

variable [DecidableEq ν]

/-- The alternatives that a symbol resolves to, or the failure in their place. -/
def Resolution.outcome (start : Nat) : Resolution ν β → Outcome (List (Rule ν β))
  | unfinished => .unfinished
  | unknown => .committed (.defect Grammar.unknownTarget (.empty start))
  | alternatives rules => .matched rules
  | unsupported label => .committed (.defect (Grammar.unsupported label) (.empty start))

/-- Runs what a symbol stands for; `find` follows names and forward declarations. -/
def Binding.run (tokens : Stream) (find : ν → Resolution ν β)
    (call : ν → Nat → Outcome (Parsed β)) : Binding ν β → Nat → Outcome (Parsed β)
  | .rule r, start => r.run tokens call start
  | .forward none, start => .committed (.defect Grammar.unknownForward (.empty start))
  | .forward (some target), start => call target start
  | .spoiled, start => .committed (.defect Grammar.unknownTarget (.empty start))
  | .view target excluded, start =>
      ((find target).outcome start).bind fun rules =>
        Rule.runFirst tokens call (Rule.excluding excluded rules) start

theorem Grammar.parse_succ (g : Grammar ν β) (n : Nat) (symbol : ν) :
    g.parse tokens (n + 1) symbol
      = (g symbol).run tokens (g.resolve n) (g.parse tokens n) := by
  funext start
  rw [parse]
  cases g symbol with
  | rule _ | spoiled => rfl
  | forward target => cases target <;> rfl
  | view target excluded =>
      simp only [Binding.run]
      cases g.resolve n target <;> rfl

/-! Matches stay inside the stream -/

theorem Binding.run_within (hc : tokens.Coherent) {find : ν → Resolution ν β}
    {call : ν → Nat → Outcome (Parsed β)} (hw : ∀ symbol, Within tokens.size (call symbol))
    (b : Binding ν β) : Within tokens.size (b.run tokens find call) := by
  intro start parsed h
  cases b with
  | rule r => exact Rule.run_within hc hw r start parsed h
  | spoiled => cases h
  | forward target =>
      cases target with
      | none => cases h
      | some target => exact hw target start parsed h
  | view target excluded =>
      obtain ⟨rules, -, hrules⟩ := Outcome.bind_eq_matched.1 h
      obtain ⟨r, -, hr⟩ := Rule.runFirst_matched hrules
      exact Rule.run_within hc hw r start parsed hr

theorem Grammar.parse_within (hc : tokens.Coherent) (g : Grammar ν β) (n : Nat) (symbol : ν) :
    Within tokens.size (g.parse tokens n symbol) := by
  induction n generalizing symbol with
  | zero => intro start parsed h; cases h
  | succ n ih =>
      rw [g.parse_succ]
      exact Binding.run_within hc ih (g symbol)

/-- What a symbol comes to depends on the calls further on and on what is found. -/
theorem Binding.run_congr (hc : tokens.Coherent) {find find' : ν → Resolution ν β}
    {first second : ν → Nat → Outcome (Parsed β)}
    (hw : ∀ symbol, Within tokens.size (first symbol)) (b : Binding ν β) {start : Nat}
    (hf : find = find')
    (h : ∀ symbol place, start ≤ place → place ≤ max start tokens.size →
      first symbol place = second symbol place) :
    b.run tokens find first start = b.run tokens find' second start := by
  have hrule (r : Rule ν β) : r.run tokens first start = r.run tokens second start :=
    Rule.run_eq_of_calls r fun symbol place hcalls =>
      have ⟨hl, hr⟩ := hcalls.within hc hw
      h symbol place hl hr
  subst hf
  cases b with
  | rule r => exact hrule r
  | spoiled => rfl
  | forward target =>
      cases target with
      | none => rfl
      | some target => exact h target start (Nat.le_refl _) (Nat.le_max_left _ _)
  | view target excluded =>
      have hfirst (rules : List (Rule ν β)) : Rule.runFirst tokens first rules start
          = Rule.runFirst tokens second rules start := Rule.runFirst_congr fun r _ => hrule r
      simp only [Binding.run, hfirst]

end JsonTemplate
