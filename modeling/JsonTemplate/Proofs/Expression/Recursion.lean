import JsonTemplate.Expression.Rules
import JsonTemplate.Proofs.Rule.Locality

/-!
The recursion of the rules. Each symbol has a rule as its body, and where a body starts it
leads only to symbols of a lower rank; every other call comes after a token was taken. So
the calls nest no deeper than `callLimit`, every run ends, and a symbol runs as its body
(`run_eq_body`). No later proof needs to count calls.
-/

namespace JsonTemplate
namespace Rules

/-- The rules for words and strings. -/
def literalRules : List TemplateRule := [number, boolean, null, undefined, path, quoted]

/-- What stands on the left of a comparison. -/
def termRules : List TemplateRule := .ref .operand :: .ref .group :: literalRules

/-- What a symbol stands for, views included. -/
def body : Symbol → TemplateRule
  | .document => document
  | .expression => expression
  | .comparison => comparison
  | .nullish => nullish
  | .group => group
  | .operand => operand
  | .operation => operation
  | .operandGroup => parenthesized (.ref .operand)
  | .leftOfComparison => .oneOf termRules
  | .leftOfNullish => expression
  | .leftOfOperation => .oneOf [.ref .operandGroup, number, path]
  | .insideGroup => .oneOf (.ref .comparison :: .ref .operand :: literalRules)

theorem expression_eq : expression = .oneOf (.ref .comparison :: termRules) := rfl

variable {tokens : Stream}

theorem parse_eq_body (n : Nat) (symbol : Symbol) :
    grammar.parse tokens (n + 2) symbol
      = (body symbol).run tokens (grammar.parse tokens (n + 1)) := by
  funext start
  cases symbol <;> rfl

/-- A symbol whose body leads to another one stands above it. -/
def rank : Symbol → Nat
  | .document | .group | .operandGroup => 1
  | .leftOfOperation => 2
  | .operation => 3
  | .operand => 4
  | .leftOfComparison => 5
  | .comparison => 6
  | .expression | .leftOfNullish | .insideGroup => 7
  | .nullish => 8

theorem rank_pos (symbol : Symbol) : 0 < rank symbol := by cases symbol <;> decide

theorem rank_lt_length (symbol : Symbol) : rank symbol < Symbol.all.length := by
  cases symbol <;> decide

/-! Literals take a character and call nothing -/

theorem eager_number : number.Eager := @Rule.eager_pattern Symbol Fragment _ rfl

theorem eager_path : path.Eager := @Rule.eager_pattern Symbol Fragment _ rfl

theorem eager_null : null.Eager := @Rule.eager_keyword Symbol Fragment _ (by decide)

theorem eager_undefined : undefined.Eager := @Rule.eager_keyword Symbol Fragment _ (by decide)

theorem eager_boolean : boolean.Eager :=
  ⟨Rule.eager_keyword (by decide), Rule.eager_keyword (by decide), trivial⟩

theorem eager_quoted : quoted.Eager :=
  ⟨Rule.eager_pattern rfl, Rule.eager_pattern rfl, trivial⟩

theorem boolean_leadsTo (leads : Symbol → Prop) : boolean.LeadsTo leads :=
  ⟨trivial, trivial, trivial⟩

theorem quoted_leadsTo (leads : Symbol → Prop) : quoted.LeadsTo leads :=
  ⟨trivial, trivial, trivial⟩

/-- Every match of a symbol takes a token. -/
theorem eager_body (symbol : Symbol) : (body symbol).Eager := by
  cases symbol with
  | document => exact ⟨.inl trivial, trivial, .inl trivial, .inl trivial, trivial⟩
  | comparison | nullish | operation => exact .inl trivial
  | group | operandGroup => exact .inl (Rule.eager_char '(')
  | operand => exact ⟨trivial, trivial, eager_number, eager_path, trivial⟩
  | leftOfOperation => exact ⟨trivial, eager_number, eager_path, trivial⟩
  | expression | leftOfNullish =>
      exact ⟨trivial, trivial, trivial, eager_number, eager_boolean, eager_null, eager_undefined,
        eager_path, eager_quoted, trivial⟩
  | leftOfComparison | insideGroup =>
      exact ⟨trivial, trivial, eager_number, eager_boolean, eager_null, eager_undefined,
        eager_path, eager_quoted, trivial⟩

theorem ref_leadsTo {symbol other : Symbol} (h : rank other < rank symbol) :
    (Rule.ref other : TemplateRule).LeadsTo fun other => rank other < rank symbol := h

/-- No symbol comes back to itself at one place. -/
theorem body_leadsTo (symbol : Symbol) :
    (body symbol).LeadsTo fun other => rank other < rank symbol := by
  cases symbol with
  | document =>
      exact ⟨⟨trivial, .inl trivial⟩, trivial, ⟨trivial, .inl trivial⟩, ⟨trivial, .inl trivial⟩,
        trivial⟩
  | comparison | nullish | operation => exact ⟨ref_leadsTo (by decide), .inl trivial⟩
  | group | operandGroup => exact ⟨trivial, .inl (Rule.eager_char '(')⟩
  | operand =>
      exact ⟨ref_leadsTo (by decide), ref_leadsTo (by decide), trivial, trivial, trivial⟩
  | leftOfOperation => exact ⟨ref_leadsTo (by decide), trivial, trivial, trivial⟩
  | expression | leftOfNullish =>
      exact ⟨ref_leadsTo (by decide), ref_leadsTo (by decide), ref_leadsTo (by decide), trivial,
        boolean_leadsTo _, trivial, trivial, trivial, quoted_leadsTo _, trivial⟩
  | leftOfComparison | insideGroup =>
      exact ⟨ref_leadsTo (by decide), ref_leadsTo (by decide), trivial, boolean_leadsTo _,
        trivial, trivial, trivial, quoted_leadsTo _, trivial⟩

/-- With one call left a view cannot look up its target; all else runs as its body. -/
theorem parse_succ (tokens : Stream) (n : Nat) (symbol : Symbol) (start : Nat) :
    grammar.parse tokens (n + 1) symbol start
        = (body symbol).run tokens (grammar.parse tokens n) start ∨
      grammar.parse tokens (n + 1) symbol start = .unfinished := by
  cases n with
  | succ n => exact .inl (congrFun (parse_eq_body n symbol) start)
  | zero =>
      cases symbol with
      | document | expression | comparison | nullish | group | operand | operation
        | operandGroup => exact .inl rfl
      | leftOfComparison | leftOfNullish | leftOfOperation | insideGroup => exact .inr rfl

theorem parse_matched {n : Nat} {symbol : Symbol} {start : Nat} {parsed : Piece}
    (h : grammar.parse tokens (n + 1) symbol start = .matched parsed) :
    (body symbol).run tokens (grammar.parse tokens n) start = .matched parsed := by
  obtain hb | hu := parse_succ tokens n symbol start
  · rw [← hb, h]
  · rw [hu] at h
    cases h

theorem parse_committed {n : Nat} {symbol : Symbol} {start : Nat} {x : Failure}
    (h : grammar.parse tokens (n + 1) symbol start = .committed x) :
    (body symbol).run tokens (grammar.parse tokens n) start = .committed x := by
  obtain hb | hu := parse_succ tokens n symbol start
  · rw [← hb, h]
  · rw [hu] at h
    cases h

theorem parse_within (hc : tokens.Coherent) (n : Nat) (symbol : Symbol) :
    Within tokens.size (grammar.parse tokens n symbol) := by
  induction n generalizing symbol with
  | zero => intro start parsed h; cases h
  | succ n ih =>
      intro start parsed h
      exact Rule.run_within hc ih (body symbol) start parsed (parse_matched h)

theorem parse_advancing (hc : tokens.Coherent) (n : Nat) (symbol : Symbol) :
    Advancing (grammar.parse tokens n symbol) := by
  induction n generalizing symbol with
  | zero => intro start parsed h; cases h
  | succ n ih =>
      intro start parsed h
      exact Rule.run_advancing hc (parse_within hc n) ih (body symbol) (eager_body symbol) start
        parsed (parse_matched h)

/-! Calls nest no deeper than the limit -/

/-- How many calls a run may nest: those at later places, and those of a lower rank. -/
def depth (tokens : Stream) (symbol : Symbol) (start : Nat) : Nat :=
  Symbol.all.length * (tokens.size + 1 - start) + rank symbol

theorem depth_lt_of_rank (tokens : Stream) {symbol other : Symbol} (start : Nat)
    (h : rank other < rank symbol) :
    depth tokens other start < depth tokens symbol start :=
  Nat.add_lt_add_left h _

theorem depth_lt_of_place (symbol other : Symbol) {start place : Nat} (h : start < place)
    (hp : place ≤ tokens.size) : depth tokens other place < depth tokens symbol start := by
  have hr := rank_lt_length other
  have hm : Symbol.all.length * (tokens.size + 1 - place + 1)
      ≤ Symbol.all.length * (tokens.size + 1 - start) := Nat.mul_le_mul_left _ (by omega)
  simp only [depth]
  rw [Nat.mul_add_one] at hm
  omega

theorem depth_lt_callLimit (tokens : Stream) (symbol : Symbol) (start : Nat) :
    depth tokens symbol start < callLimit tokens := by
  have hr := rank_lt_length symbol
  have hm : Symbol.all.length * (tokens.size + 1 - start + 1)
      ≤ Symbol.all.length * (tokens.size + 2) := Nat.mul_le_mul_left _ (by omega)
  simp only [depth, callLimit]
  rw [Nat.mul_add_one] at hm
  omega

/-- All budgets of calls above the depth agree. -/
theorem parse_eq_parse (hc : tokens.Coherent) {first second : Nat} (symbol : Symbol)
    (start : Nat) (hf : depth tokens symbol start < first)
    (hs : depth tokens symbol start < second) :
    grammar.parse tokens first symbol start = grammar.parse tokens second symbol start := by
  induction first generalizing second symbol start with
  | zero => omega
  | succ first ih =>
      have hr := rank_pos symbol
      have hd : rank symbol ≤ depth tokens symbol start := Nat.le_add_left ..
      obtain ⟨m, rfl⟩ : ∃ m, first = m + 1 := ⟨first - 1, by omega⟩
      obtain ⟨n, rfl⟩ : ∃ n, second = n + 2 := ⟨second - 2, by omega⟩
      rw [parse_eq_body, parse_eq_body]
      refine Rule.run_congr hc (parse_within hc _) (parse_advancing hc _) _ (body_leadsTo symbol)
        ⟨fun other hlt => ?_, fun other place hlt hle => ?_⟩
      · have := depth_lt_of_rank tokens start hlt
        exact ih other start (by omega) (by omega)
      · have := depth_lt_of_place symbol other hlt hle
        exact ih other place (by omega) (by omega)

theorem parse_isFinished (hc : tokens.Coherent) {n : Nat} (symbol : Symbol) (start : Nat)
    (h : depth tokens symbol start < n) :
    (grammar.parse tokens n symbol start).isFinished = true := by
  induction n generalizing symbol start with
  | zero => omega
  | succ n ih =>
      have hr := rank_pos symbol
      have hd : rank symbol ≤ depth tokens symbol start := Nat.le_add_left ..
      obtain ⟨m, rfl⟩ : ∃ m, n = m + 1 := ⟨n - 1, by omega⟩
      rw [parse_eq_body]
      refine Rule.run_isFinished_of_leadsTo hc (parse_within hc _) (parse_advancing hc _) _
        (body_leadsTo symbol) (fun other hlt => ?_) fun other place hlt hle => ?_
      · have := depth_lt_of_rank tokens start hlt
        exact ih other start (by omega)
      · have := depth_lt_of_place symbol other hlt hle
        exact ih other place (by omega)

/-! Runs of symbols -/

theorem run_isFinished (hc : tokens.Coherent) (symbol : Symbol) (start : Nat) :
    (run tokens symbol start).isFinished = true :=
  parse_isFinished hc symbol start (depth_lt_callLimit tokens symbol start)

theorem run_within (hc : tokens.Coherent) (symbol : Symbol) : Within tokens.size (run tokens symbol) :=
  parse_within hc _ symbol

theorem run_advancing (hc : tokens.Coherent) (symbol : Symbol) : Advancing (run tokens symbol) :=
  parse_advancing hc _ symbol

/-- More calls than the limit change nothing. -/
theorem parse_eq_run (hc : tokens.Coherent) {n : Nat} (h : callLimit tokens ≤ n)
    (symbol : Symbol) : grammar.parse tokens n symbol = run tokens symbol := by
  funext start
  have := depth_lt_callLimit tokens symbol start
  exact parse_eq_parse hc symbol start (by omega) this

/-- A symbol runs as its body. -/
theorem run_eq_body (hc : tokens.Coherent) (symbol : Symbol) :
    run tokens symbol = (body symbol).run tokens (run tokens) := by
  have hl : callLimit tokens ≤ callLimit tokens + 2 := Nat.le_add_right _ 2
  have hn : grammar.parse tokens (callLimit tokens + 1) = run tokens := by
    funext other
    exact parse_eq_run hc (Nat.le_add_right _ 1) other
  rw [← parse_eq_run hc hl symbol, parse_eq_body, hn]

end Rules
end JsonTemplate
