import JsonTemplate.Rule.Basic

/-!
Running rules. A rule is run by recursion on its structure, with its symbols handed to a
function; a grammar gives that function, one call deeper at a time. Left recursion is the
only way to use up all calls.
-/

namespace JsonTemplate

/-- Reads items until one does not match or takes no token. -/
def repeatedly {β : Type} (item : Nat → Outcome (Parsed β)) :
    Nat → Nat → Outcome (Nat × List (Parsed β))
  | 0, _ => .unfinished
  | budget + 1, position =>
      match item position with
      | .matched parsed =>
          if parsed.1.isEmpty then .matched (position, [])
          else (repeatedly item budget parsed.1.stop).map fun rest => (rest.1, parsed :: rest.2)
      | .noMatch => .matched (position, [])
      | .committed f => .committed f
      | .unfinished => .unfinished

def Outcome.ofBuild {β : Type} (span : Span) : Build β → Outcome (Parsed β)
  | .ok (some payload) => .matched (span, payload)
  | .ok none => .noMatch
  | .error f => .committed f

namespace Rule

variable {ν β : Type} (tokens : Stream) (call : ν → Nat → Outcome (Parsed β))

mutual

def run : Rule ν β → Nat → Outcome (Parsed β)
  | tag t, start =>
      if tokens.tagAt? start = some t then .matched (⟨start, start + 1⟩, .unit) else .noMatch
  | scalar value?, start =>
      match tokens[start]? with
      | none => .noMatch
      | some token =>
          match value? token.kind ⟨start, start + 1⟩ with
          | some v => .matched (⟨start, start + 1⟩, .value v)
          | none => .noMatch
  | chars take?, start =>
      match take? (tokens.charsAt start) with
      | none => .noMatch
      | some count =>
          let taken := (tokens.charsAt start).take count
          .matched (⟨start, start + taken.length⟩, .text (String.ofList taken))
  | sequence parts build, start =>
      (runAll parts start).bind fun (stop, results) =>
        match build with
        | none => .matched (⟨start, stop⟩, .unit)
        | some build => .ofBuild ⟨start, stop⟩ (build ⟨start, stop⟩ results)
  | oneOf alternatives, start => runFirst alternatives start
  | many item, start =>
      (repeatedly (run item) (tokens.size - start + 1) start).map fun (stop, items) =>
        (⟨start, stop⟩, .repeated items)
  | maybe item, start =>
      match run item start with
      | .matched parsed => .matched (parsed.1, .optional (some parsed))
      | .noMatch | .committed _ => .matched (.empty start, .optional none)
      | .unfinished => .unfinished
  | required item reason, start =>
      match run item start with
      | .matched parsed => .matched parsed
      | .noMatch => .committed (.rejected (reason start tokens.size) (.empty start))
      | .committed f => .committed (f.under (reason start tokens.size))
      | .unfinished => .unfinished
  | map item build, start => (run item start).bind fun parsed => .ofBuild parsed.1 (build parsed)
  | named _ item, start => run item start
  | commit message, start => .committed (.rejected message (.empty start))
  | ref symbol, start => call symbol start

def runAll : List (Rule ν β) → Nat → Outcome (Nat × List (Parsed β))
  | [], position => .matched (position, [])
  | part :: rest, position =>
      (run part position).bind fun parsed =>
        (runAll rest parsed.1.stop).map fun results => (results.1, parsed :: results.2)

def runFirst : List (Rule ν β) → Nat → Outcome (Parsed β)
  | [], _ => .noMatch
  | alternative :: rest, start =>
      match run alternative start with
      | .noMatch => runFirst rest start
      | .committed f =>
          match runFirst rest start with
          | .noMatch => .committed f
          | outcome => outcome
      | outcome => outcome

end

end Rule

/-- What a symbol resolves to when forward declarations and names are followed. -/
inductive Resolution (ν β : Type)
  | unfinished
  | unknown
  | alternatives (rules : List (Rule ν β))
  | unsupported (label : String)

namespace Grammar

variable {ν β : Type}

def resolve (g : Grammar ν β) : Nat → ν → Resolution ν β
  | 0, _ => .unfinished
  | fuel + 1, symbol =>
      match g symbol with
      | .forward none => .unknown
      | .forward (some target) => resolve g fuel target
      | .rule rule =>
          match rule.unnamed with
          | .oneOf alternatives => .alternatives alternatives
          | .ref target => resolve g fuel target
          | other => .unsupported other.label
      | .view _ _ | .spoiled => .unsupported "except"

def unknownForward : String := "uninitialized forward rule"

def unknownTarget : String := "cannot call except on an uninitialized forward rule"

def unsupported (label : String) : String := label ++ " rule does not support except"

/-- Runs a symbol at a place; `fuel` bounds the depth of calls from symbol to symbol. -/
def parse [DecidableEq ν] (g : Grammar ν β) (tokens : Stream) :
    Nat → ν → Nat → Outcome (Parsed β)
  | 0, _, _ => .unfinished
  | fuel + 1, symbol, start =>
      let call := parse g tokens fuel
      match g symbol with
      | .rule rule => rule.run tokens call start
      | .forward none => .committed (.defect unknownForward (.empty start))
      | .forward (some target) => call target start
      | .spoiled => .committed (.defect unknownTarget (.empty start))
      | .view target excluded =>
          match g.resolve fuel target with
          | .alternatives rules => Rule.runFirst tokens call (Rule.excluding excluded rules) start
          | .unknown => .committed (.defect unknownTarget (.empty start))
          | .unsupported label => .committed (.defect (unsupported label) (.empty start))
          | .unfinished => .unfinished

end Grammar
end JsonTemplate
