import JsonTemplate.Proofs.Expression.Recursion
import JsonTemplate.Proofs.Rule.Calls

/-!
Every run of the rules ends. A symbol that is run at a place leads to others further on, or
to others of a lower rank at the same place, so that no chain of calls comes back to a
symbol where it was, and neither the calls nor the repetitions use up their budgets.
-/

namespace JsonTemplate
namespace Rules

variable {tokens : Stream}

/-- Running the first symbol at its place calls the second one at its own. -/
def Enters (tokens : Stream) (a b : Symbol × Nat) : Prop :=
  (body a.1).Calls tokens (run tokens) a.2 b.1 b.2

theorem depth_lt_of_enters (hc : tokens.Coherent) {a b : Symbol × Nat} (h : Enters tokens a b) :
    depth tokens b.1 b.2 < depth tokens a.1 a.2 := by
  obtain ⟨symbol, start⟩ := a
  obtain ⟨other, place⟩ := b
  obtain ⟨rfl, hrank⟩ | ⟨hlt, hle⟩ :=
    h.leads_or_onward hc (run_within hc) (run_advancing hc) (body_leadsTo symbol)
  · exact depth_lt_of_rank tokens place hrank
  · exact depth_lt_of_place symbol other hlt hle

theorem depth_lt_of_transGen (hc : tokens.Coherent) {a b : Symbol × Nat}
    (h : Relation.TransGen (Enters tokens) a b) :
    depth tokens b.1 b.2 < depth tokens a.1 a.2 := by
  induction h with
  | single hab => exact depth_lt_of_enters hc hab
  | tail _ hbc ih => exact Nat.lt_trans (depth_lt_of_enters hc hbc) ih

theorem rule_isFinished (hc : tokens.Coherent) (r : TemplateRule) (start : Nat) :
    (r.run tokens (run tokens) start).isFinished = true :=
  Rule.run_isFinished hc (run_within hc) (run_isFinished hc) r start

/-- A symbol runs as its body whatever the symbols do that the run does not call. -/
theorem run_eq_of_enters (hc : tokens.Coherent) {call : Symbol → Nat → Outcome Piece}
    {symbol : Symbol} {start : Nat}
    (h : ∀ other place, Enters tokens (symbol, start) (other, place) →
      call other place = run tokens other place) :
    (body symbol).run tokens call start = run tokens symbol start := by
  rw [run_eq_body hc]
  exact (Rule.run_eq_of_calls (body symbol) fun other place hcalls => (h other place hcalls).symm).symm

/-- The rules end on every document. Every rule has an outcome at every place, which more
calls than the limit and longer repetitions do not change; and no chain of calls, on which
alone an outcome depends, enters a symbol twice at one place. -/
theorem run_terminates (document : Json) :
    let tokens := Stream.ofJson document
    (∀ (r : TemplateRule) start, (r.run tokens (run tokens) start).isFinished = true) ∧
    (∀ n symbol start, callLimit tokens ≤ n →
      (grammar.parse tokens n symbol start).isFinished = true ∧
        grammar.parse tokens n symbol start = run tokens symbol start) ∧
    (∀ (item : TemplateRule) start budget, tokens.size - start < budget →
      (repeatedly (item.run tokens (run tokens)) budget start).isFinished = true ∧
        repeatedly (item.run tokens (run tokens)) budget start
          = repeatedly (item.run tokens (run tokens)) (tokens.size - start + 1) start) ∧
    (∀ symbol start call, (∀ other place, Enters tokens (symbol, start) (other, place) →
      call other place = run tokens other place) →
        (body symbol).run tokens call start = run tokens symbol start) ∧
    ∀ symbol start, ¬ Relation.TransGen (Enters tokens) (symbol, start) (symbol, start) := by
  intro tokens
  have hc : tokens.Coherent := Stream.coherent_ofJson document
  refine ⟨rule_isFinished hc, fun n symbol start hn => ?_, fun item start budget hb => ?_,
    fun symbol start call => run_eq_of_enters hc, fun symbol start h => ?_⟩
  · rw [parse_eq_run hc hn]
    exact ⟨run_isFinished hc symbol start, rfl⟩
  · have hw := Rule.run_within hc (run_within hc) item
    exact ⟨Rule.repeatedly_isFinished hw (rule_isFinished hc item) hb,
      Rule.repeatedly_budget hw hb (Nat.lt_succ_self _)⟩
  · exact Nat.lt_irrefl _ (depth_lt_of_transGen hc h)

end Rules
end JsonTemplate
