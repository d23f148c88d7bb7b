import JsonTemplate.Rule.Workbench

/-!
A session at the bench, step by step: rules are named, forward declarations get their
rules, and rules are run. Nothing refers to what is described for a run alone, so it is
cleared away; what the run did to the symbols that were there before stays.
-/

namespace JsonTemplate
namespace Workbench

inductive Step
  | name (name : String) (d : Description)
  | define (name : String) (d : Description)
  | run (d : Description) (document : Json) (start : Nat)

def Step.isRun : Step → Bool
  | name _ _ | define _ _ => false
  | run _ _ _ => true

/-- The first symbols of a bench. -/
def keep (b : Workbench) (count : Nat) : Workbench :=
  { b with bindings := b.bindings.extract 0 count }

/-- The bench after a step, and what a run comes to. There is none if a name is unknown. -/
def perform (b : Workbench) : Step → Option (Workbench × Option (Outcome (Parsed Built)))
  | .name name d => do
      let (symbol, b) ← b.build? d
      return (b.name name symbol, none)
  | .define name d => do
      let (target, b) ← b.build? d
      let symbol ← b.find? name
      return (b.define symbol target, none)
  | .run d document start => do
      let (symbol, used) ← b.build? d
      let tokens := Stream.ofJson document
      return ((used.after tokens symbol start).keep b.bindings.size,
        some (used.outcome tokens symbol start))

/-- The bench after all steps, and what the runs among them came to. -/
def play (b : Workbench) : List Step → Option (Workbench × List (Outcome (Parsed Built)))
  | [] => some (b, [])
  | step :: rest => do
      let (b, answer) ← b.perform step
      let (b, answers) ← b.play rest
      return (b, answer.toList ++ answers)

end Workbench
end JsonTemplate
