import Folio.Model.Basic
import Folio.Text

/-!
What each model answers when it is laid out on its own: its commands, and feedback measured from
where the model starts.
-/

namespace Folio

variable {α : Type} [Coordinate α]

/-- The functions that a call may name. -/
def knownFunctions : List String := ["box", "page", "align"]

/-- The span of the name in a call, which follows one opening bracket. -/
def nameSpan (name : String) : Span α :=
  let past : α := 1 + (Text.units name : α)
  ⟨⟨0, 1, 1⟩, ⟨0, past, past⟩⟩

/-- A call marks its name, and reports it if no function has it. -/
def callFeedback (name : String) : Feedback α :=
  if knownFunctions.contains name then { decorations := [⟨nameSpan name, .validFuncName⟩] }
  else
    { diagnostics := [Diagnostic.errorAt (nameSpan name) ("unknown function: `" ++ name ++ "`")]
      decorations := [⟨nameSpan name, .invalidFuncName⟩] }

namespace Model

def feedback : Model α → Feedback α
  | .call .macroCall _ _ => .empty
  | .call _ name _ => callFeedback name
  | .script head _ => head.feedback
  | _ => .empty

/-- The commands of a model, in the order they are to be carried out. -/
def commands : Model α → List (Command α)
  | .call .macroCall _ _ => []
  | .call _ name args => [.instruct (.engine (.call name args))]
  | .body name items => [.instruct (.engine (.opening name)), .walk items, .instruct (.engine (.closing name))]
  | .tree items => [.walk items]
  | .aliasing => []
  | .shapeShifting => []
  | .script _ commands => commands

/-- How laying a model out interferes with the run. Only scripts do. -/
def reaction : Model α → Reaction
  | .script head _ => head.reaction
  | _ => {}

/-- Lays out one model by itself. A script may fail with a message instead. -/
def layout (m : Model α) : Except String (Pass α (List (Command α))) :=
  match m.reaction.throws with
  | some message => .error message
  | none => .ok ⟨m.commands, m.feedback⟩

end Model

end Folio
