import Folio.Model.Layout

/-!
The layout of a model with all its submodels, unfolded into steps. A plan no longer shows classes:
it holds what a run gets to see, in the order it gets to see it.
-/

namespace Folio

variable {α : Type} [Coordinate α]

/-- What a model shows when it is laid out: its class, the identity a script announces, how it
interferes with the run, and its own feedback. -/
structure Heading (α : Type) where
  modelClass : ModelClass
  announces : Option Json := none
  reaction : Reaction := {}
  feedback : Feedback α := .empty

/-- One thing to do while a model is laid out. -/
inductive Step (α : Type) where
  /-- Hand an instruction to the sink. -/
  | instruct (instruction : Instruction)
  /-- Hand a data node to the sink. -/
  | leaf (span : Span α) (content : Leaf)
  /-- Lay out a submodel. -/
  | enter (span : Span α) (heading : Heading α) (steps : List (Step α))

/-- A model ready to be laid out. -/
structure Plan (α : Type) where
  heading : Heading α
  steps : List (Step α)

def Model.heading (m : Model α) : Heading α where
  modelClass := m.modelClass
  announces :=
    match m with
    | .script head _ => some head.id
    | _ => none
  reaction := m.reaction
  feedback := m.feedback

mutual

def Model.steps : Model α → List (Step α)
  | .call .macroCall _ _ => []
  | .call .function name args => [.instruct (.engine (.call name args))]
  | .call .method name args => [.instruct (.engine (.call name args))]
  | .body name items =>
    .instruct (.engine (.opening name)) :: (Model.itemSteps items ++ [.instruct (.engine (.closing name))])
  | .tree items => Model.itemSteps items
  | .aliasing => []
  | .shapeShifting => []
  | .script _ commands => Model.commandSteps commands

/-- Commands in order, each tree among them node by node. -/
def Model.commandSteps : List (Command α) → List (Step α)
  | [] => []
  | .instruct instruction :: rest => .instruct instruction :: Model.commandSteps rest
  | .walk items :: rest => Model.itemSteps items ++ Model.commandSteps rest

def Model.itemSteps : List (Spanned α (Node α)) → List (Step α)
  | [] => []
  | ⟨span, .leaf content⟩ :: rest => .leaf span content :: Model.itemSteps rest
  | ⟨span, .model m⟩ :: rest => .enter span m.heading m.steps :: Model.itemSteps rest

end

/-- The steps of a model are those of the commands it answers with. -/
theorem Model.steps_eq (m : Model α) : m.steps = Model.commandSteps m.commands := by
  cases m with
  | call kind name args => cases kind <;> simp [Model.steps, Model.commands, Model.commandSteps]
  | _ => simp [Model.steps, Model.commands, Model.commandSteps]

def Model.plan (m : Model α) : Plan α := ⟨m.heading, m.steps⟩

end Folio
