import Folio.Model.Basic

/-!
Checked copies. A copy is made level by level in document order. At every level it has to be a new
instance of the same class; the first model that breaks this contract is logged and ends the copy.
-/

namespace Folio

variable {α : Type}

/-- The ways to break the contract of copies. -/
inductive Breach where
  | sameInstance
  | otherClass
deriving DecidableEq, Repr

/-- The name of a breach in error details. -/
def Breach.name : Breach → String
  | .sameInstance => "clone-aliases-original"
  | .otherClass => "clone-changes-type"

/-- A model that could not be copied: its class, the breach, and the class its copy had. -/
structure BadCopy where
  model : ModelClass
  breach : Breach
  copy : ModelClass
deriving DecidableEq, Repr

/-- What the class of a model hands over as a copy: the model itself, or a new instance. -/
inductive Duplicate (α : Type) where
  | itself
  | fresh (m : Model α)

/-- Copying, with a log of the copies that were refused. The first of them ends it. -/
abbrev Copying := EStateM BadCopy (List BadCopy)

namespace Copying

variable {β : Type}

/-- Logs a bad copy and fails with it. -/
def refuse (b : BadCopy) : Copying β := do
  modify (· ++ [b])
  throw b

/-- What copying comes to, and what it logs. -/
def outcome (c : Copying β) : Except BadCopy β × List BadCopy :=
  match c.run [] with
  | .ok x log => (.ok x, log)
  | .error b log => (.error b, log)

end Copying

/-- Checks what was handed over as a copy of a model. -/
def Model.verify (m : Model α) : Duplicate α → Copying (Model α)
  | .itself => Copying.refuse ⟨m.modelClass, .sameInstance, m.modelClass⟩
  | .fresh c =>
    if c.modelClass = m.modelClass then pure c
    else Copying.refuse ⟨m.modelClass, .otherClass, c.modelClass⟩

mutual

def Node.copy : Node α → Copying (Node α)
  | .leaf content => pure (.leaf content)
  | .model m => do
    let copied ← m.verify (← m.duplicate)
    return .model copied

/-- What a model hands over as its copy, before it is checked. The body of a call is a tree, and is
checked as one. -/
def Model.duplicate : Model α → Copying (Duplicate α)
  | .call kind name args => pure (.fresh (.call kind name args))
  | .body name items => do
    let copied ← Model.copyItems items
    let _ ← (Model.tree items).verify (.fresh (.tree copied))
    return .fresh (.body name copied)
  | .tree items => do
    let copied ← Model.copyItems items
    return .fresh (.tree copied)
  | .aliasing => pure .itself
  | .shapeShifting => pure (.fresh (.call .macroCall "shifted" []))
  | .script head commands => pure (.fresh (.script head commands))

def Model.copyItems : List (Spanned α (Node α)) → Copying (List (Spanned α (Node α)))
  | [] => pure []
  | ⟨span, n⟩ :: rest => do
    let copied ← n.copy
    let others ← Model.copyItems rest
    return ⟨span, copied⟩ :: others

end

def Model.copy (m : Model α) : Copying (Model α) := do m.verify (← m.duplicate)

end Folio
