import Folio.Model.Basic

/-!
Equality of models and nodes. Models of different classes are never equal; within a class the
contents are compared, and with them the spans of the nodes held.
-/

namespace Folio

variable {α : Type} [BEq α]

mutual

def Node.beq : Node α → Node α → Bool
  | .leaf a, .leaf b => a == b
  | .model a, .model b => a.beq b
  | _, _ => false

def Model.beq : Model α → Model α → Bool
  | .call kind name args, .call kind' name' args' => kind == kind' && name == name' && args == args'
  | .body name items, .body name' items' => name == name' && Model.beqItems items items'
  | .tree items, .tree items' => Model.beqItems items items'
  | .aliasing, .aliasing => true
  | .shapeShifting, .shapeShifting => true
  | .script head _, .script head' _ => head.document.written == head'.document.written
  | _, _ => false

/-- Item by item, with equal spans. -/
def Model.beqItems : List (Spanned α (Node α)) → List (Spanned α (Node α)) → Bool
  | [], [] => true
  | ⟨s, n⟩ :: rest, ⟨s', n'⟩ :: rest' => s == s' && n.beq n' && Model.beqItems rest rest'
  | _, _ => false

end

instance : BEq (Node α) := ⟨Node.beq⟩

instance : BEq (Model α) := ⟨Model.beq⟩

end Folio
