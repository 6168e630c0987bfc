import Folio.Feedback
import Folio.Json.Basic

/-!
The syntax tree. Nodes are plain data or hold a model; a model is anything that can be laid out
into commands, and some models hold trees of nodes again.
-/

namespace Folio

variable {α : Type}

/-- The nodes that are plain data. -/
inductive Leaf where
  | space
  | parbreak
  | linebreak
  | text (content : String)
  | raw (lines : List String)
  | toggleItalic
  | toggleBolder
deriving DecidableEq, Repr

/-- The kinds of invocation that consist of a name and arguments. -/
inductive CallKind where
  | function
  | method
  | macroCall
deriving DecidableEq, Repr

/-- What a model asks of the engine without the tree knowing what it means. -/
inductive Payload where
  | call (name : String) (args : List String)
  | opening (name : String)
  | closing (name : String)
  /-- A value that only the engine understands. It may be missing. -/
  | custom (value : Option Json)

def Payload.toJson? : Payload → Option Json
  | .call name args => some (.obj [("call", .str name), ("args", .arr (args.map .str))])
  | .opening name => some (.obj [("open", .str name)])
  | .closing name => some (.obj [("close", .str name)])
  | .custom value => value

/-- A command that goes to the engine as it is. -/
inductive Instruction where
  | finishLine
  | finishSpace
  | breakParagraph
  | breakPage
  | engine (payload : Payload)

/-- Why a run was told to stop: for no reason that could be named, without a word, or with a value. -/
inductive AbortReason where
  | missing
  | unspecified
  | given (value : Json)

/-- How a participant interferes with the run that calls it: it may ask for the run to stop, and
then fail with a message. -/
structure Reaction where
  abort : Option AbortReason := none
  throws : Option String := none

/-- The part of a scripted model that holds no nodes. Two scripts are the same when they were read
from the same document; a bare one is no model class of its own. -/
structure Script (α : Type) where
  document : Json
  bare : Bool := false
  id : Json := .null
  feedback : Feedback α := .empty
  reaction : Reaction := {}

mutual

inductive Node (α : Type) where
  | leaf (content : Leaf)
  | model (content : Model α)

/-- The models. `aliasing` and `shapeShifting` break the contract of copies: the first hands back
itself, the second a call of another kind. -/
inductive Model (α : Type) where
  | call (kind : CallKind) (name : String) (args : List String)
  | body (name : String) (items : List (Spanned α (Node α)))
  | tree (items : List (Spanned α (Node α)))
  | aliasing
  | shapeShifting
  | script (head : Script α) (commands : List (Command α))

/-- What a model answers when it is laid out: instructions, and trees to walk node by node. -/
inductive Command (α : Type) where
  | instruct (instruction : Instruction)
  | walk (items : List (Spanned α (Node α)))

end

/-- A node with its span. -/
abbrev Item (α : Type) := Spanned α (Node α)

/-- The classes a model can be asked about. `base` is what they have in common; no model is just
that. -/
inductive ModelClass where
  | functionCall
  | methodCall
  | macroCall
  | bodyCall
  | tree
  | aliasing
  | shapeShifting
  | script
  | plain
  | base
deriving DecidableEq, Repr

namespace ModelClass

def all : List ModelClass :=
  [functionCall, methodCall, macroCall, bodyCall, tree, aliasing, shapeShifting, script, plain, base]

/-- The name that logs and errors show. -/
def name : ModelClass → String
  | functionCall => "FuncCall"
  | methodCall => "MethodCall"
  | macroCall => "MacroCall"
  | bodyCall => "BodyCall"
  | tree => "SyntaxModel"
  | aliasing => "AliasingModel"
  | shapeShifting => "ShapeShiftingModel"
  | script => "ScriptModel"
  | plain => "Object"
  | base => "Model"

def ofName? (s : String) : Option ModelClass := all.find? fun c => c.name == s

end ModelClass

namespace Model

/-- The exact class of a model. A method call is no function call here. -/
def modelClass : Model α → ModelClass
  | .call .function _ _ => .functionCall
  | .call .method _ _ => .methodCall
  | .call .macroCall _ _ => .macroCall
  | .body _ _ => .bodyCall
  | .tree _ => .tree
  | .aliasing => .aliasing
  | .shapeShifting => .shapeShifting
  | .script head _ => if head.bare then .plain else .script

/-- The model itself, if `c` is exactly its class. -/
def downcast? (m : Model α) (c : ModelClass) : Option (Model α) := if m.modelClass = c then some m else none

/-- The nodes a model holds, if it can hold any. -/
def items? : Model α → Option (List (Item α))
  | .body _ items => some items
  | .tree items => some items
  | _ => none

end Model

namespace Node

def isModel : Node α → Bool
  | .leaf _ => false
  | .model _ => true

/-- The model a node holds, if `c` is exactly its class. -/
def downcast? (n : Node α) (c : ModelClass) : Option (Model α) :=
  match n with
  | .leaf _ => none
  | .model m => m.downcast? c

end Node

end Folio
