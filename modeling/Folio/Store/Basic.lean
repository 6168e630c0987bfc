import Folio.Model.Basic

/-!
Models as objects that refer to each other. Whatever can be changed by itself is an object with an
address: a tree that grows, the name of a call, the list of its arguments, the lines of a raw node,
and the two ends of every span. Two models can have objects in common, and then a change of one is a
change of both.
-/

namespace Folio

variable {α : Type}

/-- Where an object is kept. -/
abbrev Address := Nat

/-- The nodes that say nothing but what they are. -/
inductive Mark where
  | space
  | parbreak
  | linebreak
  | toggleItalic
  | toggleBolder
deriving DecidableEq, Repr

def Mark.leaf : Mark → Leaf
  | space => .space
  | parbreak => .parbreak
  | linebreak => .linebreak
  | toggleItalic => .toggleItalic
  | toggleBolder => .toggleBolder

/-- What is kept at an address. -/
inductive Object (α : Type) where
  | position (p : Position α)
  | span (start stop : Address)
  | texts (content : List String)
  | mark (kind : Mark)
  | text (content : String)
  | raw (lines : Address)
  /-- A node that holds a model. -/
  | holder (model : Address)
  /-- A node with its span. -/
  | item (span node : Address)
  | call (kind : CallKind) (name : String) (args : Address)
  | body (name : String) (tree : Address)
  | tree (items : List Address)
  | aliasing
  | shapeShifting
  /-- A script is never changed, so it is kept in one piece. -/
  | script (head : Script α) (commands : List (Command α))

namespace Object

/-- The addresses that an object leads to. -/
def references : Object α → List Address
  | .span start stop => [start, stop]
  | .raw lines => [lines]
  | .holder model => [model]
  | .item s n => [s, n]
  | .call _ _ args => [args]
  | .body _ t => [t]
  | .tree items => items
  | _ => []

/-- The class of an object, if it is a model. -/
def modelClass? : Object α → Option ModelClass
  | .call .function _ _ => some .functionCall
  | .call .method _ _ => some .methodCall
  | .call .macroCall _ _ => some .macroCall
  | .body _ _ => some .bodyCall
  | .tree _ => some .tree
  | .aliasing => some .aliasing
  | .shapeShifting => some .shapeShifting
  | .script head _ => some (if head.bare then .plain else .script)
  | _ => none

end Object

/-- Objects by address. The next new object comes behind the last one. -/
abbrev Store (α : Type) := Array (Object α)

namespace Store

/-! ## What is kept -/

def position? (h : Store α) (a : Address) : Option (Position α) :=
  match h[a]? with
  | some (.position p) => some p
  | _ => none

def texts? (h : Store α) (a : Address) : Option (List String) :=
  match h[a]? with
  | some (.texts content) => some content
  | _ => none

def span? (h : Store α) (a : Address) : Option (Span α) :=
  match h[a]? with
  | some (.span start stop) => do return ⟨← h.position? start, ← h.position? stop⟩
  | _ => none

/-- The addresses of the nodes of a tree. -/
def items? (h : Store α) (a : Address) : Option (List Address) :=
  match h[a]? with
  | some (.tree items) => some items
  | _ => none

/-- The node at an address; `model` tells the models. -/
def nodeBy (h : Store α) (model : Address → Option (Model α)) (a : Address) : Option (Node α) :=
  match h[a]? with
  | some (.mark kind) => some (.leaf kind.leaf)
  | some (.text content) => some (.leaf (.text content))
  | some (.raw lines) => (h.texts? lines).map fun lines => .leaf (.raw lines)
  | some (.holder m) => (model m).map .model
  | _ => none

def itemBy (h : Store α) (model : Address → Option (Model α)) (a : Address) : Option (Item α) :=
  match h[a]? with
  | some (.item span node) => do return ⟨← h.span? span, ← h.nodeBy model node⟩
  | _ => none

/-- The model at an address; `model` tells those that it holds. The body of a call is a model by
itself. -/
def modelBy (h : Store α) (model : Address → Option (Model α)) (a : Address) : Option (Model α) :=
  match h[a]? with
  | some (.call kind name args) => (h.texts? args).map (.call kind name)
  | some (.body name tree) =>
    match model tree with
    | some (.tree items) => some (.body name items)
    | _ => none
  | some (.tree items) => (items.mapM (h.itemBy model)).map .tree
  | some .aliasing => some .aliasing
  | some .shapeShifting => some .shapeShifting
  | some (.script head commands) => some (.script head commands)
  | _ => none

/-- The model at an address, if it has no more than `n` levels. -/
def modelWithin (h : Store α) : Nat → Address → Option (Model α)
  | 0 => fun _ => none
  | n + 1 => h.modelBy (h.modelWithin n)

/-- The model at an address with all that it holds. One that holds itself has no end, and any other
has no more levels than there are objects. -/
def model? (h : Store α) (a : Address) : Option (Model α) := h.modelWithin h.size a

def node? (h : Store α) (a : Address) : Option (Node α) := h.nodeBy h.model? a

/-! ## New objects -/

def allot (o : Object α) : StateM (Store α) Address := modifyGet fun h => (h.size, h.push o)

def newSpan (s : Span α) : StateM (Store α) Address := do
  let start ← allot (.position s.start)
  let stop ← allot (.position s.stop)
  allot (.span start stop)

def newLeaf : Leaf → StateM (Store α) Address
  | .space => allot (.mark .space)
  | .parbreak => allot (.mark .parbreak)
  | .linebreak => allot (.mark .linebreak)
  | .toggleItalic => allot (.mark .toggleItalic)
  | .toggleBolder => allot (.mark .toggleBolder)
  | .text content => allot (.text content)
  | .raw lines => do
    let lines ← allot (.texts lines)
    allot (.raw lines)

mutual

def newNode : Node α → StateM (Store α) Address
  | .leaf content => newLeaf content
  | .model m => do
    let model ← newModel m
    allot (.holder model)

/-- Makes a model that has nothing in common with any other. -/
def newModel : Model α → StateM (Store α) Address
  | .call kind name args => do
    let args ← allot (.texts args)
    allot (.call kind name args)
  | .body name items => do
    let items ← newItems items
    let tree ← allot (.tree items)
    allot (.body name tree)
  | .tree items => do
    let items ← newItems items
    allot (.tree items)
  | .aliasing => allot .aliasing
  | .shapeShifting => allot .shapeShifting
  | .script head commands => allot (.script head commands)

def newItems : List (Spanned α (Node α)) → StateM (Store α) (List Address)
  | [] => pure []
  | ⟨s, n⟩ :: rest => do
    let span ← newSpan s
    let node ← newNode n
    let item ← allot (.item span node)
    let others ← newItems rest
    return item :: others

end

end Store

end Folio
