import Folio.Model.Equality
import Folio.Model.Layout
import Folio.Session.Registers
import Folio.Store.Clone
import Folio.Store.Edit

/-!
A session on models. Every register leads to a model in a store that all of them share; some steps
change objects in place.
-/

namespace Folio.TreeSession

variable {α : Type} [Coordinate α]

/-- A change inside the model of a register. -/
inductive Change (α : Type) where
  | setText (text : String)
  | pushLine (line : String)
  | pushArg (arg : String)
  | setName (name : String)
  | setSpan (which : Span.End) (field : Position.Field) (x : α)

inductive Step (α : Type) where
  | create (target : String) (m : Model α)
  | add (name : String) (path : List Nat) (item : Item α)
  | length (name : String) (path : List Nat)
  | copy (target name : String) (path : List Nat)
  | copyNode (name : String) (path : List Nat)
  | equal (a : String) (path : List Nat) (b : String) (otherPath : List Nat)
  | equalNodes (a : String) (path : List Nat) (b : String) (otherPath : List Nat)
  | isClass (name : String) (path : List Nat) (c : ModelClass)
  | downcastNode (name : String) (path : List Nat) (c : ModelClass)
  | change (name : String) (path : List Nat) (c : Change α)
  | layout (name : String) (path : List Nat)
  | look (name : String)

inductive Answer (α : Type) where
  | model (m : Model α)
  | node (n : Node α)
  | maybeModel (m : Option (Model α))
  | flag (b : Bool)
  | number (n : Nat)
  | layout (m : Model α) (result : Except String (Pass α (List (Command α))))
  /-- A copy or why there is none, and what copying logged. -/
  | copied (m : Except BadCopy (Model α)) (log : List BadCopy)
  | copiedNode (n : Except BadCopy (Node α)) (log : List BadCopy)

structure State (α : Type) where
  store : Store α := #[]
  registers : Registers Address := []

/-- What a change at a path comes to. -/
def Change.edit? (h : Store α) (root : Address) (path : List Nat) : Change α → Option (Edit α)
  | .setText text => do return .setText (← h.parts? (← h.itemAt? root path)).2 text
  | .pushLine line => do
    match h[(← h.parts? (← h.itemAt? root path)).2]? with
    | some (.raw lines) => return .setTexts lines ((← h.texts? lines) ++ [line])
    | _ => none
  | .pushArg arg => do
    match h[← h.modelAt? root path]? with
    | some (.call _ _ args) => return .setTexts args ((← h.texts? args) ++ [arg])
    | _ => none
  | .setName name => do return .setName (← h.modelAt? root path) name
  | .setSpan which field x => do return .setPosition (← h.end? (← h.itemAt? root path) which) field x

namespace State

/-- The model at a path inside a register. -/
def modelAt? (s : State α) (name : String) (path : List Nat) : Option Address := do
  s.store.modelAt? (← s.registers.get? name) path

/-- The node at a path inside a register. -/
def nodeAt? (s : State α) (name : String) (path : List Nat) : Option Address := do
  return (← s.store.parts? (← s.store.itemAt? (← s.registers.get? name) path)).2

/-- What the model at a path looks like. -/
def model? (s : State α) (name : String) (path : List Nat) : Option (Model α) := do
  s.store.model? (← s.modelAt? name path)

def node? (s : State α) (name : String) (path : List Nat) : Option (Node α) := do
  s.store.node? (← s.nodeAt? name path)

end State

/-- One step. There is no answer if a place it names does not hold what it needs. -/
def perform (s : State α) : Step α → Option (State α × Answer α)
  | .create target m => do
    let (a, store) := (Store.newModel m).run s.store
    some (⟨store, s.registers.set target a⟩, .model (← store.model? a))
  | .add name path item => do
    let tree ← s.store.tree? (← s.modelAt? name path)
    let store ← (Edit.add tree item).result? s.store
    some ({ s with store }, .number (← store.items? tree).length)
  | .length name path => do
    some (s, .number (← s.store.held? (← s.modelAt? name path)).length)
  | .copy target name path => do
    match (Cloning.model (← s.modelAt? name path)).run { store := s.store } with
    | .ok c d => some (⟨d.store, s.registers.set target c⟩, .copied (.ok (← d.store.model? c)) d.log)
    | .error (.refused b) d => some (s, .copied (.error b) d.log)
    | .error .unreadable _ => none
  | .copyNode name path => do
    match (Cloning.node Cloning.model (← s.nodeAt? name path)).run { store := s.store } with
    | .ok c d => some (s, .copiedNode (.ok (← d.store.node? c)) d.log)
    | .error (.refused b) d => some (s, .copiedNode (.error b) d.log)
    | .error .unreadable _ => none
  | .equal a path b otherPath => do some (s, .flag ((← s.model? a path) == (← s.model? b otherPath)))
  | .equalNodes a path b otherPath => do some (s, .flag ((← s.node? a path) == (← s.node? b otherPath)))
  | .isClass name path c => do some (s, .flag ((← s.model? name path).downcast? c).isSome)
  | .downcastNode name path c => do some (s, .maybeModel ((← s.node? name path).downcast? c))
  | .change name path c => do
    let root ← s.registers.get? name
    let store ← (← c.edit? s.store root path).result? s.store
    some ({ s with store }, .model (← store.model? root))
  | .layout name path => do
    let m ← s.model? name path
    some (s, .layout m m.layout)
  | .look name => do some (s, .model (← s.model? name []))

end Folio.TreeSession
