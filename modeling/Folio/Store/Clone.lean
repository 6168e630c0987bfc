import Folio.Model.Copy
import Folio.Store.Basic

/-!
Checked clones. A clone is made object by object, each class in its own way, and what a class hands
over has to be a new object of the same class; the first model that breaks this contract is logged
and ends the clone.
-/

namespace Folio

variable {α β : Type}

/-- Where clones are made: the objects, and a log of the clones that were refused. -/
structure Desk (α : Type) where
  store : Store α
  log : List BadCopy := []

/-- Why there is no clone: one was refused, or an address does not lead to what belongs there. -/
inductive CloneFailure where
  | refused (b : BadCopy)
  | unreadable

abbrev Cloning (α : Type) := EStateM CloneFailure (Desk α)

namespace Cloning

def load (a : Address) : Cloning α (Object α) := do
  match (← get).store[a]? with
  | some o => pure o
  | none => throw .unreadable

def allot (o : Object α) : Cloning α Address :=
  modifyGet fun d => (d.store.size, { d with store := d.store.push o })

/-- Logs a bad copy and fails with it. -/
def refuse (b : BadCopy) : Cloning α β := do
  modify fun d => { d with log := d.log ++ [b] }
  throw (.refused b)

def position (a : Address) : Cloning α Address := do
  match ← load a with
  | .position p => allot (.position p)
  | _ => throw .unreadable

def texts (a : Address) : Cloning α Address := do
  match ← load a with
  | .texts content => allot (.texts content)
  | _ => throw .unreadable

def span (a : Address) : Cloning α Address := do
  match ← load a with
  | .span start stop => do
    let start ← position start
    let stop ← position stop
    allot (.span start stop)
  | _ => throw .unreadable

/-- A clone of a node; `model` makes those of models. -/
def node (model : Address → Cloning α Address) (a : Address) : Cloning α Address := do
  match ← load a with
  | .mark kind => allot (.mark kind)
  | .text content => allot (.text content)
  | .raw lines => do
    let lines ← texts lines
    allot (.raw lines)
  | .holder m => do
    let m ← model m
    allot (.holder m)
  | _ => throw .unreadable

def item (model : Address → Cloning α Address) (a : Address) : Cloning α Address := do
  match ← load a with
  | .item s n => do
    let s ← span s
    let n ← node model n
    allot (.item s n)
  | _ => throw .unreadable

/-- What the class of a model hands over as its clone, before it is checked. -/
def duplicate (model : Address → Cloning α Address) (a : Address) : Object α → Cloning α Address
  | .call kind name args => do
    let args ← texts args
    allot (.call kind name args)
  | .body name tree => do
    match ← load tree with
    | .tree _ => do
      let tree ← model tree
      allot (.body name tree)
    | _ => throw .unreadable
  | .tree items => do
    let items ← items.mapM (item model)
    allot (.tree items)
  | .aliasing => pure a
  | .shapeShifting => do
    let args ← allot (.texts [])
    allot (.call .macroCall "shifted" args)
  | .script head commands => allot (.script head commands)
  | _ => throw .unreadable

def modelClass (a : Address) : Cloning α ModelClass := do
  match (← load a).modelClass? with
  | some c => pure c
  | none => throw .unreadable

/-- Checks what was handed over as a clone of the model at `a`. -/
def verify (a c : Address) : Cloning α Address := do
  let original ← modelClass a
  if c = a then refuse ⟨original, .sameInstance, original⟩
  else
    let copy ← modelClass c
    if copy = original then pure c else refuse ⟨original, .otherClass, copy⟩

/-- A checked clone of a model that has no more than `n` levels. -/
def modelWithin : Nat → Address → Cloning α Address
  | 0, _ => throw .unreadable
  | n + 1, a => do
    let o ← load a
    let c ← duplicate (modelWithin n) a o
    verify a c

/-- A checked clone of a model. -/
def model (a : Address) : Cloning α Address := do
  let levels := (← get).store.size
  modelWithin levels a

end Cloning

end Folio
