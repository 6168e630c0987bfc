import Folio.Store.Basic

/-!
Changes of objects, and the places inside a model where they are made. A path names a node by its
index in the tree it stands in, beginning with the tree of the model the path starts from.
-/

namespace Folio

variable {α : Type}

/-- A change in place. -/
inductive Edit (α : Type) where
  /-- Appends a new node to a tree. -/
  | add (tree : Address) (item : Item α)
  /-- Appends a node that is there already. -/
  | attach (tree item : Address)
  | setName (model : Address) (name : String)
  /-- Changes a list of texts. -/
  | setTexts (list : Address) (texts : List String)
  /-- Gives a call or a raw node another list of texts. -/
  | replaceTexts (owner : Address) (texts : List String)
  | setText (node : Address) (text : String)
  | setPosition (position : Address) (field : Position.Field) (x : α)

namespace Edit

/-- The addresses that a change is about. -/
def named : Edit α → List Address
  | .add tree _ => [tree]
  | .attach tree item => [tree, item]
  | .setName model _ => [model]
  | .setTexts list _ => [list]
  | .replaceTexts owner _ => [owner]
  | .setText node _ => [node]
  | .setPosition position _ _ => [position]

/-- Carries out a change, if its addresses lead to what it is about. -/
def result? (h : Store α) : Edit α → Option (Store α)
  | .add tree item =>
    match h[tree]? with
    | some (.tree items) =>
      let (added, h) := (Store.newItems [item]).run h
      some (h.setIfInBounds tree (.tree (items ++ added)))
    | _ => none
  | .attach tree item =>
    match h[tree]?, h[item]? with
    | some (.tree items), some (.item _ _) => some (h.setIfInBounds tree (.tree (items ++ [item])))
    | _, _ => none
  | .setName model name =>
    match h[model]? with
    | some (.call kind _ args) => some (h.setIfInBounds model (.call kind name args))
    | some (.body _ tree) => some (h.setIfInBounds model (.body name tree))
    | _ => none
  | .setTexts list texts =>
    match h[list]? with
    | some (.texts _) => some (h.setIfInBounds list (.texts texts))
    | _ => none
  | .replaceTexts owner texts =>
    match h[owner]? with
    | some (.call kind name _) => some ((h.push (.texts texts)).setIfInBounds owner (.call kind name h.size))
    | some (.raw _) => some ((h.push (.texts texts)).setIfInBounds owner (.raw h.size))
    | _ => none
  | .setText node text =>
    match h[node]? with
    | some (.text _) => some (h.setIfInBounds node (.text text))
    | _ => none
  | .setPosition position field x =>
    match h[position]? with
    | some (.position p) => some (h.setIfInBounds position (.position (p.set field x)))
    | _ => none

end Edit

namespace Store

/-- The tree of a model: itself, or its body. -/
def tree? (h : Store α) (a : Address) : Option Address :=
  match h[a]? with
  | some (.tree _) => some a
  | some (.body _ tree) => some tree
  | _ => none

/-- The nodes in the tree of a model. -/
def held? (h : Store α) (a : Address) : Option (List Address) := do h.items? (← h.tree? a)

/-- The two parts of a node in a tree, its span and the node by itself. -/
def parts? (h : Store α) (a : Address) : Option (Address × Address) :=
  match h[a]? with
  | some (.item span node) => some (span, node)
  | _ => none

/-- The model that a node in a tree holds. -/
def holds? (h : Store α) (a : Address) : Option Address := do
  match h[(← h.parts? a).2]? with
  | some (.holder m) => some m
  | _ => none

/-- The node at a path that is not empty. -/
def itemAt? (h : Store α) (a : Address) : List Nat → Option Address
  | [] => none
  | [i] => do (← h.held? a)[i]?
  | i :: rest => do
    let inner ← h.holds? (← (← h.held? a)[i]?)
    h.itemAt? inner rest

/-- The model at a path: that of the node there, or the model itself where the path is empty. -/
def modelAt? (h : Store α) (a : Address) (path : List Nat) : Option Address :=
  match path with
  | [] => some a
  | path => do h.holds? (← h.itemAt? a path)

/-- One end of the span of a node in a tree. -/
def end? (h : Store α) (a : Address) (which : Span.End) : Option Address := do
  match h[(← h.parts? a).1]?, which with
  | some (.span start _), .start => some start
  | some (.span _ stop), .stop => some stop
  | _, _ => none

end Store

end Folio
