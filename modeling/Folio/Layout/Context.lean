import Folio.Json.Printer
import Folio.Model.Basic

/-!
What a layout is told, and what can be watched while it runs.
-/

namespace Folio

variable {α : Type}

/-- What a run looks at to learn whether it is to stop. -/
inductive Signal where
  | none
  /-- One that participants can raise, and that may have been raised before the start. -/
  | live (raised : Option AbortReason)
  /-- A value that an engine put in its place and that nobody changes. -/
  | fixed (value : Json)

namespace Signal

def isLive : Signal → Bool
  | .live _ => true
  | _ => false

/-- Why the run is to stop before its first step, if it is. -/
def raised : Signal → Option AbortReason
  | .none => Option.none
  | .live raised => raised
  | .fixed value =>
    if ((value.get? "aborted").map Json.truthy).getD false then
      some (((value.get? "reason").map AbortReason.given).getD .missing)
    else Option.none

/-- What a look at the signal tells, where `now` is what a live one tells by then. -/
def read (now : Option AbortReason) : Signal → Option AbortReason
  | .live _ => now
  | other => other.raised

end Signal

/-- What every call of one layout gets to read: whether it runs inside another model, whether it is
to help with debugging, the signal that calls the layout off, and whatever the engine adds. The two
flags are truth values unless an engine puts something else in their place. -/
structure Context where
  nested : Json := .bool false
  debug : Json := .bool false
  signal : Signal := .live none
  extra : List (String × Json) := []
  /-- Members that are not the context's own, but belong to what it was made from. They can be read
  like its own. -/
  inherited : List (String × Json) := []

namespace Context

/-- Adds one member. Under the name of a flag or of the signal it takes the place of that. -/
def add (c : Context) (key : String) (value : Json) : Context :=
  if key == "nested" then { c with nested := value }
  else if key == "debug" then { c with debug := value }
  else if key == "signal" then { c with signal := .fixed value }
  else { c with extra := Json.put key value c.extra }

/-- The context with the members an engine brings along, those it only lends among them. -/
def widen (c : Context) (members : List (String × Json)) : Context :=
  let lent := ((Json.find? Json.reservedName members).map Json.parts).getD []
  (Json.copiedMembers members).foldl (fun c m => c.add m.1 m.2) { c with inherited := lent }

/-- The members of a context that can be printed. -/
def members (c : Context) : List (String × Json) :=
  match c.signal with
  | .fixed value => ("nested", c.nested) :: ("debug", c.debug) :: ("signal", value) :: c.extra
  | _ => ("nested", c.nested) :: ("debug", c.debug) :: c.extra

/-- A new context with the members that this one has of its own. -/
def copied (c : Context) : Context := { c with inherited := [] }

/-- The context of a model inside another. -/
def inner (c : Context) : Context := { c.copied with nested := .bool true }

@[simp] theorem inner_inner (c : Context) : c.inner.inner = c.inner := rfl

end Context

/-- A call that the engine can observe: a data node or an instruction handed to the sink, or a
scripted model being laid out. -/
inductive Event (α : Type) where
  | node (span : Span α) (content : Leaf) (context : Context)
  | command (instruction : Instruction) (context : Context)
  | script (id : Json) (context : Context)

def Event.context : Event α → Context
  | .node _ _ context => context
  | .command _ context => context
  | .script _ context => context

/-- How the receiver of nodes and instructions reacts, by the number of the call. -/
abbrev Sink := Nat → Reaction

/-- A receiver that takes everything. -/
def Sink.calm : Sink := fun _ => {}

/-- A receiver that asks for a stop at one call and fails at another. -/
def Sink.scripted (abortAt : Option Nat) (reason : AbortReason) (throwAt : Option Nat) (message : String) : Sink :=
  fun n => ⟨if abortAt = some n then some reason else none, if throwAt = some n then some message else none⟩

/-- The deepest nesting that is followed when nothing else is said. -/
def defaultDepth : Nat := 64

/-- A layout to be carried out. -/
structure Request (α : Type) where
  model : Model α
  context : Context := {}
  /-- Models inside this many others are not laid out. -/
  limit : α
  /-- What the limit was given as, if not as a number. -/
  givenLimit : Option Json := none
  /-- Replaces the debug flag of the context. -/
  debug : Option Json := none
  sink : Sink := Sink.calm

namespace Request

/-- The limit as messages show it. -/
def limitText [Coordinate α] (r : Request α) : String :=
  match r.givenLimit with
  | some given => given.bare
  | none => Coordinate.text r.limit

/-- The context of the root model. It is the caller's very own unless the debug flag is replaced, which
takes a copy. -/
def rootContext (r : Request α) : Context :=
  match r.debug with
  | some flag => { r.context.copied with debug := flag }
  | none => r.context

/-- The signal that the caller put into the context. -/
def signal (r : Request α) : Signal := r.context.signal

end Request

end Folio
