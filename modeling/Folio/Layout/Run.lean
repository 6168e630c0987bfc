import Folio.Layout.Context
import Folio.Layout.Plan
import Folio.Failure
import Folio.Log.Entry

/-!
Carrying out a layout. Nodes are visited strictly in document order; a request to stop takes effect
at the next point where the run looks out for one, and what has been handed out by then stays so.
-/

namespace Folio

variable {α : Type} [Coordinate α]

/-- What a layout logs. -/
inductive LayoutNotice (α : Type) where
  | layingOut (model : ModelClass) (depth : Nat)
  | skipping (model : ModelClass) (limit : α) (given : Option Json)
  | finished (diagnostics decorations : Nat)

/-- Why a layout ended early: a participant failed, or it was told to stop. -/
inductive Stop where
  | threw (message : String)
  | abandoned (reason : AbortReason)

/-- What a layout has done so far. -/
structure Progress (α : Type) where
  events : List (Event α) := []
  notices : List (LayoutNotice α) := []
  feedback : Feedback α := .empty
  /-- How many times the sink has been called. -/
  calls : Nat := 0
  /-- Why the live signal has been raised, if it has. -/
  aborted : Option AbortReason := none

/-- What the steps of one model have in common: their context, how many models enclose them, and
where that model starts in the document. -/
structure Frame (α : Type) where
  context : Context
  depth : Nat
  origin : Position α

/-- The frame of a submodel at `span`. -/
def Frame.inner (f : Frame α) (span : Span α) : Frame α where
  context := f.context.inner
  depth := f.depth + 1
  origin := span.start.offsetBy f.origin

/-- Steps of a layout: they change the progress, and may end it early. -/
abbrev Run (α : Type) := EStateM Stop (Progress α)

namespace Run

/-- Ends the run if the signal in a context says so. -/
def checkAborted (c : Context) : Run α Unit := do
  match c.signal.read (← get).aborted with
  | some reason => throw (.abandoned reason)
  | none => pure ()

/-- Lets a participant interfere. The first stop asked for counts, and only if the signal is live. -/
def react (live : Bool) (r : Reaction) : Run α Unit := do
  if live then modify fun p => { p with aborted := p.aborted <|> r.abort }
  match r.throws with
  | some message => throw (.threw message)
  | none => pure ()

def emit (event : Event α) : Run α Unit := modify fun p => { p with events := p.events ++ [event] }

def note (notice : LayoutNotice α) : Run α Unit := modify fun p => { p with notices := p.notices ++ [notice] }

/-- Calls the sink. -/
def callSink (r : Request α) (event : Event α) : Run α Unit := do
  let number := (← get).calls
  emit event
  modify fun p => { p with calls := number + 1 }
  react r.signal.isLive (r.sink number)

/-- Asks a model for its commands. -/
def ask (r : Request α) (frame : Frame α) (h : Heading α) : Run α Unit := do
  checkAborted frame.context
  note (.layingOut h.modelClass frame.depth)
  match h.announces with
  | some id => emit (.script id frame.context)
  | none => pure ()
  react r.signal.isLive h.reaction

/-- Takes in the feedback of a model, which is measured from where the model starts. -/
def accept (frame : Frame α) (h : Heading α) : Run α Unit := do
  checkAborted frame.context
  modify fun p => { p with feedback := p.feedback.extendOffset h.feedback frame.origin }

/-- Leaves out a submodel that lies too deep. -/
def skip (r : Request α) (frame : Frame α) (span : Span α) (h : Heading α) : Run α Unit := do
  note (.skipping h.modelClass r.limit r.givenLimit)
  let message := "maximum layout depth of " ++ r.limitText ++ " exceeded"
  modify fun p => { p with feedback := p.feedback.report (Diagnostic.errorAt (span.offsetBy frame.origin) message) }

mutual

def step (r : Request α) (frame : Frame α) : Step α → Run α Unit
  | .instruct instruction => do
    callSink r (.command instruction frame.context)
    checkAborted frame.context
  | .leaf span content => do
    callSink r (.node (span.offsetBy frame.origin) content frame.context)
    checkAborted frame.context
  | .enter span h inside =>
    if r.limit ≤ (frame.depth : α) then skip r frame span h
    else do
      ask r (frame.inner span) h
      accept (frame.inner span) h
      steps r (frame.inner span) inside

def steps (r : Request α) (frame : Frame α) : List (Step α) → Run α Unit
  | [] => pure ()
  | s :: rest => do
    step r frame s
    steps r frame rest

end

/-- Lays out a model and everything inside it. -/
def plan (r : Request α) (frame : Frame α) (p : Plan α) : Run α Unit := do
  ask r frame p.heading
  accept frame p.heading
  steps r frame p.steps

end Run

/-- The outcome of a layout with all that could be watched of it. -/
structure LayoutReport (α : Type) where
  events : List (Event α)
  notices : List (LayoutNotice α)
  result : Except Stop (Feedback α)

namespace Request

def rootFrame (r : Request α) : Frame α := ⟨r.rootContext, 0, .zero⟩

/-- Before the first step nothing has happened, but a stop may have been asked for. -/
def start (r : Request α) : Progress α := { aborted := r.signal.raised }

/-- The report of a run that came this far and ended so. -/
def report (p : Progress α) (stop : Option Stop) : LayoutReport α :=
  match stop with
  | some stop => ⟨p.events, p.notices, .error stop⟩
  | none =>
    let closing := .finished p.feedback.diagnostics.length p.feedback.decorations.length
    ⟨p.events, p.notices ++ [closing], .ok p.feedback⟩

/-- Carries out a layout. -/
def run (r : Request α) : LayoutReport α :=
  match (Run.plan r r.rootFrame r.model.plan).run r.start with
  | .ok _ p => report p none
  | .error stop p => report p (some stop)

end Request

/-- The failure of an abandoned layout; a participant's own failure is only its message. -/
def Stop.failure : Stop → Except String (Failure α)
  | .threw message => .error message
  | .abandoned reason => .ok (.abandoned none (some reason))

/-- The entry in the log of the layout service. -/
def LayoutNotice.entry : LayoutNotice Float → Log.Entry
  | .layingOut model depth =>
    ⟨.layout, .debug, "Laying out model", some (.obj [("model", .str model.name), ("depth", .nat depth)])⟩
  | .skipping model limit given =>
    ⟨.layout, .warn, "Skipping submodel beyond maximum depth",
      some (.obj [("model", .str model.name), ("maxDepth", given.getD (.num limit))])⟩
  | .finished diagnostics decorations =>
    ⟨.layout, .debug, "Layout finished",
      some (.obj [("diagnostics", .nat diagnostics), ("decorations", .nat decorations)])⟩

end Folio
