import Folio.Layout.Run

/-!
Layouts carried out side by side. Each run is a machine that does one task and then lets the others
go on, so that a task ends exactly where a run would wait for a model or for its sink.
-/

namespace Folio

variable {α : Type} [Coordinate α]

/-- What a run does between two points where it waits. -/
inductive Task (α : Type) where
  /-- Ask a model for its commands. -/
  | ask (frame : Frame α) (plan : Plan α)
  /-- Take in what the model answered. -/
  | accept (frame : Frame α) (plan : Plan α)
  /-- Look out for a request to stop. -/
  | check (context : Context)
  /-- Go on with the steps of a model. -/
  | work (frame : Frame α) (steps : List (Step α))

namespace Task

/-- What a task does by itself. -/
def effect (r : Request α) : Task α → Run α Unit
  | .ask frame plan => Run.ask r frame plan.heading
  | .accept frame plan => Run.accept frame plan.heading
  | .check context => Run.checkAborted context
  | .work _ [] => pure ()
  | .work frame (.instruct instruction :: _) => Run.callSink r (.command instruction frame.context)
  | .work frame (.leaf span content :: _) => Run.callSink r (.node (span.offsetBy frame.origin) content frame.context)
  | .work frame (.enter span heading _ :: _) =>
    if r.limit ≤ (frame.depth : α) then Run.skip r frame span heading else pure ()

/-- What has to follow a task before anything else of the run. -/
def next (r : Request α) : Task α → List (Task α)
  | .ask frame plan => [.accept frame plan]
  | .accept frame plan => [.work frame plan.steps]
  | .check _ => []
  | .work _ [] => []
  | .work frame (.instruct _ :: rest) => [.check frame.context, .work frame rest]
  | .work frame (.leaf _ _ :: rest) => [.check frame.context, .work frame rest]
  | .work frame (.enter span heading inside :: rest) =>
    if r.limit ≤ (frame.depth : α) then [.work frame rest]
    else [.ask (frame.inner span) ⟨heading, inside⟩, .work frame rest]

end Task

mutual

/-- A bound on the tasks that a step takes. -/
def Step.size : Step α → Nat
  | .instruct _ => 2
  | .leaf _ _ => 2
  | .enter _ _ inside => 4 + Step.sizes inside

def Step.sizes : List (Step α) → Nat
  | [] => 0
  | s :: rest => s.size + Step.sizes rest

end

def Task.size : Task α → Nat
  | .ask _ plan => 3 + Step.sizes plan.steps
  | .accept _ plan => 2 + Step.sizes plan.steps
  | .check _ => 1
  | .work _ steps => 1 + Step.sizes steps

def Task.sizes : List (Task α) → Nat
  | [] => 0
  | t :: rest => t.size + Task.sizes rest

omit [Coordinate α] in
theorem Task.sizes_append (first second : List (Task α)) :
    Task.sizes (first ++ second) = Task.sizes first + Task.sizes second := by
  induction first with
  | nil => simp only [List.nil_append, Task.sizes, Nat.zero_add]
  | cons t rest ih => simp only [List.cons_append, Task.sizes, ih, Nat.add_assoc]

/-- What follows a task is less than the task. -/
theorem Task.sizes_next_lt (r : Request α) (t : Task α) : Task.sizes (t.next r) < t.size := by
  cases t with
  | ask frame plan => simp only [Task.next, Task.sizes, Task.size]; omega
  | accept frame plan => simp only [Task.next, Task.sizes, Task.size]; omega
  | check context => exact Nat.one_pos
  | work frame steps =>
    cases steps with
    | nil => exact Nat.one_pos
    | cons s rest =>
      cases s with
      | instruct instruction => simp only [Task.next, Task.sizes, Task.size, Step.sizes, Step.size]; omega
      | leaf span content => simp only [Task.next, Task.sizes, Task.size, Step.sizes, Step.size]; omega
      | enter span heading inside =>
        simp only [Task.next, Task.size, Step.sizes, Step.size]
        split
        · simp only [Task.sizes, Task.size]; omega
        · simp only [Task.sizes, Task.size]; omega

/-- A run that is under way: what is left to do, what has been done, and how it ended if it ended
early. -/
structure Machine (α : Type) where
  request : Request α
  pending : List (Task α)
  progress : Progress α
  stop : Option Stop := none

namespace Machine

def start (r : Request α) : Machine α := ⟨r, [.ask r.rootFrame r.model.plan], r.start, none⟩

def isDone (m : Machine α) : Bool := m.pending.isEmpty

/-- Does the first task that is left. A task that fails leaves none. -/
def advance (m : Machine α) : Machine α :=
  match m.pending with
  | [] => m
  | t :: rest =>
    match (t.effect m.request).run m.progress with
    | .ok _ p => { m with pending := t.next m.request ++ rest, progress := p }
    | .error stop p => { m with pending := [], progress := p, stop := some stop }

def size (m : Machine α) : Nat := Task.sizes m.pending

theorem size_advance_lt (m : Machine α) (left : m.isDone = false) : m.advance.size < m.size := by
  unfold advance
  split
  next none => simp [isDone, none] at left
  next t rest pending =>
    have less := Task.sizes_next_lt m.request t
    have before : m.size = t.size + Task.sizes rest := by rw [size, pending, Task.sizes]
    split
    · rw [before]
      simp only [size, Task.sizes_append]
      omega
    · rw [before]
      simp only [size, Task.sizes]
      omega

theorem size_advance_le (m : Machine α) : m.advance.size ≤ m.size := by
  cases left : m.isDone with
  | false => exact Nat.le_of_lt (size_advance_lt m left)
  | true =>
    have none : m.pending = [] := List.isEmpty_iff.mp left
    have same : m.advance = m := by rw [advance, none]
    exact Nat.le_of_eq (congrArg size same)

def sizes : List (Machine α) → Nat
  | [] => 0
  | m :: rest => m.size + sizes rest

/-- One round: every machine does a task. -/
def advanceAll (machines : List (Machine α)) : List (Machine α) := machines.map advance

theorem sizes_advanceAll_le (machines : List (Machine α)) : sizes (advanceAll machines) ≤ sizes machines := by
  induction machines with
  | nil => exact Nat.le_refl _
  | cons m rest ih => exact Nat.add_le_add (size_advance_le m) ih

theorem sizes_advanceAll_lt (machines : List (Machine α)) (left : machines.all isDone = false) :
    sizes (advanceAll machines) < sizes machines := by
  induction machines with
  | nil => simp at left
  | cons m rest ih =>
    cases done : m.isDone with
    | false => exact Nat.add_lt_add_of_lt_of_le (size_advance_lt m done) (sizes_advanceAll_le rest)
    | true =>
      have restLeft : rest.all isDone = false := by simpa [done] using left
      exact Nat.add_lt_add_of_le_of_lt (size_advance_le m) (ih restLeft)

def report (m : Machine α) : LayoutReport α := Request.report m.progress m.stop

/-- Every machine does one task in turn until all are done. -/
def finishAll (machines : List (Machine α)) : List (Machine α) :=
  if machines.all isDone = false then finishAll (advanceAll machines) else machines
termination_by sizes machines
decreasing_by exact sizes_advanceAll_lt machines ‹_›

end Machine

/-- Starts all layouts together and carries them out in turns. -/
def Request.runTogether (requests : List (Request α)) : List (LayoutReport α) :=
  (Machine.finishAll (requests.map Machine.start)).map Machine.report

end Folio
