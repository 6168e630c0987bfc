import Folio.Layout.Together
import Folio.Model.Equality

/-!
A layout together with a check that it leaves its model alone: the model is copied before and
compared with the copy afterwards.
-/

namespace Folio

variable {α : Type} [Coordinate α]

/-- A layout that was watched from before its start. -/
structure Observation (α : Type) where
  /-- What copying the model logged. -/
  copyLog : List BadCopy := []
  /-- Whether the model still equals its copy. There is none of a bare script or after a bad copy. -/
  unchanged : Option Bool := none
  report : LayoutReport α

namespace Observation

/-- Puts a report together with the fate of the copy. -/
def ofReport (m : Model α) (report : LayoutReport α) : Observation α :=
  if m.modelClass = .plain then { report }
  else
    let (copied, copyLog) := m.copy.outcome
    { copyLog, unchanged := copied.toOption.map (m == ·), report }

/-- What was logged, the copy first. -/
def entries (o : Observation Float) : List Log.Entry :=
  o.copyLog.map BadCopy.entry ++ o.report.notices.map LayoutNotice.entry

end Observation

/-- Carries out one layout under observation. -/
def Request.observe (r : Request α) : Observation α := .ofReport r.model r.run

/-- Carries out layouts side by side under observation. -/
def Request.observeTogether (requests : List (Request α)) : List (Observation α) :=
  List.zipWith (fun r report => .ofReport r.model report) requests (runTogether requests)

end Folio
