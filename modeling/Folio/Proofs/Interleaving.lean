import Folio.Layout.Together
import Folio.Proofs.Course

/-!
# Layouts side by side

Several layouts under way, each with its own sink, signal and feedback, and somebody who decides
whose turn it is. A turn is one task: it ends where the layout would wait for a model or for its
sink.

Results:
1. `Task.finish_eq`: carrying out a task, and then what follows from it, is what the layout does from
   there to its end.
2. `Machine.outcome_advance`: so no turn changes what a layout will come to.
3. `Machine.getElem?_along`: after any turns a layout is where its own turns alone bring it.
4. `interleaved_layouts_undisturbed`: layouts that run side by side come to what each comes to alone.
-/

namespace Folio

variable {α : Type} [Coordinate α]

/-! ## From a task to the end -/

namespace Task

/-- All that a task brings about, to its end. -/
def finish (r : Request α) : Task α → Run α Unit
  | .ask frame plan => Run.plan r frame plan
  | .accept frame plan => do
    Run.accept frame plan.heading
    Run.steps r frame plan.steps
  | .check context => Run.checkAborted context
  | .work frame steps => Run.steps r frame steps

def finishAll (r : Request α) : List (Task α) → Run α Unit
  | [] => pure ()
  | t :: rest => do
    t.finish r
    finishAll r rest

theorem finishAll_append (r : Request α) (first second : List (Task α)) :
    finishAll r (first ++ second) =
      (do finishAll r first; finishAll r second : Run α Unit) := by
  induction first with
  | nil => simp [finishAll]
  | cons t rest ih => simp [finishAll, ih]

/-- A task does its own part and leaves the rest to the tasks that follow from it. -/
theorem finish_eq (r : Request α) (t : Task α) :
    t.finish r = (do t.effect r; finishAll r (t.next r) : Run α Unit) := by
  cases t with
  | ask frame plan => simp [finish, effect, next, finishAll, Run.plan]
  | accept frame plan => simp [finish, effect, next, finishAll]
  | check context => simp [finish, effect, next, finishAll]
  | work frame steps =>
    cases steps with
    | nil => simp [finish, effect, next, finishAll, Run.steps]
    | cons s rest =>
      cases s with
      | instruct instruction =>
        simp [finish, effect, next, finishAll, Run.steps, Run.step]
      | leaf span content =>
        simp [finish, effect, next, finishAll, Run.steps, Run.step]
      | enter span heading inside =>
        simp only [finish, effect, next, Run.steps, Run.step]
        split
        · simp [finish, finishAll]
        · simp [finish, finishAll, Run.plan]

end Task

/-! ## One layout, turn by turn -/

namespace Machine

/-- What a layout that is under way will come to if it is left alone. -/
def outcome (m : Machine α) : LayoutReport α :=
  match (Task.finishAll m.request m.pending).run m.progress with
  | .ok _ p => Request.report p m.stop
  | .error stop p => Request.report p (some stop)

theorem outcome_start (r : Request α) : (start r).outcome = r.run := by
  have whole : (Task.finishAll (start r).request (start r).pending).run (start r).progress =
      (Run.plan r r.rootFrame r.model.plan).run r.start := by
    simp [start, Task.finishAll, Task.finish]
  rw [outcome, whole, Request.run]
  cases (Run.plan r r.rootFrame r.model.plan).run r.start with
  | ok _ p => rfl
  | error stop p => rfl

theorem outcome_advance (m : Machine α) : m.advance.outcome = m.outcome := by
  obtain ⟨r, pending, progress, stop⟩ := m
  cases pending with
  | nil => rfl
  | cons t rest =>
    simp only [outcome, advance, Task.finishAll, Task.finish_eq, bind_assoc, EStateM.run_bind]
    cases (t.effect r).run progress with
    | ok _ p => simp [Task.finishAll_append]
    | error stop p => rfl

theorem outcome_of_isDone {m : Machine α} (done : m.isDone = true) : m.outcome = m.report := by
  have none : m.pending = [] := List.isEmpty_iff.mp done
  rw [outcome, none]
  rfl

theorem advance_of_isDone {m : Machine α} (done : m.isDone = true) : m.advance = m := by
  rw [advance, List.isEmpty_iff.mp done]

/-- A layout that ended early has nothing left to do. -/
theorem isDone_advance_of_stop {m : Machine α} (settled : m.stop ≠ none → m.isDone = true)
    (stopped : m.advance.stop ≠ none) : m.advance.isDone = true := by
  unfold advance at stopped ⊢
  split
  next none => exact List.isEmpty_iff.mpr none
  next t rest pending =>
    split
    next p done =>
      rw [pending] at stopped
      simp only [done] at stopped
      have ended := settled stopped
      rw [isDone, pending] at ended
      cases ended
    next => rfl

theorem isDone_of_stop (r : Request α) (n : Nat) :
    (advance^[n] (start r)).stop ≠ none → (advance^[n] (start r)).isDone = true := by
  induction n with
  | zero => exact fun stopped => absurd rfl stopped
  | succ n ih =>
    rw [Function.iterate_succ_apply']
    exact isDone_advance_of_stop ih

theorem outcome_iterate (m : Machine α) (n : Nat) : (advance^[n] m).outcome = m.outcome := by
  induction n with
  | zero => rfl
  | succ n ih => rw [Function.iterate_succ_apply', outcome_advance, ih]

/-- A layout has come to its end after as many turns as it has tasks at most. -/
theorem isDone_iterate (m : Machine α) (n : Nat) (enough : m.size ≤ n) :
    (advance^[n] m).isDone = true := by
  induction n generalizing m with
  | zero =>
    cases left : m.isDone with
    | true => exact left
    | false => exact absurd (Nat.lt_of_lt_of_le (size_advance_lt m left) enough) (Nat.not_lt_zero _)
  | succ n ih =>
    cases left : m.isDone with
    | true =>
      rw [Function.iterate_fixed (advance_of_isDone left)]
      exact left
    | false =>
      rw [Function.iterate_succ_apply]
      exact ih m.advance (Nat.le_of_lt_succ (Nat.lt_of_lt_of_le (size_advance_lt m left) enough))

/-! ## Layouts in any order of turns -/

/-- The layout with this number has its turn. -/
def advanceAt (machines : List (Machine α)) (i : Nat) : List (Machine α) := machines.modify i advance

/-- Layouts after turns in this order. Nothing is asked of the order: some layouts may have all their
turns in a row, and others none. -/
def along (machines : List (Machine α)) (turns : List Nat) : List (Machine α) :=
  turns.foldl advanceAt machines

theorem getElem?_advanceAt (machines : List (Machine α)) (turn i : Nat) :
    (advanceAt machines turn)[i]? = machines[i]?.map advance^[[turn].count i] := by
  rw [advanceAt, List.getElem?_modify]
  by_cases own : turn = i
  · subst own
    simp
  · simp [own]

/-- Where a layout is depends on its own turns and on nothing that the others do. -/
theorem getElem?_along (machines : List (Machine α)) (turns : List Nat) (i : Nat) :
    (along machines turns)[i]? = machines[i]?.map advance^[turns.count i] := by
  induction turns generalizing machines with
  | nil => simp [along]
  | cons turn rest ih =>
    have later : along machines (turn :: rest) = along (advanceAt machines turn) rest := rfl
    have turns : (turn :: rest).count i = rest.count i + [turn].count i := by
      rw [← List.singleton_append, List.count_append, Nat.add_comm]
    rw [later, ih, getElem?_advanceAt, turns, Option.map_map, Function.iterate_add]

/-- In turns, every layout comes to its end. -/
theorem report_finishAll (machines : List (Machine α)) :
    (finishAll machines).map report = machines.map outcome := by
  fun_induction finishAll machines with
  | case1 machines left ih =>
    rw [ih, advanceAll, List.map_map]
    exact List.map_congr_left fun m _ => outcome_advance m
  | case2 machines finished =>
    have done : machines.all isDone = true := by simpa using finished
    refine List.map_congr_left fun m member => ?_
    exact (outcome_of_isDone (List.all_eq_true.mp done m member)).symm

end Machine

theorem Request.runTogether_eq (requests : List (Request α)) :
    Request.runTogether requests = requests.map Request.run := by
  rw [Request.runTogether, Machine.report_finishAll, List.map_map]
  exact List.map_congr_left fun r _ => Machine.outcome_start r

/-! ## Who ends a layout -/

/-- `r.Raises reason`: the signal of the request stands for this reason when the layout starts, or
one of its own participants raises it when it is called. -/
def Request.Raises (r : Request α) (reason : AbortReason) : Prop :=
  r.signal.raised = some reason ∨
  r.signal.isLive = true ∧
    ∃ before move after, r.moves = before ++ move :: after ∧
      (move.reaction r (before.countP Move.isCall)).abort = some reason

omit [Coordinate α] in
theorem Request.interruption_eq_abandoned {r : Request α} {reaction : Reaction}
    {reason : AbortReason} (stopped : r.interruption reaction = some (.abandoned reason)) :
    r.signal.isLive = true ∧ reaction.abort = some reason := by
  unfold Request.interruption at stopped
  split at stopped
  · cases stopped
  · split at stopped
    next live =>
      obtain ⟨_, asked, same⟩ := Option.map_eq_some_iff.mp stopped
      cases same
      exact ⟨live, asked⟩
    next => cases stopped

/-- A layout is abandoned only for a reason of its own. -/
theorem Request.raises_of_abandoned {r : Request α} {reason : AbortReason}
    (abandoned : r.run.result = .error (.abandoned reason)) : r.Raises reason := by
  cases r.course with
  | calledOff earlier raised made run =>
    rw [run] at abandoned
    cases abandoned
    exact .inl raised
  | completed unraised calm made run =>
    rw [run] at abandoned
    cases abandoned
  | cutShort before after move stop unraised split calm hit made run =>
    rw [run] at abandoned
    cases abandoned
    obtain ⟨live, asked⟩ := interruption_eq_abandoned hit
    exact .inr ⟨live, before, move, after, split, asked⟩

/-- Layouts side by side, in any order of turns. Each is where its own turns alone have brought it;
once it has come to its end, which takes a bounded number of turns, its report is that of the same
layout alone; and if it was abandoned, then for a reason of its own. -/
theorem interleaved_layouts_undisturbed (requests : List (Request α)) (turns : List Nat) (i : Nat)
    (r : Request α) (given : requests[i]? = some r) :
    (∃ m, (Machine.along (requests.map .start) turns)[i]? = some m ∧
      m = Machine.advance^[turns.count i] (.start r) ∧
      (m.isDone = true → m.report = r.run) ∧
      ((Machine.start r).size ≤ turns.count i → m.isDone = true) ∧
      (∀ reason, m.stop = some (.abandoned reason) → r.Raises reason)) ∧
    (Request.runTogether requests)[i]? = some r.run := by
  let m := Machine.advance^[turns.count i] (.start r)
  have here : (Machine.along (requests.map .start) turns)[i]? = some m := by
    rw [Machine.getElem?_along, List.getElem?_map, given]
    rfl
  have own : m.outcome = r.run := by rw [Machine.outcome_iterate, Machine.outcome_start]
  have ended : m.isDone = true → m.report = r.run := by
    intro done
    rw [← own, Machine.outcome_of_isDone done]
  refine ⟨⟨m, here, rfl, ended, Machine.isDone_iterate (.start r) (turns.count i), ?_⟩, ?_⟩
  · intro reason stopped
    have done : m.isDone = true :=
      Machine.isDone_of_stop r (turns.count i) (by rw [stopped]; exact Option.some_ne_none _)
    have abandoned : m.report.result = .error (.abandoned reason) := by
      rw [Machine.report, stopped]
      rfl
    rw [ended done] at abandoned
    exact Request.raises_of_abandoned abandoned
  · rw [Request.runTogether_eq, List.getElem?_map, given]
    rfl

/-- A page that two layouts share. -/
def sharedPage : Model Int :=
  .tree [⟨.zero, .leaf .space⟩, ⟨.zero, .model (.call .function "frobnicate" [])⟩]

/-- One of them is told to stop at its first node. -/
def withdrawnLayout : Request Int where
  model := sharedPage
  limit := 64
  sink := Sink.scripted (some 0) .unspecified none ""

def keptLayout : Request Int where
  model := sharedPage
  limit := 64

/-- The one is abandoned in the middle of the other, which goes on and reports the unknown name. -/
theorem keptLayout_undisturbed :
    ∃ withdrawn kept,
      Machine.along [.start withdrawnLayout, .start keptLayout]
        ([1, 0, 1, 0, 0, 1, 0] ++ List.replicate 8 1) = [withdrawn, kept] ∧
      withdrawn.stop = some (.abandoned .unspecified) ∧ withdrawnLayout.Raises .unspecified ∧
      kept.isDone = true ∧ kept.report = keptLayout.run ∧
      keptLayout.run.events =
        [.node .zero .space {}, .command (.engine (.call "frobnicate" [])) { nested := .bool true }] := by
  let turns := [1, 0, 1, 0, 0, 1, 0] ++ List.replicate 8 1
  obtain ⟨⟨withdrawn, first, place, _, _, own⟩, _⟩ :=
    interleaved_layouts_undisturbed [withdrawnLayout, keptLayout] turns 0 withdrawnLayout rfl
  obtain ⟨⟨kept, second, _, ended, enough, _⟩, _⟩ :=
    interleaved_layouts_undisturbed [withdrawnLayout, keptLayout] turns 1 keptLayout rfl
  have stopped : withdrawn.stop = some (.abandoned .unspecified) := by
    rw [place]
    rfl
  have done : kept.isDone = true := enough (by decide)
  refine ⟨withdrawn, kept, ?_, stopped, own _ stopped, done, ended done, rfl⟩
  cases first
  cases second
  rfl

end Folio
