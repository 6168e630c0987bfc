import Folio.Proofs.Traversal

/-!
# How far a layout gets

A layout makes its moves one after another until somebody interrupts one of them, and everything
that can be watched of it is read off the moves it has made by then: the calls, the log, and what it
reports in the end.

1. `Request.course`: how a layout can end, and which moves it has made then.
2. `Request.run_events`, `Request.run_notices`, `Request.run_ok`: what is read off these moves.
3. `Visit.move?_eq`: the move at a place, for any limit.
-/

namespace Folio

variable {α : Type} [Coordinate α]

/-! ## The moves that are made -/

/-- The moves up to the first that somebody interrupts, which is made as well; `number` counts the
calls of the sink before. -/
def Request.madeOf (r : Request α) (number : Nat) : List (Move α) → List (Move α)
  | [] => []
  | move :: rest =>
    if (r.interruption (move.reaction r number)).isSome then [move]
    else move :: r.madeOf (number + [move].countP Move.isCall) rest

/-- The moves that a layout makes before it ends. Called off before its start it makes none. -/
def Request.made (r : Request α) : List (Move α) :=
  if r.signal.raised.isSome then [] else r.madeOf 0 r.moves

omit [Coordinate α] in
theorem Request.madeOf_undisturbed {r : Request α} {number : Nat} {moves : List (Move α)}
    (calm : r.Undisturbed number moves) : r.madeOf number moves = moves := by
  induction moves generalizing number with
  | nil => rfl
  | cons move rest ih =>
    obtain ⟨now, later⟩ := (r.undisturbed_cons number move rest).mp calm
    rw [Request.madeOf, now, ih later]
    rfl

omit [Coordinate α] in
theorem Request.madeOf_interrupted {r : Request α} {number : Nat} {before after : List (Move α)}
    {move : Move α} {stop : Stop} (calm : r.Undisturbed number before)
    (stopped : r.interruption (move.reaction r (number + before.countP Move.isCall)) = some stop) :
    r.madeOf number (before ++ move :: after) = before ++ [move] := by
  induction before generalizing number with
  | nil =>
    rw [List.countP_nil, Nat.add_zero] at stopped
    rw [List.nil_append, Request.madeOf, stopped]
    rfl
  | cons first rest ih =>
    obtain ⟨now, later⟩ := (r.undisturbed_cons number first rest).mp calm
    rw [← List.singleton_append, List.countP_append, ← Nat.add_assoc] at stopped
    rw [List.cons_append, Request.madeOf, now, ih later stopped]
    rfl

omit [Coordinate α] in
/-- Either nobody interrupts any of the moves, or there is a first move that is interrupted. -/
theorem Request.undisturbed_or_interrupted (r : Request α) (number : Nat) (moves : List (Move α)) :
    r.Undisturbed number moves ∨
    ∃ before move after stop, moves = before ++ move :: after ∧ r.Undisturbed number before ∧
      r.interruption (move.reaction r (number + before.countP Move.isCall)) = some stop := by
  induction moves generalizing number with
  | nil => exact .inl (r.undisturbed_nil number)
  | cons move rest ih =>
    cases now : r.interruption (move.reaction r number) with
    | some stop => exact .inr ⟨[], move, rest, stop, rfl, r.undisturbed_nil number, now⟩
    | none =>
      rcases ih (number + [move].countP Move.isCall) with calm | ⟨before, later, after, stop, split, calm, hit⟩
      · exact .inl ((r.undisturbed_cons number move rest).mpr ⟨now, calm⟩)
      · refine .inr ⟨move :: before, later, after, stop, by rw [split]; rfl,
          (r.undisturbed_cons number move before).mpr ⟨now, calm⟩, ?_⟩
        rwa [← List.singleton_append, List.countP_append, ← Nat.add_assoc]

/-- How a layout can go: it is called off before it starts, or it makes all its moves, or one of them
is the first to be interrupted. -/
inductive Request.Course (r : Request α) : Prop
  | calledOff (reason : AbortReason) (raised : r.signal.raised = some reason)
      (made : r.made = []) (run : r.run = ⟨[], [], .error (.abandoned reason)⟩)
  | completed (unraised : r.signal.raised = none) (calm : r.Undisturbed 0 r.moves)
      (made : r.made = r.moves) (run : r.run = Request.report (Progress.after r {} r.moves) none)
  | cutShort (before after : List (Move α)) (move : Move α) (stop : Stop)
      (unraised : r.signal.raised = none) (split : r.moves = before ++ move :: after)
      (calm : r.Undisturbed 0 before)
      (hit : r.interruption (move.reaction r (before.countP Move.isCall)) = some stop)
      (made : r.made = before ++ [move])
      (run : r.run =
        ⟨r.made.filterMap Move.event?, r.made.filterMap (Move.notice? r), .error stop⟩)

theorem Request.course (r : Request α) : r.Course := by
  cases raised : r.signal.raised with
  | some reason => exact .calledOff reason raised (by simp [Request.made, raised]) (r.run_raised reason raised)
  | none =>
    have start : r.made = r.madeOf 0 r.moves := by simp [Request.made, raised]
    rcases r.undisturbed_or_interrupted 0 r.moves with calm | ⟨before, move, after, stop, split, calm, hit⟩
    · exact .completed raised calm (start.trans (madeOf_undisturbed calm)) (r.run_undisturbed raised calm)
    · have made : r.made = before ++ [move] := by
        rw [start, split, madeOf_interrupted calm hit]
      rw [Nat.zero_add] at hit
      refine .cutShort before after move stop raised split calm hit made ?_
      rw [made]
      exact r.run_stopped raised before after move split calm stop hit

/-! ## What is read off the moves that are made -/

theorem Request.made_prefix (r : Request α) : r.made <+: r.moves := by
  cases r.course with
  | calledOff reason raised made run =>
    rw [made]
    exact List.nil_prefix
  | completed unraised calm made run => exact ⟨[], by rw [List.append_nil, made]⟩
  | cutShort before after move stop unraised split calm hit made run =>
    refine ⟨after, ?_⟩
    rw [made, split]
    simp

theorem Request.run_events (r : Request α) : r.run.events = r.made.filterMap Move.event? := by
  cases r.course with
  | calledOff reason raised made run =>
    rw [run, made]
    rfl
  | completed unraised calm made run =>
    rw [run, made]
    rfl
  | cutShort before after move stop unraised split calm hit made run => rw [run]

/-- What a layout notes when it has come to its end: nothing if it failed. -/
def LayoutReport.closing (report : LayoutReport α) : List (LayoutNotice α) :=
  match report.result with
  | .ok feedback => [.finished feedback.diagnostics.length feedback.decorations.length]
  | .error _ => []

theorem Request.run_notices (r : Request α) :
    r.run.notices = r.made.filterMap (Move.notice? r) ++ r.run.closing := by
  cases r.course with
  | calledOff reason raised made run =>
    rw [run, made]
    rfl
  | completed unraised calm made run =>
    rw [run, made]
    rfl
  | cutShort before after move stop unraised split calm hit made run =>
    rw [run]
    exact (List.append_nil _).symm

/-- A layout that succeeds has made all its moves, and returns what they report. -/
theorem Request.run_ok (r : Request α) {feedback : Feedback α} (succeeds : r.run.result = .ok feedback) :
    r.made = r.moves ∧ feedback = r.gathered := by
  cases r.course with
  | calledOff reason raised made run =>
    rw [run] at succeeds
    cases succeeds
  | completed unraised calm made run =>
    rw [run] at succeeds
    cases succeeds
    exact ⟨made, rfl⟩
  | cutShort before after move stop unraised split calm hit made run =>
    rw [run] at succeeds
    cases succeeds

namespace CourseLemmas

omit [Coordinate α] in
/-- What stands somewhere in two lists put together stands in one of them. -/
theorem split_append {β : Type} {first second before after : List β} {x : β}
    (split : first ++ second = before ++ x :: after) :
    (∃ rest, first = before ++ x :: rest) ∨
      ∃ skipped, before = first ++ skipped ∧ second = skipped ++ x :: after := by
  rcases List.append_eq_append_iff.mp split with ⟨skipped, rfl, rfl⟩ | ⟨rest, rfl, tail⟩
  · exact .inr ⟨skipped, rfl, rfl⟩
  · cases rest with
    | nil => exact .inr ⟨[], by simp, by simpa using tail.symm⟩
    | cons y rest =>
      obtain ⟨rfl, _⟩ := List.cons.inj tail
      exact .inl ⟨rest, rfl⟩

end CourseLemmas

open CourseLemmas

/-- A layout shows the events of its moves, up to where it ends, and the feedback of one that
succeeds is what all its moves report. -/
theorem Request.run_of_moves (r : Request α) :
    r.run.events <+: r.moves.filterMap Move.event? ∧
    ∀ feedback, r.run.result = .ok feedback → feedback = r.gathered := by
  refine ⟨?_, fun feedback succeeds => (r.run_ok succeeds).2⟩
  rw [r.run_events]
  exact r.made_prefix.filterMap Move.event?

/-! ## Places under any limit -/

/-- None of the model nodes around a place stands as deep as the limit says. -/
def Visit.Reached (limit : α) (v : Visit α) : Prop := ∀ depth < v.enclosing.length, ¬ limit ≤ (depth : α)

instance (limit : α) (v : Visit α) : Decidable (v.Reached limit) :=
  inferInstanceAs (Decidable (∀ depth < v.enclosing.length, ¬ limit ≤ (depth : α)))

theorem Frame.descend?_eq_ite (limit : α) (frame : Frame α) (spans : List (Span α)) :
    frame.descend? limit spans =
      if ∀ depth < spans.length, ¬ limit ≤ ((frame.depth + depth : Nat) : α) then
        some (spans.foldl Frame.inner frame)
      else none := by
  induction spans generalizing frame with
  | nil => simp [Frame.descend?]
  | cons span rest ih =>
    have depth : (frame.inner span).depth = frame.depth + 1 := rfl
    rw [Frame.descend?, ih, depth]
    by_cases deep : limit ≤ (frame.depth : α)
    · rw [if_pos deep, if_neg fun near => near 0 (by simp) deep]
    · rw [if_neg deep]
      refine if_congr ?_ rfl rfl
      rw [List.length_cons, Nat.forall_lt_succ_left]
      simp [deep, Nat.add_assoc, Nat.add_comm 1]

/-- The move at a place. -/
theorem Visit.move?_eq (r : Request α) (v : Visit α) :
    v.move? r.limit r.rootFrame =
      if v.Reached r.limit then
        some (v.content.move r.limit ⟨v.context r.rootContext, v.enclosing.length, v.origin⟩)
      else none := by
  have reached : (∀ depth < v.enclosing.length,
      ¬ r.limit ≤ ((r.rootFrame.depth + depth : Nat) : α)) ↔ v.Reached r.limit := by
    simp [Visit.Reached, Request.rootFrame]
  rw [Visit.move?, Frame.descend?_eq_ite, TraversalLemmas.foldl_inner, if_congr reached rfl rfl]
  split
  · rfl
  · rfl

end Folio
