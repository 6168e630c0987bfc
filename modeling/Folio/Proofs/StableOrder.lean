import Folio.Proofs.Covering
import Folio.Proofs.OrderEmbedding

/-!
# Decorations in stable order

Decorations are sorted by where they start. Starts that differ in their offsets only tie, however far
the spans reach, and decorations that tie keep the order they came in. Nothing more has to be said:
no other list of the same decorations is in order and keeps that of the ties.

1. `Decoration.eq_of_startingAt`: lists in order are told apart by what starts at each place.
2. `Decoration.stablySorted_sortByStart`, `Decoration.StablySorted.unique`: sorting gives the one
   list that is sorted stably.
3. `decorations_sort_stably`: what follows for sorting again and for sorting bit by bit.
-/

namespace Folio

namespace Decoration

variable {items sorted other : List (Spanned Int Decoration)}

/-- The decorations that start at a place, in the order they come in. -/
def startingAt (p : Position Int) (items : List (Spanned Int Decoration)) :
    List (Spanned Int Decoration) :=
  items.filter fun d => d.span.start.line = p.line ∧ d.span.start.column = p.column

/-- `StablySorted items sorted`: the same decorations, none of them before one that starts earlier,
and those that start at one place in the order they had. -/
structure StablySorted (items sorted : List (Spanned Int Decoration)) : Prop where
  perm : sorted.Perm items
  rising : sorted.IsChain fun d e => d.span.start.compare e.span.start ≤ 0
  ties : ∀ p, startingAt p sorted = startingAt p items

/-! ## What starts at a place -/

theorem mem_startingAt {p : Position Int} {d : Spanned Int Decoration} :
    d ∈ startingAt p items ↔ d ∈ items ∧ d.span.start.SamePlace p := by
  simp [startingAt, Position.SamePlace]

theorem startingAt_append (p : Position Int) (u v : List (Spanned Int Decoration)) :
    startingAt p (u ++ v) = startingAt p u ++ startingAt p v :=
  List.filter_append u v

theorem startingAt_cons_self (d : Spanned Int Decoration) (rest : List (Spanned Int Decoration)) :
    startingAt d.span.start (d :: rest) = d :: startingAt d.span.start rest :=
  List.filter_cons_of_pos (by simp)

theorem startingAt_cons_congr {d : Spanned Int Decoration} {rest rest' : List (Spanned Int Decoration)}
    {p : Position Int} :
    startingAt p (d :: rest) = startingAt p (d :: rest') ↔ startingAt p rest = startingAt p rest' := by
  unfold startingAt
  rw [List.filter_cons, List.filter_cons]
  split
  · exact List.cons_inj_right d
  · exact Iff.rfl

/-- Lists in order are told apart by what starts at each place. -/
theorem eq_of_startingAt (ordered : sorted.Pairwise fun d e => d.span.start ≤ e.span.start)
    (ordered' : other.Pairwise fun d e => d.span.start ≤ e.span.start)
    (same : ∀ p, startingAt p sorted = startingAt p other) : sorted = other := by
  induction sorted generalizing other with
  | nil =>
    cases other with
    | nil => rfl
    | cons e later =>
      have here := same e.span.start
      rw [startingAt_cons_self] at here
      cases here
  | cons d rest ih =>
    cases other with
    | nil =>
      have here := same d.span.start
      rw [startingAt_cons_self] at here
      cases here
    | cons e later =>
      obtain ⟨least, onward⟩ := List.pairwise_cons.mp ordered
      obtain ⟨least', onward'⟩ := List.pairwise_cons.mp ordered'
      -- Each first decoration is in the other list too, so neither starts before the other.
      have tie : d.span.start.SamePlace e.span.start := by
        have inOther : d ∈ e :: later := by
          have own : d ∈ startingAt d.span.start (d :: rest) := by simp [startingAt_cons_self]
          rw [same] at own
          exact (mem_startingAt.mp own).1
        have inSorted : e ∈ d :: rest := by
          have own : e ∈ startingAt e.span.start (e :: later) := by simp [startingAt_cons_self]
          rw [← same] at own
          exact (mem_startingAt.mp own).1
        refine Position.samePlace_iff.mpr ⟨?_, ?_⟩
        · rcases List.mem_cons.mp inSorted with rfl | further
          · exact le_refl _
          · exact least e further
        · rcases List.mem_cons.mp inOther with rfl | further
          · exact le_refl _
          · exact least' d further
      -- At the place where both start each of them comes first.
      obtain rfl : d = e := by
        have here := same d.span.start
        have second : startingAt d.span.start (e :: later) = e :: startingAt d.span.start later :=
          List.filter_cons_of_pos (by simp [tie.1, tie.2])
        rw [startingAt_cons_self, second] at here
        exact (List.cons.inj here).1
      rw [ih onward onward' fun p => startingAt_cons_congr.mp (same p)]

/-! ## Sorting -/

namespace StableOrderLemmas

/-- The order that decorations are sorted by. -/
def startsBy (d e : Spanned Int Decoration) : Bool := decide (d.span.start ≤ e.span.start)

theorem startsBy_iff {d e : Spanned Int Decoration} :
    startsBy d e = true ↔ d.span.start ≤ e.span.start := decide_eq_true_iff

theorem startsBy_trans (d e f : Spanned Int Decoration) (first : startsBy d e = true)
    (second : startsBy e f = true) : startsBy d f = true :=
  startsBy_iff.mpr (le_trans (startsBy_iff.mp first) (startsBy_iff.mp second))

theorem startsBy_total (d e : Spanned Int Decoration) : (startsBy d e || startsBy e d) = true := by
  rw [Bool.or_eq_true, startsBy_iff, startsBy_iff]
  exact Position.le_total _ _

theorem sortByStart_eq_mergeSort (items : List (Spanned Int Decoration)) :
    sortByStart items = items.mergeSort startsBy := sortByStart_eq items

end StableOrderLemmas

open StableOrderLemmas

theorem sortByStart_perm (items : List (Spanned Int Decoration)) :
    (sortByStart items).Perm items := by
  rw [sortByStart_eq_mergeSort]
  exact List.mergeSort_perm items startsBy

theorem sortByStart_pairwise (items : List (Spanned Int Decoration)) :
    (sortByStart items).Pairwise fun d e => d.span.start ≤ e.span.start := by
  rw [sortByStart_eq_mergeSort]
  exact (List.pairwise_mergeSort startsBy_trans startsBy_total items).imp startsBy_iff.mp

/-- Decorations that start at one place are left in their order. -/
theorem startingAt_sortByStart (p : Position Int) (items : List (Spanned Int Decoration)) :
    startingAt p (sortByStart items) = startingAt p items := by
  have tied : (startingAt p items).Pairwise fun d e => startsBy d e = true := by
    refine List.pairwise_of_forall_mem_list fun d held e held' => startsBy_iff.mpr ?_
    obtain ⟨line, column⟩ := (mem_startingAt.mp held).2
    obtain ⟨line', column'⟩ := (mem_startingAt.mp held').2
    exact Position.le_iff.mpr (.inr ⟨line.trans line'.symm, Int.le_of_eq (column.trans column'.symm)⟩)
  -- Ties are in order already, so that sorting does not take them apart.
  have kept : (startingAt p items).Sublist (sortByStart items) := by
    rw [sortByStart_eq_mergeSort]
    exact List.sublist_mergeSort startsBy_trans startsBy_total tied List.filter_sublist
  have within : (startingAt p items).Sublist (startingAt p (sortByStart items)) := by
    have own : startingAt p (startingAt p items) = startingAt p items :=
      List.filter_eq_self.mpr fun d held => (List.mem_filter.mp held).2
    rw [← own]
    exact kept.filter _
  have count : (startingAt p items).length = (startingAt p (sortByStart items)).length :=
    ((sortByStart_perm items).filter _).length_eq.symm
  exact (within.eq_of_length count).symm

theorem stablySorted_sortByStart (items : List (Spanned Int Decoration)) :
    StablySorted items (sortByStart items) where
  perm := sortByStart_perm items
  rising := (sortByStart_pairwise items).isChain
  ties p := startingAt_sortByStart p items

/-- Where starts never fall from one decoration to the next, they fall nowhere. -/
theorem StablySorted.pairwise (stable : StablySorted items sorted) :
    sorted.Pairwise fun d e => d.span.start ≤ e.span.start := by
  have : IsTrans (Spanned Int Decoration) fun d e => d.span.start ≤ e.span.start :=
    ⟨fun _ _ _ first second => le_trans first second⟩
  exact List.IsChain.pairwise stable.rising

/-- No other list is sorted stably. -/
theorem StablySorted.unique (stable : StablySorted items sorted)
    (stable' : StablySorted items other) : other = sorted :=
  eq_of_startingAt stable'.pairwise stable.pairwise fun p => (stable'.ties p).trans (stable.ties p).symm

/-- Sorting a part of the items in advance makes no difference. -/
theorem StablySorted.presorted {u u' v : List (Spanned Int Decoration)} (part : StablySorted u u')
    (stable : StablySorted (u ++ v) sorted) : StablySorted (u' ++ v) sorted where
  perm := stable.perm.trans (part.perm.symm.append_right v)
  rising := stable.rising
  ties p := by
    rw [stable.ties, startingAt_append, startingAt_append, part.ties]

end Decoration

/-- Sorting decorations gives the one list of them that is sorted stably by where they start. So
sorting again changes nothing, and it makes no difference whether some are sorted before the others
are added behind them. -/
theorem decorations_sort_stably (items : List (Spanned Int Decoration)) :
    Decoration.StablySorted items (Decoration.sortByStart items) ∧
    (∀ other, Decoration.StablySorted items other → other = Decoration.sortByStart items) ∧
    Decoration.sortByStart (Decoration.sortByStart items) = Decoration.sortByStart items ∧
    ∀ more, Decoration.sortByStart (Decoration.sortByStart items ++ more) =
      Decoration.sortByStart (items ++ more) := by
  have stable := Decoration.stablySorted_sortByStart items
  have again : ∀ more, Decoration.sortByStart (Decoration.sortByStart items ++ more) =
      Decoration.sortByStart (items ++ more) := by
    intro more
    have whole := Decoration.stablySorted_sortByStart (items ++ more)
    exact (stable.presorted whole).unique (Decoration.stablySorted_sortByStart _)
  refine ⟨stable, fun other => stable.unique, ?_, again⟩
  simpa using again []

/-- A mark on a later line, and two that tie although the one has the greater offset and ends before
it starts. -/
def tiedMarks : List (Spanned Int Decoration) :=
  [⟨⟨⟨1, 0, 7⟩, ⟨1, 2, 9⟩⟩, .bold⟩, ⟨⟨⟨0, 4, 30⟩, ⟨0, 1, 1⟩⟩, .italic⟩,
    ⟨⟨⟨0, 4, 4⟩, ⟨0, 6, 6⟩⟩, .objectKey⟩]

/-- The two stay in their order, in front of the mark on the later line. -/
theorem tiedMarks_sort_stably :
    Decoration.StablySorted tiedMarks (tiedMarks.drop 1 ++ tiedMarks.take 1) ∧
    Decoration.sortByStart tiedMarks = tiedMarks.drop 1 ++ tiedMarks.take 1 := by
  have stable : Decoration.StablySorted tiedMarks (tiedMarks.drop 1 ++ tiedMarks.take 1) := by
    refine ⟨List.perm_append_comm, by decide, fun p => ?_⟩
    by_cases later : p.line = 1
    · simp [Decoration.startingAt, tiedMarks, List.filter_cons, later]
    · have first : ¬ (1 : Int) = p.line := fun same => later same.symm
      simp [Decoration.startingAt, tiedMarks, List.filter_cons, first]
  exact ⟨stable, ((decorations_sort_stably tiedMarks).2.1 _ stable).symm⟩

end Folio
