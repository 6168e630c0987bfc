import Folio.Runs.Search

/-!
Merging two neighbouring runs. The shorter run is held aside and both are walked through in one
direction. Once one of them wins often enough in a row, the walk goes on in leaps; how often is
enough is learnt while merging.
-/

namespace Folio.Runs

variable {β : Type}

/-- A merge under way: what is left of the run held aside and of the other one, and what has been
placed, the latest first. -/
structure Walk (β : Type) where
  held : List β
  others : List β
  placed : List β := []

namespace Walk

/-- A walk is over, with the items in order, as soon as nothing is left of one run. The last held
item goes behind everything. -/
def settle (w : Walk β) : Except (List β) (Walk β) :=
  match w.others, w.held with
  | [], held => .error (w.placed.reverse ++ held)
  | others, [] => .error (w.placed.reverse ++ others)
  | others, [x] => .error (w.placed.reverse ++ others ++ [x])
  | _, _ => .ok w

def placeHeld (w : Walk β) (n : Nat) : Except (List β) (Walk β) :=
  ({ w with held := w.held.drop n, placed := (w.held.take n).reverse ++ w.placed } : Walk β).settle

def placeOthers (w : Walk β) (n : Nat) : Except (List β) (Walk β) :=
  ({ w with others := w.others.drop n, placed := (w.others.take n).reverse ++ w.placed } : Walk β).settle

/-- How many held items come before the next of the others. -/
def heldLead (d : Direction) (goes : β → β → Bool) (w : Walk β) : Nat :=
  match w.others with
  | o :: _ => leading d (fun h => !goes o h) w.held
  | [] => 0

/-- How many of the others come before the next held item. -/
def othersLead (d : Direction) (goes : β → β → Bool) (w : Walk β) : Nat :=
  match w.held with
  | h :: _ => leading d (fun o => goes o h) w.others
  | [] => 0

/-- The fewest items in a row that make a leap worth while. -/
def farLeap : Nat := 7

/-- One leap for each run, the lower run first. Also tells whether one of them was far. -/
def leap (d : Direction) (goes : β → β → Bool) (w : Walk β) : Except (List β) (Walk β × Bool) := do
  match d with
  | .up =>
    let n := w.heldLead d goes
    let w ← w.placeHeld n
    let w ← w.placeOthers 1
    let m := w.othersLead d goes
    let w ← w.placeOthers m
    let w ← w.placeHeld 1
    return (w, decide (farLeap ≤ n ∨ farLeap ≤ m))
  | .down =>
    let n := w.othersLead d goes
    let w ← w.placeOthers n
    let w ← w.placeHeld 1
    let m := w.heldLead d goes
    let w ← w.placeHeld m
    let w ← w.placeOthers 1
    return (w, decide (farLeap ≤ n ∨ farLeap ≤ m))

/-- How a walk goes on: item by item, with the wins in a row of either run, or in leaps. -/
inductive Gait where
  | steps (heldWins othersWins : Nat)
  | leaps

/-- Walks to the end. An item of the others comes next if it `goes` before the held one. Leaping
starts after `patience` wins in a row; every round of leaps lowers that number, and going back to
single steps raises it. Each round places an item, so as many rounds as there are items are enough. -/
def finish (d : Direction) (goes : β → β → Bool) :
    (rounds patience : Nat) → Gait → Walk β → List β × Nat
  | 0, patience, _, w => (w.placed.reverse ++ w.held ++ w.others, patience)
  | rounds + 1, patience, .leaps, w =>
    let patience := if patience ≤ 2 then 1 else patience - 1
    match w.leap d goes with
    | .error items => (items, patience)
    | .ok (w, true) => w.finish d goes rounds patience .leaps
    | .ok (w, false) => w.finish d goes rounds (patience + 1) (.steps 0 0)
  | rounds + 1, patience, .steps heldWins othersWins, w =>
    let otherGoes :=
      match w.others, w.held with
      | o :: _, h :: _ => goes o h
      | _, _ => false
    let (next, wins, gait) :=
      if otherGoes then (w.placeOthers 1, othersWins + 1, Gait.steps 0 (othersWins + 1))
      else (w.placeHeld 1, heldWins + 1, Gait.steps (heldWins + 1) 0)
    match next with
    | .error items => (items, patience)
    | .ok w =>
      if patience ≤ wins then w.finish d goes rounds (patience + 1) .leaps
      else w.finish d goes rounds patience gait

/-- Starts with the first of the others, which is known to come first. -/
def run (d : Direction) (goes : β → β → Bool) (patience : Nat) (held others : List β) : List β × Nat :=
  match ({ held, others } : Walk β).placeOthers 1 with
  | .error items => (items, patience)
  | .ok w => w.finish d goes (held.length + others.length) patience (.steps 0 0)

end Walk

/-- Merges a run with the one behind it. Items that are in place already stay out of it: those of
the lower run before the first of the upper one, and those of the upper run behind the last of the
lower one. Also gives the patience learnt. -/
def merge (before : β → β → Bool) (patience : Nat) (lower upper : List β) : List β × Nat :=
  match upper.head? with
  | none => (lower, patience)
  | some first =>
    let kept := leading .up (fun x => !before first x) lower
    let low := lower.drop kept
    match low.getLast? with
    | none => (lower ++ upper, patience)
    | some last =>
      let stays := leading .down (fun y => !before y last) upper.reverse
      let high := upper.take (upper.length - stays)
      if high.isEmpty then (lower ++ upper, patience)
      else
        let (merged, patience) :=
          if low.length ≤ high.length then Walk.run .up before patience low high
          else
            let (items, patience) := Walk.run .down (fun x y => before y x) patience high.reverse low.reverse
            (items.reverse, patience)
        (lower.take kept ++ merged ++ upper.drop (upper.length - stays), patience)

end Folio.Runs
