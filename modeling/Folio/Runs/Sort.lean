import Folio.Runs.Merge

/-!
A stable sort by runs. Stretches that are in order already are taken as they stand, short ones are
filled up one item at a time, and neighbouring runs are merged so that their lengths stay balanced.

For an order this is just the stable sort. It is defined for any relation, though: where answers
contradict each other, the result depends on which items are compared, and that is fixed here.
-/

namespace Folio.Runs

variable {β : Type}

/-- Splits off the items that follow `x` as long as each `follows` the one before it. -/
def chain (follows : β → β → Bool) (x : β) : List β → List β × List β
  | [] => ([], [])
  | y :: rest =>
    if follows y x then
      let (more, rest) := chain follows y rest
      (y :: more, rest)
    else ([], y :: rest)

/-- Splits off the run at the front. One that strictly falls is turned round. -/
def front (before : β → β → Bool) : List β → List β × List β
  | [] => ([], [])
  | [x] => ([x], [])
  | x :: y :: rest =>
    if before y x then
      let (more, rest) := chain before x (y :: rest)
      ((x :: more).reverse, rest)
    else
      let (more, rest) := chain (fun b a => !before b a) x (y :: rest)
      (x :: more, rest)

/-- Puts an item into a run, behind those it does not come before. -/
def insert (before : β → β → Bool) (run : List β) (x : β) : List β :=
  let place := narrow .up (fun i => !run[i]?.any (before x)) 0 run.length
  run.take place ++ x :: run.drop place

/-- The runs that wait to be merged, the latest first, and the patience of the next merge. -/
structure Pending (β : Type) where
  runs : List (List β) := []
  patience : Nat := Walk.farLeap

namespace Pending

/-- Merges the two latest runs. -/
def mergeLatest (before : β → β → Bool) (p : Pending β) : Pending β :=
  match p.runs with
  | c :: b :: rest =>
    let (merged, patience) := merge before p.patience b c
    ⟨merged :: rest, patience⟩
  | _ => p

/-- Merges the two runs before the latest. -/
def mergeEarlier (before : β → β → Bool) (p : Pending β) : Pending β :=
  match p.runs with
  | c :: b :: a :: rest =>
    let (merged, patience) := merge before p.patience a b
    ⟨c :: merged :: rest, patience⟩
  | _ => p

/-- Merges the latest run but one with its shorter neighbour. -/
def mergeShorter (before : β → β → Bool) (p : Pending β) : Pending β :=
  match p.runs with
  | c :: _ :: a :: _ => if a.length < c.length then p.mergeEarlier before else p.mergeLatest before
  | _ => p.mergeLatest before

/-- Whether one of the latest runs is not longer than the two behind it together. -/
def isCrowded (p : Pending β) : Bool :=
  match p.runs with
  | d :: c :: b :: a :: _ => decide (b.length ≤ c.length + d.length) || decide (a.length ≤ b.length + c.length)
  | c :: b :: a :: _ => decide (a.length ≤ b.length + c.length)
  | _ => false

/-- Merges until every run is longer than the one behind it, and than the two behind it together. -/
def balance (before : β → β → Bool) : (rounds : Nat) → Pending β → Pending β
  | 0, p => p
  | rounds + 1, p =>
    if p.isCrowded then (p.mergeShorter before).balance before rounds
    else
      match p.runs with
      | b :: a :: _ => if a.length ≤ b.length then (p.mergeLatest before).balance before rounds else p
      | _ => p

/-- Adds a run. Each merge leaves one run less, so as many rounds as there are runs are enough. -/
def push (before : β → β → Bool) (p : Pending β) (run : List β) : Pending β :=
  ({ p with runs := run :: p.runs } : Pending β).balance before (p.runs.length + 1)

/-- Merges what is left, down to one run. -/
def collapse (before : β → β → Bool) : (rounds : Nat) → Pending β → List β
  | 0, p => p.runs.reverse.flatten
  | rounds + 1, p =>
    match p.runs with
    | _ :: _ :: _ => (p.mergeShorter before).collapse before rounds
    | _ => p.runs.reverse.flatten

end Pending

/-- How long a run is at least, for `n` items: `n` itself if they are few, else `n` halved until it
is small, and one more if a halving left a remainder, which `odd` keeps. -/
def leastLength (n odd : Nat) : Nat :=
  if n < 64 then n + odd
  else leastLength (n / 2) (if n % 2 = 1 then 1 else odd)

/-- Splits items into runs of at least a length and adds them one by one. Each run has an item, so
as many rounds as there are items are enough. -/
def gather (before : β → β → Bool) (least : Nat) : (rounds : Nat) → Pending β → List β → Pending β
  | 0, p, _ => p
  | _ + 1, p, [] => p
  | rounds + 1, p, items =>
    let (run, rest) := front before items
    let missing := least - run.length
    let run := (rest.take missing).foldl (insert before) run
    gather before least rounds (p.push before run) (rest.drop missing)

/-- Sorts so that no item comes behind one it is `before`, as far as the relation allows. -/
def sort (before : β → β → Bool) (items : List β) : List β :=
  let pending := gather before (leastLength items.length 0) items.length {} items
  pending.collapse before pending.runs.length

end Folio.Runs
