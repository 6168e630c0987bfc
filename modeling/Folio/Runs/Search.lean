/-!
Finding how far a condition holds along a list with few questions. Where the condition holds on a
front part and nowhere behind it, every search gives the length of that part. The searches are
also defined where it comes and goes: then the questions asked decide.
-/

namespace Folio.Runs

variable {β : Type}

/-- Whether a walk goes from the front to the back or the other way. -/
inductive Direction where
  | up
  | down
deriving DecidableEq, Repr

/-- The middle of the places from `lo` up to `hi` on the way. Of two middle places this is the one
nearer to the back: the later one going up, the earlier one going down. -/
def Direction.middle (d : Direction) (lo hi : Nat) : Nat :=
  match d with
  | .up => lo + (hi - lo) / 2
  | .down => hi - 1 - (hi - lo) / 2

theorem Direction.le_middle (d : Direction) {lo hi : Nat} (nonempty : lo < hi) : lo ≤ d.middle lo hi := by
  cases d <;> simp only [Direction.middle] <;> omega

theorem Direction.middle_lt (d : Direction) {lo hi : Nat} (nonempty : lo < hi) : d.middle lo hi < hi := by
  cases d <;> simp only [Direction.middle] <;> omega

/-- The place from `lo` up to `hi` where `holds` ends, by halving. -/
def narrow (d : Direction) (holds : Nat → Bool) (lo hi : Nat) : Nat :=
  if nonempty : lo < hi then
    if holds (d.middle lo hi) then narrow d holds (d.middle lo hi + 1) hi
    else narrow d holds lo (d.middle lo hi)
  else hi
termination_by hi - lo
decreasing_by
  · have := d.le_middle nonempty; omega
  · have := d.middle_lt nonempty; omega

/-- Goes on in growing strides while `holds`: the last place where it did, and the place reached,
which is not past `limit`. -/
def stride (holds : Nat → Bool) (limit last reach : Nat) : Nat × Nat :=
  if onward : reach < limit ∧ holds reach = true then stride holds limit reach (2 * reach + 1)
  else (last, if reach ≤ limit then reach else limit)
termination_by limit - reach
decreasing_by omega

/-- How many items `p` holds for from the front on: first in strides, then by halving. -/
def leading (d : Direction) (p : β → Bool) (items : List β) : Nat :=
  let holds (i : Nat) : Bool := items[i]?.any p
  if holds 0 then
    let (last, reach) := stride holds items.length 0 1
    narrow d holds (last + 1) reach
  else 0

end Folio.Runs
