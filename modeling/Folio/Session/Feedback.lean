import Folio.Excerpt
import Folio.Json.Printer
import Folio.Session.Registers

/-!
A session on feedback. Registers and passes refer to bundles, so a bundle that is extended shows
its new reports wherever it is referred to; merging makes a bundle of its own.
-/

namespace Folio

/-- A function on values that a session can apply. -/
inductive Mapping where
  | length
  | upper
  | wrap
  | double
  | fail

namespace Mapping

def ofName? : String → Option Mapping
  | "length" => some length
  | "upper" => some upper
  | "wrap" => some wrap
  | "double" => some double
  | "fail" => some fail
  | _ => none

/-- Why there is no result: the function is one that fails, or the value is of a kind that it cannot
be asked of. -/
inductive Fault where
  | failed (message : String)
  | unsuited


/-- The result. Only the letters of ASCII have capitals here. A value may be missing, and so may a result: what has no length has none. -/
def apply (f : Mapping) (v : Option Json) : Except Fault (Option Json) :=
  match f, v with
  | .length, some (.str s) => .ok (some (.nat (Text.units s)))
  | .length, some (.arr items) => .ok (some (.nat items.length))
  | .length, some (.obj members) => .ok (Json.find? "length" members)
  | .length, none | .length, some .null => .error .unsuited
  | .length, some _ => .ok none
  | .upper, some (.str s) => .ok (some (.str s.toUpper))
  | .upper, _ => .error .unsuited
  | .wrap, v => .ok (some (Json.ofPresent [("wrapped", v)]))
  | .double, none => .ok (some (.num Numeral.notANumber))
  | .double, some v =>
    match v.number? with
    | some x => .ok (some (.num (x * 2)))
    | none => .error .unsuited
  | .fail, _ => .error (.failed "map failed")

end Mapping

namespace FeedbackSession

variable {α : Type} [Coordinate α]

/-- The number of a bundle. -/
abbrev BundleId := Nat

inductive Value where
  | bundle (id : BundleId)
  | pass (output : Option Json) (id : BundleId)

structure State (α : Type) where
  bundles : List (Feedback α) := []
  registers : Registers Value := []

inductive Step (α : Type) where
  | create (target : String)
  | report (name : String) (d : Spanned α Diagnostic)
  | decorate (name : String) (d : Spanned α Decoration)
  | merge (target a b : String)
  | extend (name more : String)
  | extendOffset (name more : String) (start : Position α)
  | hasErrors (name : String)
  | sorted (name : String)
  | format (name : String) (display : Display)
  | pass (target : String) (output : Option Json) (feedback : Option String)
  | mapPass (target pass : String) (f : Mapping)
  | feedbackOf (target pass : String)
  | look (name : String)

inductive Answer (α : Type) where
  | bundle (f : Feedback α)
  | pass (p : Pass α (Option Json))
  | flag (b : Bool)
  | decorations (items : List (Spanned α Decoration))
  | text (s : String)
  | faulted (fault : Mapping.Fault)
  | unprintable (why : Unprintable)

namespace State

def bundleId? (s : State α) (name : String) : Option BundleId :=
  match s.registers.get? name with
  | some (.bundle id) => some id
  | _ => none

def bundle? (s : State α) (name : String) : Option (BundleId × Feedback α) := do
  let id ← s.bundleId? name
  some (id, ← s.bundles[id]?)

def pass? (s : State α) (name : String) : Option (Option Json × BundleId) :=
  match s.registers.get? name with
  | some (.pass output id) => some (output, id)
  | _ => none

/-- A new bundle, with its number. -/
def add (s : State α) (f : Feedback α) : State α × BundleId :=
  ({ s with bundles := s.bundles ++ [f] }, s.bundles.length)

def assign (s : State α) (name : String) (v : Value) : State α := { s with registers := s.registers.set name v }

/-- What a register holds, with the present contents of its bundle. -/
def view? (s : State α) : Value → Option (Answer α)
  | .bundle id => s.bundles[id]?.map .bundle
  | .pass output id => s.bundles[id]?.map fun f => .pass ⟨output, f⟩

/-- Names a value and answers it. -/
def store (s : State α) (name : String) (v : Value) : Option (State α × Answer α) := do
  some (s.assign name v, ← s.view? v)

/-- Changes a bundle for everything that refers to it. -/
def update (s : State α) (name : String) (change : Feedback α → Feedback α) : Option (State α × Answer α) := do
  let (id, f) ← s.bundle? name
  some ({ s with bundles := s.bundles.set id (change f) }, .bundle (change f))

end State

/-- One step. There is no answer if a register it names does not hold what it needs. -/
def perform (s : State α) : Step α → Option (State α × Answer α)
  | .create target =>
    let (s, id) := s.add .empty
    s.store target (.bundle id)
  | .report name d => s.update name (·.report d)
  | .decorate name d => s.update name (·.decorate d)
  | .merge target a b => do
    let (_, f) ← s.bundle? a
    let (_, g) ← s.bundle? b
    let (s, id) := s.add (f.merge g)
    s.store target (.bundle id)
  | .extend name more => do
    let (_, g) ← s.bundle? more
    s.update name (·.merge g)
  | .extendOffset name more start => do
    let (_, g) ← s.bundle? more
    s.update name (·.extendOffset g start)
  | .hasErrors name => do
    let (_, f) ← s.bundle? name
    some (s, .flag f.hasErrors)
  | .sorted name => do
    let (_, f) ← s.bundle? name
    some (s, .decorations (Decoration.sortByStart f.decorations))
  | .format name display => do
    let (_, f) ← s.bundle? name
    match f.format display with
    | .ok text => some (s, .text text)
    | .error why => some (s, .unprintable why)
  | .pass target output feedback =>
    match feedback with
    | some name => do s.store target (.pass output (← s.bundleId? name))
    | none =>
      let (s, id) := s.add .empty
      s.store target (.pass output id)
  | .mapPass target pass f => do
    let (output, id) ← s.pass? pass
    match f.apply output with
    | .ok mapped => s.store target (.pass mapped id)
    | .error fault => some (s, .faulted fault)
  | .feedbackOf target pass => do
    let (_, id) ← s.pass? pass
    s.store target (.bundle id)
  | .look name => do
    let v ← s.registers.get? name
    some (s, ← s.view? v)

end FeedbackSession

end Folio
