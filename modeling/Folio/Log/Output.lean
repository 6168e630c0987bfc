import Folio.Json.Printer
import Folio.Log.Registry

/-!
What an entry looks like where it is written: a coloured text on the console, an object in a file.
-/

namespace Folio.Log

/-- An entry on its way out: the level it calls itself by, its message and its members. -/
structure Record where
  level : String
  message : String
  service : Json
  /-- Everything but level, message, time and service. -/
  members : List (String × Json)
  /-- Whether the entry reports an exception. -/
  isException : Bool := false

/-- The members that have a place of their own in an entry. -/
def ownMembers : List String := ["level", "message", "timestamp", "service"]

/-- Whether a message has places for arguments. Such a message takes its fields as arguments and
does not show them as members. -/
def hasPlaceholder : List Char → Bool
  | '%' :: c :: rest => "scdjifoO%".toList.contains c || hasPlaceholder (c :: rest)
  | _ :: rest => hasPlaceholder rest
  | [] => false

/-- The record of an entry. Fields may replace the service, and a field called message is put
after the message. -/
def record (owner : Owner) (level message : String) (fields : List (String × Json)) : Record :=
  if hasPlaceholder message.toList then ⟨level, message, .str owner.name, [], false⟩
  else
    let text :=
      match Json.find? "message" fields with
      | some v => if v.truthy then message ++ " " ++ v.bare else message
      | none => message
    ⟨level, text, (Json.find? "service" fields).getD (.str owner.name),
      (Json.copiedMembers fields).filter fun m => !ownMembers.contains m.1,
      Json.findCopied? "exception" fields == some (.bool true)⟩

/-- Whether the message of an entry can be put together with its fields. -/
def isTellable (message : String) (fields : List (String × Json)) : Bool :=
  hasPlaceholder message.toList ||
    match Json.find? "message" fields with
    | some v => v.hasText
    | none => true

/-- Where the time of an entry stands. -/
def timeMark : String := "<time>"

/-- At a level, the entries of that level and of graver ones are written. At an empty level all
are, and where one of the levels is unknown, none. -/
def isWritten (limit level : String) : Bool :=
  limit == "" ||
    match Level.ofName? limit, Level.ofName? level with
    | some own, some level => decide (level.rank ≤ own.rank)
    | _, _ => false

namespace Record

/-- The entry on the console. It needs a colour, and a text for the service. -/
def console? (r : Record) : Option String := do
  let paint := Paint.tintLines (← colourOf? r.level)
  let service ← if r.service.truthy then r.service.bare?.map fun name => " [" ++ name ++ "]" else some ""
  let members := if r.members.isEmpty then "" else "\n" ++ (Json.obj r.members).pretty 0
  some (timeMark ++ " [" ++ paint r.level ++ "]" ++ service ++ " " ++ paint r.message ++ members ++ "\n")

/-- The entry in a file. -/
def toJson (r : Record) : Json :=
  .obj (("service", r.service) :: r.members ++
    [("level", .str r.level), ("message", .str r.message), ("timestamp", .str timeMark)])

end Record

/-- What a logger wrote: text on the console, and records by the file they went to. -/
structure Written where
  console : String := ""
  files : List (String × Record) := []
  /-- Whether an output failed. Those after it got nothing. -/
  failed : Bool := false

/-- Writes one entry to every output that takes it. Entries that report an exception are left to
outputs made for them, and there are none. -/
def Logger.write (l : Logger) (level message : String) (fields : List (String × Json)) : Written :=
  let r := record l.owner level message fields
  l.transports.foldl (fun w t =>
    if isWritten (l.levelOf t) level && !r.isException && !w.failed then
      match t.target with
      | .console =>
        match r.console? with
        | some text => { w with console := w.console ++ text }
        | none => { w with failed := true }
      | .file name => { w with files := w.files ++ [(name, r)] }
    else w) {}

end Folio.Log
