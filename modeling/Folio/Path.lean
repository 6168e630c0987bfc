/-!
File paths as text. Joining puts slashes between the parts and removes detours: empty parts, parts
that stay where they are, and parts that go up again.
-/

namespace Folio.Path

/-- The parts between slashes, last first, after `part` has been followed. Above the root there is
nothing to go up to; a relative path keeps the steps that lead out of it. -/
def follow (absolute : Bool) (kept : List String) (part : String) : List String :=
  if part == "" || part == "." then kept
  else if part == ".." then
    match kept with
    | [] => if absolute then [] else [".."]
    | last :: before => if last == ".." then ".." :: kept else before
  else part :: kept

/-- The path without detours. A slash at the end stays. -/
def normalize (path : String) : String :=
  if path == "" then "."
  else
    let absolute := path.toList.head? == some '/'
    let trailing := path.toList.getLast? == some '/'
    let parts := ((path.splitOn "/").foldl (follow absolute) []).reverse
    let body := "/".intercalate parts
    if body == "" then if absolute then "/" else if trailing then "./" else "."
    else (if absolute then "/" else "") ++ body ++ (if trailing then "/" else "")

/-- Joins the parts that are not empty. -/
def join (parts : List String) : String := normalize ("/".intercalate (parts.filter (· != "")))

/-- The last part of a path. -/
def lastPart (path : String) : String := ((path.splitOn "/").filter (· != "")).getLast?.getD ""

end Folio.Path
