import Folio.Json.Basic
import Folio.Layout.Context
import Folio.Log.Entry

/-!
What can be configured. A file may leave out any of it, and what no file says has a default.
-/

namespace Folio

/-- What is said about layout. -/
structure LayoutSettings where
  maxDepth : Option Float := none
  debug : Option Bool := none

/-- What is said about logging. -/
structure LoggingSettings where
  level : Option String := none

/-- What the files say. A section can be there and say nothing. -/
structure Settings where
  layout : Option LayoutSettings := none
  logging : Option LoggingSettings := none

/-- Settings with nothing left out. -/
structure Resolved where
  maxDepth : Float
  debug : Bool
  level : String

/-- The settings of `b`, and those of `a` where `b` has none. -/
def LayoutSettings.override (a b : LayoutSettings) : LayoutSettings :=
  ⟨b.maxDepth <|> a.maxDepth, b.debug <|> a.debug⟩

def LoggingSettings.override (a b : LoggingSettings) : LoggingSettings := ⟨b.level <|> a.level⟩

namespace Settings

/-- A section of which either side may be missing. -/
def overrideSection {σ : Type} (combine : σ → σ → σ) : Option σ → Option σ → Option σ
  | some a, some b => some (combine a b)
  | a, b => a <|> b

/-- The settings of `b` over those of `a`, key by key. -/
def override (a b : Settings) : Settings where
  layout := overrideSection LayoutSettings.override a.layout b.layout
  logging := overrideSection LoggingSettings.override a.logging b.logging

/-- Fills in the defaults. -/
def resolve (s : Settings) : Resolved where
  maxDepth := (s.layout.bind (·.maxDepth)).getD (Float.ofNat defaultDepth)
  debug := (s.layout.bind (·.debug)).getD false
  level := (s.logging.bind (·.level)).getD Log.Level.default.name

def toJson (s : Settings) : Json :=
  Json.ofPresent
    [("layout", s.layout.map fun l => Json.ofPresent [("maxDepth", l.maxDepth.map .num), ("debug", l.debug.map .bool)]),
     ("logging", s.logging.map fun l => Json.ofPresent [("level", l.level.map .str)])]

end Settings

def Resolved.toJson (r : Resolved) : Json :=
  .obj
    [("layout", .obj [("maxDepth", .num r.maxDepth), ("debug", .bool r.debug)]),
     ("logging", .obj [("level", .str r.level)])]

end Folio
