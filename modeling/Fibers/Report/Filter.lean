import Fibers.Report.Directive

/-!
# Filters of events

A filter is a list of directives. Of the directives that concern an event, the one that says most
decides whether it is kept, and the later of two that say the same. Filters are written as
directives separated by commas.
-/

namespace Fibers

/-- Which events a logger writes. -/
structure Filter where
  directives : List Directive
  deriving DecidableEq, Repr

namespace Filter

/-- Keep every event that a level admits. -/
def ofLevel (level : LogLevel) : Filter := ⟨[{ level := level }]⟩

/-- The higher of two levels. -/
def higher (a b : LogLevel) : LogLevel := if a.rank < b.rank then b else a

/-- The highest level that any directive gives. The values of fields are not known in advance, so a
test of one keeps every level. -/
def maxLevel (filter : Filter) : LogLevel :=
  if filter.directives.any Directive.testsValue then .trace
  else filter.directives.foldl (fun level directive => higher level directive.level) .off

/-- The later of two directives, unless the earlier says more. -/
def prefer (best : Option Directive) (directive : Directive) : Option Directive :=
  match best with
  | some other => if directive.isAtLeast other then some directive else some other
  | none => some directive

/-- The directive that decides about an event. -/
def directiveFor? (filter : Filter) (event : Event) : Option Directive :=
  (filter.directives.filter (·.concerns event)).foldl prefer none

/-- Whether an event is written. -/
def admits (filter : Filter) (event : Event) : Bool :=
  match filter.directiveFor? event with
  | some directive => directive.level.admits event.severity
  | none => false

/-- Read directives separated by commas, up to the first that cannot be read. -/
def parse (text : String) : Except Directive.Fault Filter :=
  (((text.splitOn ",").filter (· ≠ "")).mapM Directive.parse).map Filter.mk

end Filter

end Fibers
