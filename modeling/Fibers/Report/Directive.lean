import Fibers.Report.Event
import Fibers.Text.Blank
import Fibers.Text.Cut
import Fibers.Text.Numeral
import Fibers.Text.Pattern

/-!
# Directives

A directive gives a level to some events: to those of one source or of all sources, to those inside
a span, or to those with a field. It is written `source[span{field=value}]=level`, and every part
but one may be left out. Since no event of the library lies in a span, a directive that names a span
or tests the value of a field concerns no event; but it still has a level.
-/

namespace Fibers

namespace Event

/-- The part of the library that reports an event. -/
def source : Event → String
  | .defectCaught .. => "strand_runtime::panic"
  | .poolStarted .. | .taskDropped .. | .taskPanicked .. => "strand_runtime::executor"
  | .immediateFallback .. | .waitAbandoned .. => "strand_runtime::runtime"
  | _ => "strand_runtime::fiber_context"

/-- Whether an event has a field; its message counts as one. -/
def hasField (event : Event) (name : String) : Bool :=
  name == "message" || event.fields.any fun field => field.1 == name

end Event

/-- A test of the fields of an event: one is there, or one has a certain value. -/
structure FieldTest where
  name : String
  testsValue : Bool
  deriving DecidableEq, Repr

/-- A level for the events that a description fits. -/
structure Directive where
  /-- What the source of an event begins with; nothing if every source is meant. -/
  source : String := ""
  span : Option String := none
  field : Option FieldTest := none
  level : LogLevel
  deriving DecidableEq, Repr

namespace Directive

/-- Whether a directive tests the value of a field. -/
def testsValue (directive : Directive) : Bool := directive.field.any FieldTest.testsValue

/-- Whether a directive concerns an event. -/
def concerns (directive : Directive) (event : Event) : Bool :=
  directive.span.isNone && !directive.testsValue &&
    directive.source.toList.isPrefixOf event.source.toList &&
    directive.field.all fun test => event.hasField test.name

/-- Whether a directive says at least as much as another that concerns the same event: its source
is longer, or it names a field, or the field that it names comes later. -/
def isAtLeast (directive other : Directive) : Bool :=
  if directive.source.length = other.source.length then
    match directive.field, other.field with
    | some test, some otherTest => otherTest.name ≤ test.name
    | none, some _ => false
    | _, none => true
  else other.source.length < directive.source.length

/-! ## Words -/

/-- The level with a number. -/
def levelOfRank? : Nat → Option LogLevel
  | 0 => some .off
  | 1 => some .error
  | 2 => some .warn
  | 3 => some .info
  | 4 => some .debug
  | 5 => some .trace
  | _ => none

/-- The level that a word stands for: its number or its name, in any case. -/
def level? (word : String) : Option LogLevel :=
  match Text.unsigned? word.toList with
  | some number => levelOfRank? number
  | none =>
    match word.toLower with
    | "off" => some .off
    | "error" => some .error
    | "warn" => some .warn
    | "info" => some .info
    | "debug" => some .debug
    | "trace" => some .trace
    | _ => none

/-- Whether a list of characters is a decimal number without a sign: digits with a point at most,
and an exponent at most. -/
def isDecimal (chars : List Char) : Bool :=
  let afterWhole := chars.dropWhile Char.isDigit
  let fraction := match afterWhole with
    | '.' :: rest => rest.takeWhile Char.isDigit
    | _ => []
  let whole := chars.takeWhile Char.isDigit
  let afterFraction := match afterWhole with
    | '.' :: rest => rest.dropWhile Char.isDigit
    | rest => rest
  let isExponent (digits : List Char) := !digits.isEmpty && digits.all Char.isDigit
  !(whole.isEmpty && fraction.isEmpty) &&
    match afterFraction with
    | [] => true
    | e :: '+' :: digits | e :: '-' :: digits => e.toLower == 'e' && isExponent digits
    | e :: digits => e.toLower == 'e' && isExponent digits

/-- Whether a text can be the value of a field: a pattern, or a number. The numbers that are no
patterns begin with a plus sign. -/
def isValue (text : String) : Bool :=
  Text.isPattern text ||
    match text.toList with
    | '+' :: rest =>
      isDecimal rest || ["inf", "infinity", "nan"].contains (String.ofList rest).toLower
    | _ => false

/-- Read a test of a field: a name, or a name and a value. What stands behind a second sign of
equality does not count. -/
def fieldTest? (text : String) : Option FieldTest :=
  match text.splitOn "=" with
  | [name] => some ⟨name, false⟩
  | name :: value :: _ => if isValue value then some ⟨name, true⟩ else none
  | [] => none

/-- Whether the source of a directive may begin with a character. -/
def beginsSource (c : Char) : Bool :=
  c == '-' || c == ':' || c == '_' || Text.isAlphanumeric c

/-! ## Reading -/

/-- Why a text is not read as a directive. -/
inductive Fault where
  /-- It has not the form of a directive. -/
  | malformed
  /-- A part of it begins or ends inside a character. -/
  | inner (offset : Text.InnerOffset)
  deriving DecidableEq, Repr

/-- A value that has to be there. -/
def required {α : Type} : Option α → Except Fault α
  | some value => .ok value
  | none => .error .malformed

/-- The part of a text between two byte offsets. -/
def part (text : String) (start stop : Nat) : Except Fault String :=
  (Text.cut text start stop).mapError .inner

/-- Read the level that begins at an offset and ends with the text. If there is nothing, every
event is kept. -/
def readLevel (text : String) (offset : Nat) : Except Fault LogLevel := do
  let word ← part text offset text.utf8ByteSize
  if word = "" then return .trace else required (level? word)

/-- Read the level behind the span, which ends at an offset. -/
def readSpanLevel (text : String) (offset : Nat) : List Char → Except Fault LogLevel
  | [] => .ok .trace
  | '=' :: _ => readLevel text (offset + 1)
  | _ => .error .malformed

/-- Read the test of a field, which begins at an offset, and what follows it. -/
def readField (text : String) (directive : Directive) (offset : Nat) (chars : List Char) :
    Except Fault Directive :=
  let stop := offset + Text.byteSize (chars.takeWhile (· ≠ '\x7d'))
  match chars.dropWhile (· ≠ '\x7d') with
  | [] => .error .malformed
  | _ :: rest => do
    let field ← part text offset stop
    let test ← required (if field = "" then none else fieldTest? field)
    match rest with
    | ']' :: rest =>
      let level ← readSpanLevel text (stop + 2) rest
      return { directive with field := some test, level := level }
    | _ => throw .malformed

/-- Read the span, which begins at an offset, and what follows it. -/
def readSpan (text : String) (directive : Directive) (offset : Nat) (chars : List Char) :
    Except Fault Directive :=
  let ends (c : Char) : Bool := c == ']' || c == '\x7b'
  let stop := offset + Text.byteSize (chars.takeWhile (!ends ·))
  match chars.dropWhile (!ends ·) with
  | [] => .error .malformed
  | c :: rest => do
    let span ← part text offset stop
    if c = ']' then
      let level ← readSpanLevel text (stop + 1) rest
      return { directive with span := some span, level := level }
    else
      let directive := { directive with span := if span = "" then none else some span }
      readField text directive (stop + 1) rest

/-- Read the source, the characters before a span or a level, and what follows it. A word on its own
is a level if it can be, and a source with all its events otherwise. -/
def readSource (text : String) (chars : List Char) : Except Fault Directive :=
  let ends (c : Char) : Bool := c == '=' || c == '['
  let stop := Text.byteSize (chars.takeWhile (!ends ·))
  match chars.dropWhile (!ends ·) with
  | [] =>
    match level? text with
    | some level => .ok { level := level }
    | none => .ok { source := text, level := .trace }
  | c :: rest => do
    let source ← part text 0 stop
    if c = '=' then
      let level ← readLevel text (stop + 1)
      return { source := source, level := level }
    else readSpan text { source := source, level := .trace } (stop + 1) rest

/-- Read a directive. Its parts are looked for behind the blanks in front of it, but cut out of the
whole text at the offsets that they have without those blanks. Of two faults the first counts. -/
def parse (text : String) : Except Fault Directive :=
  match Text.trim text.toList with
  | [] => .error .malformed
  | '[' :: rest => readSpan text { level := .trace } 1 rest
  | c :: rest => if beginsSource c then readSource text (c :: rest) else .error .malformed

end Directive

end Fibers
