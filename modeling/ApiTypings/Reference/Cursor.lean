import ApiTypings.Reference.Reader
import ApiTypings.Text.Slice

/-!
# Reading references by a cursor

The reader of references one operation after the other. A cursor moves through the text, at a
position that counts bytes, and each operation cuts what it looks at out of the text: a slice that
does not exist is a crash. Names, arguments and suffixes are read in loops, and an argument is a
reference that begins while another one is still being read. Nothing here keeps the cursor on the
boundaries of characters or brings the loops to an end.
-/

namespace ApiTypings.Reference.Cursor

open Text

/-- A generic whose arguments are being read. -/
structure Pending where
  /-- The segments of its name. -/
  segments : List (List Char)
  /-- The arguments read so far. -/
  args : List Reference
  deriving Repr

/-- What a reader does next. -/
inductive Control where
  /-- A reference begins; blanks before it are skipped. -/
  | reference
  /-- Is there the `!` of a generic parameter? -/
  | mark
  /-- Reads the position of a generic parameter. -/
  | position
  /-- Reads a segment after those before it. -/
  | segment (before : List (List Char))
  /-- Is there a dot for another segment? -/
  | dot (segments : List (List Char))
  /-- Skips the blanks after a name. -/
  | afterName (segments : List (List Char))
  /-- Is there the `<` of arguments? -/
  | opening (segments : List (List Char))
  /-- An argument begins. -/
  | argument (generic : Pending)
  /-- Skips the blanks after an argument. -/
  | afterArgument (generic : Pending)
  /-- Is there a comma for another argument? -/
  | comma (generic : Pending)
  /-- Is there the `>` of arguments? -/
  | closing (generic : Pending)
  /-- A suffix may begin; blanks before it are skipped. -/
  | suffix (r : Reference)
  /-- Are there the brackets of an array? -/
  | brackets (r : Reference)
  /-- Is there a question mark? -/
  | question (r : Reference)
  /-- A reference has been read. -/
  | read (r : Reference)
  /-- Skips the blanks after the whole reference. -/
  | trailing (r : Reference)
  /-- Is this the end of the text? -/
  | finish (r : Reference)
  /-- The text was read. -/
  | done (r : Reference)
  /-- Reading gave up. -/
  | failed (reason : ReferenceFault.Reason)
  /-- A slice did not exist. -/
  | crashed
  deriving Repr

/-- The position of the cursor, what to do next, and the generics whose arguments are being read,
innermost first. -/
structure State where
  pos : Nat
  control : Control
  pending : List Pending
  deriving Repr

namespace State

/-- Before the first operation. -/
def start : State := ⟨0, .reference, []⟩

/-- Moves over the characters that pass `p` and goes on with them. -/
def scan (text : String) (p : Char → Bool) (next : List Char → Control) (s : State) : State :=
  let passed := do
    let rest ← sliceFrom? text s.pos
    let stop := s.pos + byteLength (rest.takeWhile p)
    let run ← slice? text s.pos stop
    return (run, stop)
  match passed with
  | some (run, stop) => { s with pos := stop, control := next run }
  | none => { s with control := .crashed }

/-- Moves over `token` if it stands at the cursor. -/
def eat (text token : String) (yes no : Control) (s : State) : State :=
  match sliceFrom? text s.pos with
  | some rest =>
    if startsWith token.toList rest then
      { s with pos := s.pos + token.utf8ByteSize, control := yes }
    else { s with control := no }
  | none => { s with control := .crashed }

/-- Hands a reference that was read to the generic whose argument it is. -/
def hand (r : Reference) (s : State) : State :=
  match s.pending with
  | [] => { s with control := .trailing r }
  | generic :: outer =>
    { s with
      control := .afterArgument { generic with args := generic.args ++ [r] }
      pending := outer }

end State

/-- The next operation, until the text was read, reading gave up or a slice did not exist. -/
def step (text : String) (s : State) : Option State :=
  match s.control with
  | .reference => some (s.scan text isBlank fun _ => .mark)
  | .mark => some (s.eat text "!" .position (.segment []))
  | .position => some (s.scan text Char.isDigit fun digits =>
      if digits ≠ [] ∧ decimal digits < positionBound then .suffix (.param (decimal digits))
      else .failed .parameterPosition)
  | .segment before => some (s.scan text isNameChar fun segment =>
      if isSegment segment then .dot (before ++ [segment]) else .failed .typeName)
  | .dot segments => some (s.eat text "." (.segment segments) (.afterName segments))
  | .afterName segments => some (s.scan text isBlank fun _ => .opening segments)
  | .opening segments =>
    some (s.eat text "<" (.argument ⟨segments, []⟩) (.suffix (ofSegments segments [])))
  | .argument generic => some { s with control := .reference, pending := generic :: s.pending }
  | .afterArgument generic => some (s.scan text isBlank fun _ => .comma generic)
  | .comma generic => some (s.eat text "," (.argument generic) (.closing generic))
  | .closing generic =>
    some (s.eat text ">" (.suffix (ofSegments generic.segments generic.args))
      (.failed .argumentList))
  | .suffix r => some (s.scan text isBlank fun _ => .brackets r)
  | .brackets r => some (s.eat text "[]" (.suffix (.array r)) (.question r))
  | .question r => some (s.eat text "?" (.suffix (.nullable r)) (.read r))
  | .read r => some (s.hand r)
  | .trailing r => some (s.scan text isBlank fun _ => .finish r)
  | .finish r =>
    some { s with control :=
      if s.pos = text.utf8ByteSize then .done r else .failed .trailingInput }
  | .done _ | .failed _ | .crashed => none

-- No slice begins inside of a character.
example : step "é" ⟨1, .mark, []⟩ = some ⟨1, .crashed, []⟩ := rfl

/-- What has become of the text once reading has stopped. -/
def State.outcome? (text : String) (s : State) : Option (Except ReferenceFault Reference) :=
  match s.control with
  | .done r => some (.ok r)
  | .failed reason => some (.error ⟨text, reason, s.pos⟩)
  | _ => none

/-- Where a reference begins, and where the loops over segments, arguments and suffixes begin an
iteration. -/
inductive Site where
  | reference
  | segment
  | argument
  | suffix
  deriving DecidableEq, Repr

/-- The site that a reader has come to, if it has come to one. -/
def Control.site? : Control → Option Site
  | .reference => some .reference
  | .segment _ => some .segment
  | .argument _ => some .argument
  | .suffix _ => some .suffix
  | _ => none

end ApiTypings.Reference.Cursor
