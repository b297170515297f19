import MarketReplay.Text.Digits
import MarketReplay.Yaml.Glyph

/-!
# Scalars

The texts of plain, quoted and block scalars. Between two words of a plain or quoted scalar lies a
gap: blanks within a line stay as they are, a single line end becomes a space, and of several line
ends all but the first stay.
-/

namespace MarketReplay.Yaml

/-- What lies between two words of a scalar, the last character first: blanks within a line, or
line ends of which the first is kept apart; an escaped line end is none. -/
inductive Gap where
  | blanks (chars : List Char)
  | breaks (first : Option Char) (more : List Char)

namespace Gap

/-- Nothing. -/
def empty : Gap := blanks []

/-- Whether there is a gap at all. -/
def isEmpty : Gap → Bool
  | blanks [] => true
  | _ => false

/-- Whether the gap reaches over a line end. -/
def hasBreak : Gap → Bool
  | blanks _ => false
  | breaks _ _ => true

/-- The gap with one more blank or line end. -/
def push (gap : Gap) (g : Glyph) : Gap :=
  if g.isBreak then
    match gap with
    | blanks _ => breaks (some g.char) []
    | breaks first more => breaks first (g.char :: more)
  else
    match gap with
    | blanks chars => blanks (g.char :: chars)
    | breaks first more => breaks first more

/-- What the gap leaves in the text, the last character first. -/
def folded : Gap → List Char
  | blanks chars => chars
  | breaks (some '\n') [] => [' ']
  | breaks (some '\n') more => more
  | breaks (some c) more => more ++ [c]
  | breaks none more => more

end Gap

/-- A character that ends a plain scalar in brackets. -/
def isFlowIndicator (c : Char) : Bool :=
  c == ',' || c == '[' || c == ']' || c == '\x7b' || c == '\x7d'

/-- A plain scalar as read: its text, whether a line end follows it, and the glyphs after it. -/
structure PlainScalar where
  text : String
  beforeBreak : Bool
  rest : List Glyph

/-- A plain scalar that ends before a gap; `acc` holds its text, the last character first. -/
def PlainScalar.ended (acc : List Char) (gap : Gap) (rest : List Glyph) : PlainScalar :=
  ⟨String.ofList acc.reverse, gap.hasBreak, rest⟩

/-- Whether a line of less indentation, a marker or a comment begins at a glyph. -/
def breaksOff (inFlow : Bool) (indent : Nat) (gap : Gap) (g : Glyph) (rest : List Glyph) : Bool :=
  (gap.hasBreak && !inFlow && g.column < indent) || atDocumentMarker (g :: rest) ||
    (g.char == '#' && !gap.isEmpty)

/-- Whether a glyph ends a plain scalar: a colon before a gap, or an indicator in brackets. -/
def endsPlain (inFlow : Bool) (g : Glyph) (rest : List Glyph) : Bool :=
  (g.char == ':' && atGap rest) || (inFlow && isFlowIndicator g.char)

/-- The rest of a plain scalar; `acc` holds the text so far, its last character first. Lines that
go on must be indented by at least `indent`, except in brackets (`inFlow`). -/
def readPlain (inFlow : Bool) (indent : Nat) (acc : List Char) (gap : Gap) :
    List Glyph → Option PlainScalar
  | [] => some (.ended acc gap [])
  | g :: rest =>
    if g.isBreak then readPlain inFlow indent acc (gap.push g) rest
    else if g.isBlank then
      if gap.hasBreak && g.column < indent && g.char == '\t' then none
      else readPlain inFlow indent acc (gap.push g) rest
    else if breaksOff inFlow indent gap g rest then some (.ended acc gap (g :: rest))
    else if g.char == ':' && inFlow &&
        ((headChar? rest).any fun c => c == '?' || isFlowIndicator c) then none
    else if endsPlain inFlow g rest then some (.ended acc gap (g :: rest))
    else readPlain inFlow indent (g.char :: (gap.folded ++ acc)) .empty rest

/-- The character of an escape with a letter alone. -/
def escapedChar? : Char → Option Char
  | '0' => some '\x00'
  | 'a' => some '\x07'
  | 'b' => some '\x08'
  | 't' => some '\t'
  | '\t' => some '\t'
  | 'n' => some '\n'
  | 'v' => some '\x0b'
  | 'f' => some '\x0c'
  | 'r' => some '\r'
  | 'e' => some '\x1b'
  | ' ' => some ' '
  | '"' => some '"'
  | '/' => some '/'
  | '\\' => some '\\'
  | 'N' => some '\u0085'
  | '_' => some '\u00a0'
  | 'L' => some '\u2028'
  | 'P' => some '\u2029'
  | _ => none

/-- The number of digits of an escape by code. -/
def codeDigits? : Char → Option Nat
  | 'x' => some 2
  | 'u' => some 4
  | 'U' => some 8
  | _ => none

/-- The character of the code that `n` digits give. -/
def codedChar? (n : Nat) (gs : List Glyph) : Option Char :=
  if gs.length < n then none
  else
    match Text.baseNumber? 16 ((gs.take n).map Glyph.char) with
    | some code => if code.isValidChar then some (Char.ofNat code) else none
    | none => none

/-- The text of a quoted scalar up to its closing quote, and the glyphs after that; `acc` holds the
text so far, its last character first. -/
def readQuoted (single : Bool) (acc : List Char) (gap : Gap) (gs : List Glyph) :
    Option (String × List Glyph) :=
  match gs with
  | [] => none
  | g :: rest =>
    if g.isBlank || g.isBreak then readQuoted single acc (gap.push g) rest
    else if atDocumentMarker (g :: rest) then none
    else if single then
      if g.char == '\'' then
        match rest with
        | [] => some (String.ofList (gap.folded ++ acc).reverse, rest)
        | h :: rest' =>
          if h.char == '\'' then readQuoted single ('\'' :: (gap.folded ++ acc)) .empty rest'
          else some (String.ofList (gap.folded ++ acc).reverse, rest)
      else readQuoted single (g.char :: (gap.folded ++ acc)) .empty rest
    else if g.char == '"' then some (String.ofList (gap.folded ++ acc).reverse, rest)
    else if g.char == '\\' then
      match rest with
      | [] => none
      | h :: rest' =>
        if h.isBreak then readQuoted single (gap.folded ++ acc) (.breaks none []) rest'
        else
          match codeDigits? h.char with
          | some n =>
            match codedChar? n rest' with
            | some c => readQuoted single (c :: (gap.folded ++ acc)) .empty (rest'.drop n)
            | none => none
          | none =>
            match escapedChar? h.char with
            | some c => readQuoted single (c :: (gap.folded ++ acc)) .empty rest'
            | none => none
    else readQuoted single (g.char :: (gap.folded ++ acc)) .empty rest
termination_by gs.length
decreasing_by all_goals simp <;> omega

/-- What becomes of the line ends after a block scalar. -/
inductive Chomping where
  | strip
  | clip
  | keep
  deriving DecidableEq

/-- The chomping that a character asks for. -/
def chomping? : Char → Option Chomping
  | '+' => some .keep
  | '-' => some .strip
  | _ => none

/-- An indentation from 1 to 9, as the first character. -/
def indentDigit (gs : List Glyph) : Option (Nat × List Glyph) :=
  match gs with
  | g :: rest => if g.char.isDigit then some (g.char.toNat - '0'.toNat, rest) else none
  | [] => none

/-- The chomping as the first character. -/
def chompingMark (gs : List Glyph) : Option (Chomping × List Glyph) :=
  match gs with
  | g :: rest => (chomping? g.char).map fun chomping => (chomping, rest)
  | [] => none

/-- The header of a block scalar: chomping and indentation in either order, each perhaps absent;
the glyphs of the next line follow. -/
def readBlockHeader (gs : List Glyph) : Option (Chomping × Option Nat × List Glyph) :=
  let (chomping, indent, rest) :=
    match chompingMark gs with
    | some (chomping, rest) =>
      match indentDigit rest with
      | some (n, rest) => (chomping, some n, rest)
      | none => (chomping, none, rest)
    | none =>
      match indentDigit gs with
      | some (n, rest) =>
        match chompingMark rest with
        | some (chomping, rest) => (chomping, some n, rest)
        | none => (.clip, some n, rest)
      | none => (.clip, none, gs)
  if indent = some 0 then none
  else (skipRestOfLine? rest).map fun rest => (chomping, indent, rest)

/-- A block scalar in the making: the text so far, the line end that awaits its line, and the empty
lines after it, each with the last character first. `indent` is known from the header or from the
first line that is not empty; `widest` is the widest column seen before that. -/
structure BlockState where
  indent : Option Nat
  widest : Nat
  text : List Char
  pending : Option Char
  empties : List Char
  blankStart : Bool
  inLine : Bool

namespace BlockState

/-- What comes before the next line. A folded line end between two lines of which neither starts
with a blank is a space, or nothing if empty lines follow. -/
def joint (s : BlockState) (foldLines blank : Bool) : List Char :=
  match s.pending with
  | some '\n' =>
    if foldLines && !s.blankStart && !blank then
      if s.empties.isEmpty then [' '] else s.empties
    else s.empties ++ ['\n']
  | some c => s.empties ++ [c]
  | none => s.empties

/-- The state after the first character of a line. -/
def startLine (s : BlockState) (foldLines : Bool) (indent : Nat) (g : Glyph) : BlockState :=
  { s with
    indent := some indent
    text := g.char :: (s.joint foldLines g.isBlank ++ s.text)
    pending := none
    empties := []
    blankStart := g.isBlank
    inLine := true }

/-- The text when no further line follows. -/
def finish (s : BlockState) (chomping : Chomping) : String :=
  let ends := match chomping with
    | .strip => []
    | .clip => s.pending.toList
    | .keep => s.empties ++ s.pending.toList
  String.ofList (ends ++ s.text).reverse

end BlockState

/-- The rest of a block scalar whose surroundings are indented by less than `least`. -/
def readBlock (foldLines : Bool) (chomping : Chomping) (least : Nat) (s : BlockState) :
    List Glyph → Option (String × List Glyph)
  | [] => some (s.finish chomping, [])
  | g :: rest =>
    if s.inLine then
      if g.isBreak then
        readBlock foldLines chomping least { s with pending := some g.char, inLine := false } rest
      else readBlock foldLines chomping least { s with text := g.char :: s.text } rest
    else
      let before := s.indent.all fun n => g.column < n
      if before && g.char == ' ' then readBlock foldLines chomping least s rest
      else
        let widest := max s.widest g.column
        if before && g.char == '\t' then none
        else if g.isBreak then
          readBlock foldLines chomping least
            { s with widest := widest, empties := g.char :: s.empties } rest
        else
          let indent := s.indent.getD (max widest least)
          if g.column = indent then
            readBlock foldLines chomping least (s.startLine foldLines indent g) rest
          else some (s.finish chomping, g :: rest)

/-- A block scalar after its indicator, inside a block whose items are indented by `parent`; -1
stands for no block. -/
def readBlockScalar (foldLines : Bool) (parent : Int) (gs : List Glyph) :
    Option (String × List Glyph) :=
  match readBlockHeader gs with
  | none => none
  | some (chomping, increment, rest) =>
    let indent := increment.map fun n => parent.toNat + n
    let least := max (parent + 1).toNat 1
    readBlock foldLines chomping least ⟨indent, 0, [], none, [], false, false⟩ rest

end MarketReplay.Yaml
