/-!
# Characters in their places

The characters of a configuration text, each with its line, its column and its place in the text.
Every line end but the two separators of the character set becomes a newline; a text with a
control character has no glyphs.
-/

namespace MarketReplay.Yaml

/-- A character in its place. -/
structure Glyph where
  char : Char
  line : Nat
  column : Nat
  index : Nat

/-- Whether a text may hold the character. -/
def isAllowed (c : Char) : Bool :=
  let n := c.toNat
  n == 0x09 || n == 0x0a || n == 0x0d || (0x20 ≤ n && n ≤ 0x7e) || n == 0x85 ||
    (0xa0 ≤ n && n ≤ 0xfffd) || 0x10000 ≤ n

/-- Whether the character ends a line. -/
def isBreak (c : Char) : Bool :=
  c == '\n' || c == '\r' || c == '\u0085' || c == '\u2028' || c == '\u2029'

/-- The character that a line end counts as. -/
def breakChar (c : Char) : Char := if c == '\r' || c == '\u0085' then '\n' else c

/-- The glyphs of characters of which the first is in a place. -/
def glyphsFrom (line column index : Nat) : List Char → List Glyph
  | [] => []
  | '\r' :: '\n' :: rest => ⟨'\n', line, column, index⟩ :: glyphsFrom (line + 1) 0 (index + 2) rest
  | c :: rest =>
    if isBreak c then
      ⟨breakChar c, line, column, index⟩ :: glyphsFrom (line + 1) 0 (index + 1) rest
    else ⟨c, line, column, index⟩ :: glyphsFrom line (column + 1) (index + 1) rest

/-- The glyphs of a text. -/
def glyphs? (text : String) : Option (List Glyph) :=
  let cs := text.toList
  if cs.all isAllowed then some (glyphsFrom 0 0 0 cs) else none

namespace Glyph

/-- Whether the glyph ends a line. -/
def isBreak (g : Glyph) : Bool := Yaml.isBreak g.char

/-- A space or a tab. -/
def isBlank (g : Glyph) : Bool := g.char == ' ' || g.char == '\t'

end Glyph

/-- The first character, if there is one. -/
def headChar? (gs : List Glyph) : Option Char := gs.head?.map Glyph.char

/-- Whether the first character is `c`. -/
def startsWith (c : Char) (gs : List Glyph) : Bool := headChar? gs == some c

/-- Whether a blank, a line end or the end of the text comes first. -/
def atGap (gs : List Glyph) : Bool :=
  match gs with
  | [] => true
  | g :: _ => g.isBlank || g.isBreak

/-- Whether a blank comes first. -/
def atBlank (gs : List Glyph) : Bool :=
  match gs with
  | [] => false
  | g :: _ => g.isBlank

/-- Whether three times `c` stand at the start of a line, a gap after them. -/
def atMarker (c : Char) : List Glyph → Bool
  | a :: b :: d :: rest =>
    a.column == 0 && a.char == c && b.char == c && d.char == c && atGap rest
  | _ => false

/-- Whether a line begins here that marks the start or the end of a document. -/
def atDocumentMarker (gs : List Glyph) : Bool := atMarker '-' gs || atMarker '.' gs

/-- The glyphs after blanks. -/
def skipBlanks (gs : List Glyph) : List Glyph := gs.dropWhile Glyph.isBlank

/-- The glyphs from the end of the line on. -/
def skipLine (gs : List Glyph) : List Glyph := gs.dropWhile fun g => !g.isBreak

/-- The glyphs after blanks, a comment and a line end; nothing else may come before it. -/
def skipRestOfLine? (gs : List Glyph) : Option (List Glyph) :=
  let rest := skipBlanks gs
  let rest := if startsWith '#' rest then skipLine rest else rest
  match rest with
  | [] => some []
  | g :: rest => if g.isBreak then some rest else none

/-- The characters from the first glyph on that satisfy `keep`, and the glyphs after them. -/
def spanChars (keep : Char → Bool) (gs : List Glyph) : List Char × List Glyph :=
  ((gs.takeWhile fun g => keep g.char).map Glyph.char, gs.dropWhile fun g => keep g.char)

/-- Characters of names: letters and digits of the basic alphabet, the dash and the underscore. -/
def isNameChar (c : Char) : Bool := c.isAlphanum || c == '-' || c == '_'

end MarketReplay.Yaml
