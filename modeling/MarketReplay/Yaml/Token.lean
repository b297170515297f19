import MarketReplay.Yaml.Scalar
import MarketReplay.Yaml.Tag

/-!
# Tokens

The tokens of a configuration text. Indentation becomes tokens that open and close blocks. A scalar
or a collection is the key of a mapping if a colon follows it on its line; until that is known it is
an open key, and the tokens for it are inserted at its place once the colon is seen.
-/

namespace MarketReplay.Yaml

/-- A token. -/
inductive Token where
  | directive (directive : Directive)
  | documentStart
  | documentEnd
  | blockSequenceStart
  | blockMappingStart
  | blockEnd
  | flowSequenceStart
  | flowSequenceEnd
  | flowMappingStart
  | flowMappingEnd
  | blockEntry
  | flowEntry
  | key
  | value
  | alias (name : String)
  | anchor (name : String)
  | tag (tag : WrittenTag)
  | scalar (text : String) (plain : Bool)
  deriving DecidableEq

/-- A place where the key of a mapping may have begun: how many tokens came before it, where it
stands, and whether a colon must follow. -/
structure OpenKey where
  before : Nat
  place : Glyph
  required : Bool

/-- What was read so far. `indent` is that of the innermost block, -1 outside of all, and `outer`
those of the blocks around it. `key` is the open key of the innermost collection in brackets, or of
the text outside of brackets, and `outerKeys` are those around it. The last token comes first. -/
structure Scan where
  rest : List Glyph
  indent : Int
  outer : List Int
  key : Option OpenKey
  outerKeys : List (Option OpenKey)
  keyAllowed : Bool
  tokens : List Token
  count : Nat

namespace Scan

/-- Nothing of a text is read. -/
def start (gs : List Glyph) : Scan := ⟨gs, -1, [], none, [], true, [], 0⟩

/-- Whether brackets are open. -/
def inFlow (s : Scan) : Bool := !s.outerKeys.isEmpty

/-- One more token. -/
def emit (token : Token) (s : Scan) : Scan :=
  { s with tokens := token :: s.tokens, count := s.count + 1 }

/-- One more token, after the first `before` ones. -/
def insert (before : Nat) (token : Token) (s : Scan) : Scan :=
  let later := s.count - before
  { s with
    tokens := s.tokens.take later ++ token :: s.tokens.drop later
    count := s.count + 1 }

/-- The glyphs at the next token, and whether a key may begin there: spaces, comments and line ends
are passed over, and tabs where no key may begin. -/
def gapEnd (inFlow keyAllowed inComment : Bool) : List Glyph → Bool × List Glyph
  | [] => (keyAllowed, [])
  | g :: rest =>
    if g.isBreak then gapEnd inFlow (keyAllowed || !inFlow) false rest
    else if inComment then gapEnd inFlow keyAllowed true rest
    else if g.char == ' ' || (g.char == '\t' && (inFlow || !keyAllowed)) ||
        (g.char == '\ufeff' && g.index == 0) then
      gapEnd inFlow keyAllowed false rest
    else if g.char == '#' then gapEnd inFlow keyAllowed true rest
    else (keyAllowed, g :: rest)

/-- The state at the next token. -/
def skipGap (s : Scan) : Scan :=
  let (keyAllowed, rest) := gapEnd s.inFlow s.keyAllowed false s.rest
  { s with rest := rest, keyAllowed := keyAllowed }

/-- Whether a key that began at a place can no longer end at another: it stays on one line and
within 1024 characters. -/
def isPast (began here : Glyph) : Bool := began.line < here.line || began.index + 1024 < here.index

/-- A key that is still open at a place; one that must not be given up has no value. -/
def keyAt? (here : Glyph) (key : Option OpenKey) : Option (Option OpenKey) :=
  match key with
  | none => some none
  | some k => if isPast k.place here then if k.required then none else some none else some (some k)

/-- The state without the keys that cannot end at a place. -/
def dropPastKeys (here : Glyph) (s : Scan) : Option Scan := do
  return { s with key := ← keyAt? here s.key, outerKeys := ← s.outerKeys.mapM (keyAt? here) }

/-- The state without its innermost open key. -/
def dropKey (s : Scan) : Option Scan :=
  match s.key with
  | some k => if k.required then none else some { s with key := none }
  | none => some s

/-- The state where a key may have begun here. -/
def openKey (here : Glyph) (s : Scan) : Option Scan :=
  if s.keyAllowed then
    s.dropKey.map fun s =>
      { s with key := some ⟨s.count, here, !s.inFlow && s.indent == here.column⟩ }
  else some s

/-- The indentation and its outer ones after the blocks deeper than a column are closed, and the
number of those. -/
def closeDeeper (column indent : Int) : List Int → Int × List Int × Nat
  | [] => (indent, [], 0)
  | next :: outer =>
    if column < indent then
      let (indent, outer, n) := closeDeeper column next outer
      (indent, outer, n + 1)
    else (indent, next :: outer, 0)

/-- The state after the blocks deeper than a column are closed. -/
def closeBlocks (column : Int) (s : Scan) : Scan :=
  if s.inFlow then s
  else
    let (indent, outer, n) := closeDeeper column s.indent s.outer
    { s with
      indent := indent
      outer := outer
      tokens := List.replicate n .blockEnd ++ s.tokens
      count := s.count + n }

/-- The state with a block open at a column, its token after the first `before` ones. -/
def openBlock (column before : Nat) (token : Token) (s : Scan) : Scan :=
  if !s.inFlow && s.indent < column then
    { s with indent := column, outer := s.indent :: s.outer }.insert before token
  else s

/-- A token outside of all blocks, with the glyphs after it. -/
def topLevel (token : Token) (rest : List Glyph) (s : Scan) : Option Scan :=
  (s.closeBlocks (-1)).dropKey.map fun s => { s with rest := rest, keyAllowed := false }.emit token

/-- A bracket that opens. -/
def openFlow (token : Token) (here : Glyph) (rest : List Glyph) (s : Scan) : Option Scan :=
  (s.openKey here).map fun s =>
    { s with
      rest := rest
      keyAllowed := true
      key := none
      outerKeys := s.key :: s.outerKeys }.emit token

/-- A bracket that closes. -/
def closeFlow (token : Token) (rest : List Glyph) (s : Scan) : Option Scan :=
  s.dropKey.map fun s =>
    let s := match s.outerKeys with
      | [] => s
      | key :: outerKeys => { s with key := key, outerKeys := outerKeys }
    { s with rest := rest, keyAllowed := false }.emit token

/-- A comma in brackets. -/
def flowEntry (rest : List Glyph) (s : Scan) : Option Scan :=
  s.dropKey.map fun s => { s with rest := rest, keyAllowed := true }.emit .flowEntry

/-- The indicator of an item or a key of a block. Outside of brackets it must stand where a key may
begin, and it opens the block if it is deeper than the one around. -/
def blockIndicator (block token : Token) (keyAfter : Bool) (here : Glyph) (rest : List Glyph)
    (s : Scan) : Option Scan :=
  if !s.inFlow && !s.keyAllowed then none
  else
    (s.openBlock here.column s.count block).dropKey.map fun s =>
      { s with rest := rest, keyAllowed := keyAfter }.emit token

/-- The colon before a value. -/
def valueIndicator (here : Glyph) (rest : List Glyph) (s : Scan) : Option Scan :=
  match s.key with
  | some k =>
    let s := (s.insert k.before .key).openBlock k.place.column k.before .blockMappingStart
    some ({ s with rest := rest, key := none, keyAllowed := false }.emit .value)
  | none =>
    if !s.inFlow && !s.keyAllowed then none
    else
      let s := s.openBlock here.column s.count .blockMappingStart
      some ({ s with rest := rest, keyAllowed := !s.inFlow }.emit .value)

/-- A token that may begin a key. -/
def content (here : Glyph) (token : Token) (rest : List Glyph) (s : Scan) : Option Scan :=
  (s.openKey here).map fun s => { s with rest := rest, keyAllowed := false }.emit token

/-- The name of an anchor or an alias, and the glyphs after it. -/
def readName (gs : List Glyph) : Option (String × List Glyph) :=
  let (name, rest) := spanChars isNameChar gs
  let ended := match rest with
    | [] => true
    | g :: _ => g.isBlank || g.isBreak || "?:,]\x7d%@`".toList.contains g.char
  if name.isEmpty || !ended then none else some (String.ofList name, rest)

/-- A block scalar. -/
def blockScalar (foldLines : Bool) (rest : List Glyph) (s : Scan) : Option Scan := do
  let s ← s.dropKey
  let (text, rest) ← readBlockScalar foldLines s.indent rest
  return { s with rest := rest, keyAllowed := true }.emit (.scalar text false)

/-- A plain scalar. -/
def plainScalar (here : Glyph) (gs : List Glyph) (s : Scan) : Option Scan := do
  let s ← s.openKey here
  let p ← readPlain s.inFlow (s.indent + 1).toNat [] .empty gs
  return { s with rest := p.rest, keyAllowed := p.beforeBreak }.emit (.scalar p.text true)

/-- Whether a plain scalar may begin with a character that glyphs follow. -/
def startsPlain (inFlow : Bool) (c : Char) (rest : List Glyph) : Bool :=
  if c == '-' then !atBlank rest
  else if c == '?' || c == ':' then !inFlow && !atGap rest
  else !"\t,[]\x7b\x7d#&*!|>'\"%@`".toList.contains c

/-- One more token, at a glyph that is no gap. -/
def nextToken (g : Glyph) (rest : List Glyph) (s : Scan) : Option Scan :=
  let gs := g :: rest
  if g.column == 0 && g.char == '%' then do
    let (directive, rest) ← readDirective rest
    s.topLevel (.directive directive) rest
  else if atMarker '-' gs then s.topLevel .documentStart (gs.drop 3)
  else if atMarker '.' gs then s.topLevel .documentEnd (gs.drop 3)
  else if g.char == '[' then s.openFlow .flowSequenceStart g rest
  else if g.char == '\x7b' then s.openFlow .flowMappingStart g rest
  else if g.char == ']' then s.closeFlow .flowSequenceEnd rest
  else if g.char == '\x7d' then s.closeFlow .flowMappingEnd rest
  else if g.char == ',' then s.flowEntry rest
  else if g.char == '-' && atGap rest then
    s.blockIndicator .blockSequenceStart .blockEntry true g rest
  else if g.char == '?' && (s.inFlow || atGap rest) then
    s.blockIndicator .blockMappingStart .key (!s.inFlow) g rest
  else if g.char == ':' && (s.inFlow || atGap rest) then s.valueIndicator g rest
  else if g.char == '*' then do
    let (name, rest) ← readName rest
    s.content g (.alias name) rest
  else if g.char == '&' then do
    let (name, rest) ← readName rest
    s.content g (.anchor name) rest
  else if g.char == '!' then do
    let (tag, rest) ← readTag s.inFlow gs
    s.content g (.tag tag) rest
  else if g.char == '|' && !s.inFlow then s.blockScalar false rest
  else if g.char == '>' && !s.inFlow then s.blockScalar true rest
  else if g.char == '\'' then do
    let (text, rest) ← readQuoted true [] .empty rest
    s.content g (.scalar text false) rest
  else if g.char == '"' then do
    let (text, rest) ← readQuoted false [] .empty rest
    s.content g (.scalar text false) rest
  else if startsPlain s.inFlow g.char rest then s.plainScalar g gs
  else none

/-- All tokens, of which at most `fuel` are left; a token takes at least one glyph. -/
def run : (fuel : Nat) → Scan → Option Scan
  | 0, _ => none
  | fuel + 1, s =>
    let s := s.skipGap
    match s.rest with
    | [] => (s.closeBlocks (-1)).dropKey
    | g :: rest => do
      let s ← s.dropPastKeys g
      run fuel (← (s.closeBlocks g.column).nextToken g rest)

end Scan

/-- The tokens of a text. -/
def Token.ofText? (text : String) : Option (List Token) := do
  let gs ← glyphs? text
  return (← Scan.run (gs.length + 1) (.start gs)).tokens.reverse

end MarketReplay.Yaml
