import MarketReplay.Text.Digits
import MarketReplay.Yaml.Glyph

/-!
# Tags and directives

A tag is written as a handle and a suffix, or in full between angle brackets. The directives before
a document name its version and give handles a meaning.
-/

namespace MarketReplay.Yaml

/-- A tag as written; one without a handle stands in full. -/
structure WrittenTag where
  handle : String
  suffix : String
  deriving DecidableEq

/-- A directive. -/
inductive Directive where
  | version (major minor : Nat)
  | tag (handle meaning : String)
  deriving DecidableEq

/-- Whether a tag may hold the character; commas and square brackets only where they cannot be
taken for those of a flow collection. -/
def isTagChar (listed : Bool) (c : Char) : Bool :=
  isNameChar c || ";/?:@&=+$.!~*'()".toList.contains c ||
    (listed && (c == ',' || c == '[' || c == ']'))

/-- The bytes of `n` escapes of two hexadecimal digits each. -/
def percentBytes : (n : Nat) → List Glyph → Option (List UInt8 × List Glyph)
  | 0, gs => some ([], gs)
  | n + 1, p :: a :: b :: rest =>
    if p.char != '%' then none
    else
      match Text.baseNumber? 16 [a.char, b.char], percentBytes n rest with
      | some octet, some (more, rest) => some (UInt8.ofNat octet :: more, rest)
      | _, _ => none
  | _, _ => none

/-- The number of bytes of a character, from its first byte. -/
def encodedLength? (first : UInt8) : Option Nat :=
  if first < 0x80 then some 1
  else if first < 0xc0 then none
  else if first < 0xe0 then some 2
  else if first < 0xf0 then some 3
  else if first < 0xf8 then some 4
  else none

/-- The character that escapes stand for, and the glyphs after it. -/
def percentChar (gs : List Glyph) : Option (List Char × List Glyph) := do
  let (first, _) ← percentBytes 1 gs
  let (bytes, rest) ← percentBytes (← encodedLength? (first.headD 0)) gs
  let text ← String.fromUTF8? ⟨bytes.toArray⟩
  return (text.toList, rest)

/-- Characters of a tag, at most `fuel` of them, and the glyphs after them. -/
def tagChars (listed : Bool) : (fuel : Nat) → List Glyph → Option (List Char × List Glyph)
  | 0, gs => some ([], gs)
  | _ + 1, [] => some ([], [])
  | fuel + 1, g :: rest =>
    if g.char == '%' then
      match percentChar (g :: rest) with
      | none => none
      | some (cs, rest) => (tagChars listed fuel rest).map fun (more, rest) => (cs ++ more, rest)
    else if isTagChar listed g.char then
      (tagChars listed fuel rest).map fun (more, rest) => (g.char :: more, rest)
    else some ([], g :: rest)

/-- The characters of a tag, and the glyphs after them. -/
def readTagChars (listed : Bool) (gs : List Glyph) : Option (List Char × List Glyph) :=
  tagChars listed gs.length gs

/-- A handle as written: an exclamation mark, name characters, and perhaps a second mark. -/
def readHandle (gs : List Glyph) : Option (List Char × List Glyph) :=
  match gs with
  | [] => none
  | g :: rest =>
    if g.char != '!' then none
    else
      let (name, rest) := spanChars isNameChar rest
      match rest with
      | h :: rest' =>
        if h.char == '!' then some ('!' :: name ++ ['!'], rest') else some ('!' :: name, h :: rest')
      | [] => some ('!' :: name, [])

/-- A tag in full, after the bracket that opens it. -/
def readFullTag (gs : List Glyph) : Option (WrittenTag × List Glyph) := do
  let (cs, rest) ← readTagChars true gs
  if cs.isEmpty || !startsWith '>' rest then none
  else return (⟨"", String.ofList cs⟩, rest.drop 1)

/-- A tag of a handle and a suffix. Without a second mark the name belongs to the suffix; the mark
alone stands in full. -/
def readShortTag (gs : List Glyph) : Option (WrittenTag × List Glyph) := do
  let (handle, rest) ← readHandle gs
  let (cs, rest) ← readTagChars false rest
  if 1 < handle.length && handle.getLast? == some '!' then
    if cs.isEmpty then none else return (⟨String.ofList handle, String.ofList cs⟩, rest)
  else
    let suffix := handle.drop 1 ++ cs
    if suffix.isEmpty then return (⟨"", "!"⟩, rest) else return (⟨"!", String.ofList suffix⟩, rest)

/-- A tag, and the glyphs after it: a gap, or a comma in a flow collection. -/
def readTag (inFlow : Bool) (gs : List Glyph) : Option (WrittenTag × List Glyph) := do
  let (tag, rest) ←
    if startsWith '<' (gs.drop 1) then readFullTag (gs.drop 2) else readShortTag gs
  if atGap rest || (inFlow && startsWith ',' rest) then return (tag, rest) else none

/-- A number of at most nine digits. -/
def readVersionNumber (gs : List Glyph) : Option (Nat × List Glyph) :=
  let (digits, rest) := spanChars Char.isDigit gs
  if digits.isEmpty || 9 < digits.length then none else some (Text.digitsValue digits, rest)

/-- The version of a document. -/
def readVersion (gs : List Glyph) : Option (Directive × List Glyph) := do
  let (major, rest) ← readVersionNumber (skipBlanks gs)
  if !startsWith '.' rest then none
  else
    let (minor, rest) ← readVersionNumber (rest.drop 1)
    return (.version major minor, rest)

/-- A handle and its meaning. -/
def readTagMeaning (gs : List Glyph) : Option (Directive × List Glyph) := do
  let (handle, rest) ← readHandle (skipBlanks gs)
  let isMeant := handle == ['!'] || (1 < handle.length && handle.getLast? == some '!')
  if !isMeant || !atBlank rest then none
  else
    let (meaning, rest) ← readTagChars true (skipBlanks rest)
    if meaning.isEmpty || !atGap rest then none
    else return (.tag (String.ofList handle) (String.ofList meaning), rest)

/-- A directive after its percent sign, up to the end of its line. -/
def readDirective (gs : List Glyph) : Option (Directive × List Glyph) := do
  let (name, rest) := spanChars isNameChar gs
  if !atGap rest then none
  else
    let (directive, rest) ←
      if name == "YAML".toList then readVersion rest
      else if name == "TAG".toList then readTagMeaning rest
      else none
    return (directive, ← skipRestOfLine? rest)

end MarketReplay.Yaml
