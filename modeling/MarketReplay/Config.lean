import MarketReplay.Config.Unused
import MarketReplay.Digest.Sha256
import MarketReplay.Json.Decode
import MarketReplay.Json.Overlay
import MarketReplay.Text.Quoted
import MarketReplay.Yaml.Value

/-!
# Configurations

A configuration is a document made of layers, each written in its own text; later layers are laid
over earlier ones. Its canonical form is the compact text of the document, and its identity the
digest of that. A program reads a configuration by sections.
-/

namespace MarketReplay

/-- Why a configuration is refused. -/
inductive ConfigError where
  | unreadable (path : String) (reason : String)
  | invalidLayer (index : Nat)
  | invalidKeys
  | missingSection (pointer : String)
  | invalidSection (pointer : String) (cause : DecodeError)
  | unusedKeys (unused : List String)
  deriving DecidableEq

/-- The text of the error. -/
def ConfigError.message : ConfigError → String
  | unreadable path _ => "failed to read yaml path: " ++ path
  | invalidLayer index => "invalid yaml in layer " ++ toString index
  | invalidKeys => "yaml->json conversion failed"
  | missingSection pointer => "CONFIG_SECTION_MISSING pointer=" ++ pointer
  | invalidSection pointer _ => "CONFIG_SECTION_INVALID pointer=" ++ pointer
  | unusedKeys unused =>
    "CONFIG_UNUSED_KEYS: " ++ toString unused.length ++
      " unused config leaf key(s) detected. First few: " ++ Text.quotedList (unused.take 12)

/-- A configuration. -/
structure Config where
  document : Json

namespace Config

/-- The document of a layer, the first of which has index 0. -/
def readLayer (index : Nat) (text : String) : Except ConfigError Json :=
  match Yaml.parse? text with
  | none => .error (.invalidLayer index)
  | some value =>
    match value.toJson? with
    | none => .error .invalidKeys
    | some document => .ok document

/-- The documents of layers, of which the first has a given index. -/
def readLayers (index : Nat) : List String → Except ConfigError (List Json)
  | [] => .ok []
  | text :: rest => do return (← readLayer index text) :: (← readLayers (index + 1) rest)

/-- The configuration of the texts of its layers. -/
def ofTexts (layers : List String) : Except ConfigError Config := do
  return ⟨Json.ofLayers (← readLayers 0 layers)⟩

/-- The text of a layer from a file, or why it cannot be read. -/
def readFile (file : String → Except String String) (path : String) : Except ConfigError String :=
  (file path).mapError (.unreadable path)

/-- The configuration of the files of its layers; all are read before the first is understood. -/
def ofFiles (file : String → Except String String) (paths : List String) :
    Except ConfigError Config := do
  ofTexts (← paths.mapM (readFile file))

/-- The canonical text. -/
def canonical (c : Config) : String := c.document.compact

/-- The digest of the canonical text. -/
def hash (c : Config) : String := Digest.Sha256.hexDigest c.canonical.toUTF8.toList

/-- What a pointer points to, unless it is null. -/
def value? (c : Config) (pointer : String) : Option Json :=
  match c.document.at? (.ofText pointer) with
  | some .null => none
  | found => found

/-- The section that a pointer points to, if there is one, as `read` has it. -/
def sectionOption {α : Type} (c : Config) (pointer : String) (read : Decoder α) :
    Except ConfigError (Option α) :=
  match c.value? pointer with
  | none => .ok none
  | some j =>
    match read j with
    | .ok a => .ok (some a)
    | .error cause => .error (.invalidSection pointer cause)

/-- The section that a pointer points to, as `read` has it. -/
def sectionOf {α : Type} (c : Config) (pointer : String) (read : Decoder α) :
    Except ConfigError α := do
  match ← c.sectionOption pointer read with
  | some a => return a
  | none => throw (.missingSection pointer)

/-- The report on unused keys; a strict one is refused if there are any. -/
def checkUnused (strict : Bool) (consumed : List String) (c : Config) :
    Except ConfigError UnusedKeys :=
  let report := UnusedKeys.report consumed c.document
  if strict && !report.isClean then .error (.unusedKeys report.unused) else .ok report

end Config

end MarketReplay
