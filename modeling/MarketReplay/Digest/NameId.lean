import MarketReplay.Digest.Sha1

/-!
# Universally unique identifiers

Sixteen bytes with the bits of version and variant set. One of version 5 is made of the first bytes
of the digest of a namespace and a name, one of version 4 of random bytes.
-/

namespace MarketReplay.Digest

/-- The namespace of object identifiers. -/
def objectNamespace : List UInt8 :=
  [0x6b, 0xa7, 0xb8, 0x12, 0x9d, 0xad, 0x11, 0xd1, 0x80, 0xb4, 0x00, 0xc0, 0x4f, 0xd4, 0x30, 0xc8]

/-- Bytes with version and variant. -/
def stamped (version : UInt8) (bytes : List UInt8) : List UInt8 :=
  bytes.zipIdx.map fun (b, i) =>
    if i = 6 then (b &&& 0x0f) ||| (16 * version) else if i = 8 then (b &&& 0x3f) ||| 0x80 else b

/-- Sixteen bytes in groups of 4, 2, 2, 2 and 6, with hyphens. -/
def groupedText (bytes : List UInt8) : String :=
  "-".intercalate [hexText (bytes.take 4), hexText ((bytes.drop 4).take 2),
    hexText ((bytes.drop 6).take 2), hexText ((bytes.drop 8).take 2), hexText (bytes.drop 10)]

/-- The identifier of a name. -/
def nameId (name : String) : String :=
  groupedText (stamped 5 ((Sha1.digest (objectNamespace ++ name.toUTF8.toList)).take 16))

/-- The identifier of sixteen random bytes. -/
def randomId (bytes : List UInt8) : String := groupedText (stamped 4 bytes)

end MarketReplay.Digest
