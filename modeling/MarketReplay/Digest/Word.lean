/-!
# Words of message digests

Messages are padded to blocks of 64 bytes and read as words of 32 bits, the high byte first;
digests are written as bytes in the same order.
-/

namespace MarketReplay.Digest

/-- A word with its bits moved left in a circle. -/
def rotateLeft (x : UInt32) (n : UInt32) : UInt32 := (x <<< n) ||| (x >>> (32 - n))

/-- A word with its bits moved right in a circle. -/
def rotateRight (x : UInt32) (n : UInt32) : UInt32 := (x >>> n) ||| (x <<< (32 - n))

/-- The bytes of a word, the high byte first. -/
def wordBytes (w : UInt32) : List UInt8 :=
  [(w >>> 24).toUInt8, (w >>> 16).toUInt8, (w >>> 8).toUInt8, w.toUInt8]

/-- The word of four bytes, the high byte first. -/
def wordOfBytes (a b c d : UInt8) : UInt32 :=
  (a.toUInt32 <<< 24) ||| (b.toUInt32 <<< 16) ||| (c.toUInt32 <<< 8) ||| d.toUInt32

/-- The words of bytes taken four at a time. -/
def words : List UInt8 → List UInt32
  | a :: b :: c :: d :: rest => wordOfBytes a b c d :: words rest
  | _ => []

/-- The bytes of a number of 64 bits, the high byte first. -/
def lengthBytes (n : Nat) : List UInt8 :=
  (List.range 8).map fun i => UInt8.ofNat (n / Nat.pow 256 (7 - i))

/-- The message with a closing bit, zeros, and its length in bits at the end of the last block. -/
def padded (message : List UInt8) : List UInt8 :=
  let zeros := (119 - message.length % 64) % 64
  message ++ [0x80] ++ List.replicate zeros 0 ++ lengthBytes (8 * message.length)

/-- The blocks of sixteen words, at most `fuel` of them. -/
def blocks : (fuel : Nat) → List UInt32 → List (List UInt32)
  | 0, _ => []
  | fuel + 1, ws => if ws.isEmpty then [] else ws.take 16 :: blocks fuel (ws.drop 16)

/-- The blocks of a message. -/
def messageBlocks (message : List UInt8) : List (List UInt32) :=
  let ws := words (padded message)
  blocks ws.length ws

/-- A byte as two lower-case hexadecimal digits. -/
def byteText (b : UInt8) : List Char :=
  [Nat.digitChar (b.toNat / 16), Nat.digitChar (b.toNat % 16)]

/-- Bytes as lower-case hexadecimal digits. -/
def hexText (bytes : List UInt8) : String := String.ofList (bytes.flatMap byteText)

end MarketReplay.Digest
