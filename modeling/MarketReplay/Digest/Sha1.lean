import MarketReplay.Digest.Word

/-!
# SHA-1

The digest of 160 bits of a message.
-/

namespace MarketReplay.Digest.Sha1

/-- The state between blocks. -/
structure State where
  a : UInt32
  b : UInt32
  c : UInt32
  d : UInt32
  e : UInt32

/-- The state before the first block. -/
def State.initial : State := ⟨0x67452301, 0xefcdab89, 0x98badcfe, 0x10325476, 0xc3d2e1f0⟩

/-- The next word of the schedule from the last sixteen. -/
def nextWord (last : List UInt32) : UInt32 :=
  rotateLeft (last.getD 13 0 ^^^ last.getD 8 0 ^^^ last.getD 2 0 ^^^ last.getD 0 0) 1

/-- `n` words of the schedule, from the last sixteen on. -/
def schedule : (n : Nat) → List UInt32 → List UInt32
  | 0, _ => []
  | n + 1, last => last.getD 0 0 :: schedule n (last.drop 1 ++ [nextWord last])

/-- The mixing function and constant of a round. -/
def mixing (i : Nat) (b c d : UInt32) : UInt32 × UInt32 :=
  if i < 20 then ((b &&& c) ||| ((~~~b) &&& d), 0x5a827999)
  else if i < 40 then (b ^^^ c ^^^ d, 0x6ed9eba1)
  else if i < 60 then ((b &&& c) ||| (b &&& d) ||| (c &&& d), 0x8f1bbcdc)
  else (b ^^^ c ^^^ d, 0xca62c1d6)

/-- One round. -/
def round (s : State) (input : UInt32 × Nat) : State :=
  let (f, k) := mixing input.2 s.b s.c s.d
  ⟨rotateLeft s.a 5 + f + s.e + k + input.1, s.a, rotateLeft s.b 30, s.c, s.d⟩

/-- The state after a block. -/
def compress (s : State) (block : List UInt32) : State :=
  let t := (schedule 80 block).zipIdx.foldl round s
  ⟨s.a + t.a, s.b + t.b, s.c + t.c, s.d + t.d, s.e + t.e⟩

/-- The digest of a message. -/
def digest (message : List UInt8) : List UInt8 :=
  let s := (messageBlocks message).foldl compress State.initial
  [s.a, s.b, s.c, s.d, s.e].flatMap wordBytes

end MarketReplay.Digest.Sha1
