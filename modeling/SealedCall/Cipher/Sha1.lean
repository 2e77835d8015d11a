import SealedCall.Text.Utf8

/-! # SHA-1

The 160-bit digest of an octet sequence. The message is followed by a set bit, zeros and its
length in bits, and each block of 64 octets passes through eighty rounds.
-/

namespace SealedCall.Sha1

/-- The five words of the running digest. -/
structure Chain where
  a : UInt32
  b : UInt32
  c : UInt32
  d : UInt32
  e : UInt32
deriving DecidableEq

def Chain.initial : Chain :=
  ⟨0x67452301, 0xEFCDAB89, 0x98BADCFE, 0x10325476, 0xC3D2E1F0⟩

/-- A word turned left by a number of bits between 1 and 31. -/
def rotateLeft (word bits : UInt32) : UInt32 := (word <<< bits) ||| (word >>> (32 - bits))

/-- Four octets as a word, the most significant first. -/
def wordOf (a b c d : UInt8) : UInt32 :=
  (a.toUInt32 <<< 24) ||| (b.toUInt32 <<< 16) ||| (c.toUInt32 <<< 8) ||| d.toUInt32

/-- Octets as words. Fewer than four octets at the end are left out. -/
def words : Octets → List UInt32
  | a :: b :: c :: d :: rest => wordOf a b c d :: words rest
  | _ => []

def octetsOf (word : UInt32) : Octets :=
  [(word >>> 24).toUInt8, (word >>> 16).toUInt8, (word >>> 8).toUInt8, word.toUInt8]

/-- A number as eight octets, the most significant first. -/
def lengthOctets (n : Nat) : Octets :=
  (List.range 8).map fun i => UInt8.ofNat (n / Nat.pow 256 (7 - i))

/-- The message with its padding: a whole number of blocks. -/
def padded (message : Octets) : Octets :=
  message ++ 0x80 :: List.replicate ((119 - message.length % 64) % 64) 0 ++
    lengthOctets (8 * message.length)

/-- The function and the constant of a round. -/
def mix (round : Nat) (b c d : UInt32) : UInt32 :=
  if round < 20 then ((b &&& c) ||| (~~~b &&& d)) + 0x5A827999
  else if round < 40 then (b ^^^ c ^^^ d) + 0x6ED9EBA1
  else if round < 60 then ((b &&& c) ||| (b &&& d) ||| (c &&& d)) + 0x8F1BBCDC
  else (b ^^^ c ^^^ d) + 0xCA62C1D6

/-- The words of the rounds, newest first, after the given number of further rounds. -/
def schedule : Nat → List UInt32 → List UInt32
  | 0, newest => newest
  | rounds + 1, newest =>
    let word := newest.getD 2 0 ^^^ newest.getD 7 0 ^^^ newest.getD 13 0 ^^^ newest.getD 15 0
    schedule rounds (rotateLeft word 1 :: newest)

def Chain.round (chain : Chain) (round : Nat) (word : UInt32) : Chain :=
  let fresh := rotateLeft chain.a 5 + mix round chain.b chain.c chain.d + chain.e + word
  ⟨fresh, chain.a, rotateLeft chain.b 30, chain.c, chain.d⟩

/-- The rounds on the words in order, counted from the given round. -/
def Chain.rounds (chain : Chain) (round : Nat) : List UInt32 → Chain
  | [] => chain
  | word :: rest => (chain.round round word).rounds (round + 1) rest

/-- The chain after one block of sixteen words. -/
def Chain.absorb (chain : Chain) (block : List UInt32) : Chain :=
  let after := chain.rounds 0 (schedule 64 block.reverse).reverse
  ⟨chain.a + after.a, chain.b + after.b, chain.c + after.c, chain.d + after.d, chain.e + after.e⟩

/-- The chain after a number of blocks taken from the words. -/
def Chain.absorbBlocks : Nat → Chain → List UInt32 → Chain
  | 0, chain, _ => chain
  | blocks + 1, chain, message =>
    absorbBlocks blocks (chain.absorb (message.take 16)) (message.drop 16)

def digest (message : Octets) : Octets :=
  let input := words (padded message)
  let chain := Chain.absorbBlocks (input.length / 16) Chain.initial input
  [chain.a, chain.b, chain.c, chain.d, chain.e].flatMap octetsOf

end SealedCall.Sha1
