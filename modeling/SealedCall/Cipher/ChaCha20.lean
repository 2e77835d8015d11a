import SealedCall.Text.Utf8

/-! # ChaCha20

The keystream generator on four rows of four words. A round works on all four columns at once; a
double round does so again along the diagonals. The extended form first turns a key and sixteen
octets of a nonce into a key of its own.
-/

namespace SealedCall.ChaCha20

/-- Four words side by side. -/
structure Row where
  first : UInt32
  second : UInt32
  third : UInt32
  fourth : UInt32
deriving DecidableEq

/-- The sixteen words of the generator. -/
structure Grid where
  top : Row
  upper : Row
  lower : Row
  bottom : Row
deriving DecidableEq

namespace Row

/-- The words of two rows combined place by place. -/
def combine (f : UInt32 → UInt32 → UInt32) (x y : Row) : Row :=
  ⟨f x.first y.first, f x.second y.second, f x.third y.third, f x.fourth y.fourth⟩

/-- Every word turned left by a number of bits between 1 and 31. -/
def rotateLeft (bits : UInt32) (x : Row) : Row :=
  let turn := fun word : UInt32 => (word <<< bits) ||| (word >>> (32 - bits))
  ⟨turn x.first, turn x.second, turn x.third, turn x.fourth⟩

/-- The words moved one place to the left, the first to the end. -/
def turn (x : Row) : Row := ⟨x.second, x.third, x.fourth, x.first⟩

def toList (x : Row) : List UInt32 := [x.first, x.second, x.third, x.fourth]

/-- The first four words of a list, zero where there is none. -/
def ofList (words : List UInt32) : Row :=
  ⟨words.getD 0 0, words.getD 1 0, words.getD 2 0, words.getD 3 0⟩

end Row

/-- Four octets as a word, the least significant first. -/
def wordOf (a b c d : UInt8) : UInt32 :=
  a.toUInt32 ||| (b.toUInt32 <<< 8) ||| (c.toUInt32 <<< 16) ||| (d.toUInt32 <<< 24)

/-- Octets as words. Fewer than four octets at the end are left out. -/
def words : Octets → List UInt32
  | a :: b :: c :: d :: rest => wordOf a b c d :: words rest
  | _ => []

/-- A word as four octets, the least significant first. -/
def octetsOf (word : UInt32) : Octets :=
  [word.toUInt8, (word >>> 8).toUInt8, (word >>> 16).toUInt8, (word >>> 24).toUInt8]

namespace Grid

/-- The quarter round in every column. -/
def columnRound (g : Grid) : Grid :=
  let a := g.top.combine (· + ·) g.upper
  let d := (g.bottom.combine (· ^^^ ·) a).rotateLeft 16
  let c := g.lower.combine (· + ·) d
  let b := (g.upper.combine (· ^^^ ·) c).rotateLeft 12
  let a := a.combine (· + ·) b
  let d := (d.combine (· ^^^ ·) a).rotateLeft 8
  let c := c.combine (· + ·) d
  let b := (b.combine (· ^^^ ·) c).rotateLeft 7
  ⟨a, b, c, d⟩

/-- A round along the columns and a round along the diagonals. -/
def doubleRound (g : Grid) : Grid :=
  let g := g.columnRound
  let g := columnRound ⟨g.top, g.upper.turn, g.lower.turn.turn, g.bottom.turn.turn.turn⟩
  ⟨g.top, g.upper.turn.turn.turn, g.lower.turn.turn, g.bottom.turn⟩

/-- A number of double rounds. -/
def rounds : Nat → Grid → Grid
  | 0, g => g
  | n + 1, g => rounds n g.doubleRound

/-- The grid of a key and the four words of its bottom row. -/
def start (key : Octets) (bottom : Row) : Grid :=
  let keyWords := words key
  ⟨⟨0x61707865, 0x3320646E, 0x79622D32, 0x6B206574⟩, Row.ofList keyWords,
    Row.ofList (keyWords.drop 4), bottom⟩

def add (g h : Grid) : Grid :=
  ⟨g.top.combine (· + ·) h.top, g.upper.combine (· + ·) h.upper,
    g.lower.combine (· + ·) h.lower, g.bottom.combine (· + ·) h.bottom⟩

def toOctets (g : Grid) : Octets :=
  (g.top.toList ++ g.upper.toList ++ g.lower.toList ++ g.bottom.toList).flatMap octetsOf

end Grid

/-- One block of the keystream, for a key of 32 octets and a nonce of twelve. -/
def block (key nonce : Octets) (counter : Nat) : Octets :=
  let nonceWords := words nonce
  let grid := Grid.start key
    ⟨UInt32.ofNat counter, nonceWords.getD 0 0, nonceWords.getD 1 0, nonceWords.getD 2 0⟩
  (grid.add (grid.rounds 10)).toOctets

/-- A number of blocks of the keystream one after the other. -/
def blocks (key nonce : Octets) (counter : Nat) : Nat → Octets
  | 0 => []
  | n + 1 => block key nonce counter ++ blocks key nonce (counter + 1) n

/-- The octets combined with the keystream from a block on. Doing it twice gives them back. -/
def apply (key nonce : Octets) (counter : Nat) (octets : Octets) : Octets :=
  octets.zipWith (· ^^^ ·) (blocks key nonce counter ((octets.length + 63) / 64))

/-- The key that a key and sixteen octets of a nonce give together. -/
def derivedKey (key nonce : Octets) : Octets :=
  let grid := (Grid.start key (Row.ofList (words nonce))).rounds 10
  (grid.top.toList ++ grid.bottom.toList).flatMap octetsOf

end SealedCall.ChaCha20
