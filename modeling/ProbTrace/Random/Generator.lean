/-!
# Generator — a reproducible source of random words

The words of a generator are the keystream of a twelve-round stream cipher: sixteen 32-bit words
are mixed by quarter rounds along the columns and the diagonals of a four by four square and added
to what they were before.  The key is spun out of a 64-bit seed.  Each block of the keystream gives
eight 64-bit words; a generator is its key, the number of the next block, and the words of the
current block that are left.
-/

namespace ProbTrace

/-- The sixteen words that one block is mixed from. -/
abbrev Square := Vector UInt32 16

/-- `x` with its bits rotated left by `n`, for `n` between 1 and 31. -/
def rotateLeft (x n : UInt32) : UInt32 := (x <<< n) ||| (x >>> (32 - n))

/-- Mixes the words at four places. -/
def Square.quarterRound (s : Square) (a b c d : Fin 16) : Square :=
  let s := s.set a (s[a] + s[b])
  let s := s.set d (rotateLeft (s[d] ^^^ s[a]) 16)
  let s := s.set c (s[c] + s[d])
  let s := s.set b (rotateLeft (s[b] ^^^ s[c]) 12)
  let s := s.set a (s[a] + s[b])
  let s := s.set d (rotateLeft (s[d] ^^^ s[a]) 8)
  let s := s.set c (s[c] + s[d])
  s.set b (rotateLeft (s[b] ^^^ s[c]) 7)

/-- Mixes every column, then every diagonal. -/
def Square.doubleRound (s : Square) : Square :=
  let s := s.quarterRound 0 4 8 12
  let s := s.quarterRound 1 5 9 13
  let s := s.quarterRound 2 6 10 14
  let s := s.quarterRound 3 7 11 15
  let s := s.quarterRound 0 5 10 15
  let s := s.quarterRound 1 6 11 12
  let s := s.quarterRound 2 7 8 13
  s.quarterRound 3 4 9 14

/-- `n` double rounds. -/
def Square.doubleRounds : Nat → Square → Square
  | 0,     s => s
  | n + 1, s => doubleRounds n s.doubleRound

/-- The square of a key and a block number: four fixed words, the key, the number, two zeros. -/
def Square.start (key : Vector UInt32 8) (block : UInt64) : Square :=
  #v[0x61707865, 0x3320646e, 0x79622d32, 0x6b206574,
     key[0], key[1], key[2], key[3], key[4], key[5], key[6], key[7],
     block.toUInt32, (block >>> 32).toUInt32, 0, 0]

/-- The sixteen words of a block. -/
def Square.mixed (s : Square) : Square :=
  Vector.zipWith (· + ·) (s.doubleRounds 6) s

/-- Neighbours as one word, the first as its low half. -/
def joinWords : List UInt32 → List UInt64
  | low :: high :: rest => (low.toUInt64 ||| (high.toUInt64 <<< 32)) :: joinWords rest
  | _                   => []

/-- A source of random words. -/
structure Generator where
  key     : Vector UInt32 8
  /-- The number of the next block. -/
  block   : UInt64
  /-- What is left of the current block. -/
  pending : List UInt64
deriving DecidableEq

namespace Generator

/-- One step of the seed. -/
def seedStep (s : UInt64) : UInt64 := s * 6364136223846793005 + 11634580027462260723

/-- The key word of a stepped seed: its upper bits folded together and rotated by its top ones. -/
def seedWord (s : UInt64) : UInt32 :=
  let x := (((s >>> 18) ^^^ s) >>> 27).toUInt32
  let r := (s >>> 59).toUInt32
  if r == 0 then x else (x >>> r) ||| (x <<< (32 - r))

/-- The seed after `n` steps. -/
def seedAfter (s : UInt64) : Nat → UInt64
  | 0     => s
  | n + 1 => seedStep (seedAfter s n)

/-- The generator of a seed. -/
def ofSeed (seed : UInt64) : Generator where
  key     := Vector.ofFn fun i : Fin 8 => seedWord (seedAfter seed (i.val + 1))
  block   := 0
  pending := []

instance : Inhabited Generator := ⟨ofSeed 0⟩

/-- The eight words of block number `block`. -/
def blockWords (key : Vector UInt32 8) (block : UInt64) : List UInt64 :=
  joinWords (Square.start key block).mixed.toList

/-- The next word, and the generator after it. -/
def next (g : Generator) : UInt64 × Generator :=
  match g.pending with
  | w :: rest => (w, { g with pending := rest })
  | []        =>
    let words := blockWords g.key g.block
    (words.headD 0, { g with block := g.block + 1, pending := words.tail })

/-- The next `n` words. -/
def take : Nat → Generator → List UInt64
  | 0,     _ => []
  | n + 1, g => g.next.1 :: take n g.next.2

end Generator

end ProbTrace
