import StylePrune.Text.Hex

/-!
# SHA-256

`digest` is the SHA-256 hash of a list of octets, written with sixty-four hexadecimal digits.  The
message is padded to whole blocks of sixty-four octets; each block is stretched to sixty-four
words, and as many rounds mix them into a state of eight words.
-/

namespace StylePrune.Digest.Sha256

/-- The constants of the rounds. -/
def roundConstants : List UInt32 :=
  [0x428a2f98, 0x71374491, 0xb5c0fbcf, 0xe9b5dba5, 0x3956c25b, 0x59f111f1, 0x923f82a4, 0xab1c5ed5,
   0xd807aa98, 0x12835b01, 0x243185be, 0x550c7dc3, 0x72be5d74, 0x80deb1fe, 0x9bdc06a7, 0xc19bf174,
   0xe49b69c1, 0xefbe4786, 0x0fc19dc6, 0x240ca1cc, 0x2de92c6f, 0x4a7484aa, 0x5cb0a9dc, 0x76f988da,
   0x983e5152, 0xa831c66d, 0xb00327c8, 0xbf597fc7, 0xc6e00bf3, 0xd5a79147, 0x06ca6351, 0x14292967,
   0x27b70a85, 0x2e1b2138, 0x4d2c6dfc, 0x53380d13, 0x650a7354, 0x766a0abb, 0x81c2c92e, 0x92722c85,
   0xa2bfe8a1, 0xa81a664b, 0xc24b8b70, 0xc76c51a3, 0xd192e819, 0xd6990624, 0xf40e3585, 0x106aa070,
   0x19a4c116, 0x1e376c08, 0x2748774c, 0x34b0bcb5, 0x391c0cb3, 0x4ed8aa4a, 0x5b9cca4f, 0x682e6ff3,
   0x748f82ee, 0x78a5636f, 0x84c87814, 0x8cc70208, 0x90befffa, 0xa4506ceb, 0xbef9a3f7, 0xc67178f2]

/-- The eight words of a state. -/
structure State where
  (a b c d e f g h : UInt32)
  deriving DecidableEq, Repr

/-- The state before the first block. -/
def State.start : State :=
  ⟨0x6a09e667, 0xbb67ae85, 0x3c6ef372, 0xa54ff53a, 0x510e527f, 0x9b05688c, 0x1f83d9ab, 0x5be0cd19⟩

/-- The word-wise sum of two states. -/
def State.add (s t : State) : State :=
  ⟨s.a + t.a, s.b + t.b, s.c + t.c, s.d + t.d, s.e + t.e, s.f + t.f, s.g + t.g, s.h + t.h⟩

/-- The words of a state in order. -/
def State.words (s : State) : List UInt32 := [s.a, s.b, s.c, s.d, s.e, s.f, s.g, s.h]

/-- A word turned to the right by `n` bits. -/
def rotate (x : UInt32) (n : UInt32) : UInt32 := (x >>> n) ||| (x <<< (32 - n))

/-- The state after a round with the given constant and word. -/
def State.round (s : State) (k w : UInt32) : State :=
  let mixed := rotate s.e 6 ^^^ rotate s.e 11 ^^^ rotate s.e 25
  let chosen := (s.e &&& s.f) ^^^ (~~~s.e &&& s.g)
  let first := s.h + mixed + chosen + k + w
  let turned := rotate s.a 2 ^^^ rotate s.a 13 ^^^ rotate s.a 22
  let majority := (s.a &&& s.b) ^^^ (s.a &&& s.c) ^^^ (s.b &&& s.c)
  ⟨first + (turned + majority), s.a, s.b, s.c, s.d + first, s.e, s.f, s.g⟩

/-- The next word of a schedule whose words are given newest first. -/
def nextWord (newest : List UInt32) : UInt32 :=
  let word (i : Nat) : UInt32 := newest.getD i 0
  let low := rotate (word 14) 7 ^^^ rotate (word 14) 18 ^^^ (word 14 >>> 3)
  let high := rotate (word 1) 17 ^^^ rotate (word 1) 19 ^^^ (word 1 >>> 10)
  word 15 + low + word 6 + high

/-- A schedule, newest word first, with `n` more words. -/
def stretch : Nat → List UInt32 → List UInt32
  | 0, newest => newest
  | n + 1, newest => stretch n (nextWord newest :: newest)

/-- The big-endian words that octets spell, four octets to a word. -/
def wordsOf : List UInt8 → List UInt32
  | a :: b :: c :: d :: rest =>
    (a.toUInt32 <<< 24 ||| b.toUInt32 <<< 16 ||| c.toUInt32 <<< 8 ||| d.toUInt32) :: wordsOf rest
  | _ => []

/-- The state after a block of octets. -/
def State.block (s : State) (bytes : List UInt8) : State :=
  let schedule := (stretch 48 (wordsOf bytes).reverse).reverse
  s.add ((roundConstants.zip schedule).foldl (fun s (k, w) => s.round k w) s)

/-- The big-endian octets of a number of `n` octets. -/
def bigEndian : Nat → Nat → List UInt8
  | 0, _ => []
  | n + 1, x => bigEndian n (x / 256) ++ [UInt8.ofNat (x % 256)]

/-- The message with a one bit, zeros and its length in bits behind it. -/
def padded (bytes : List UInt8) : List UInt8 :=
  bytes ++ 0x80 :: List.replicate ((119 - bytes.length % 64) % 64) 0
    ++ bigEndian 8 (8 * bytes.length)

/-- The state after the first `n` blocks of a padded message. -/
def State.blocks : Nat → State → List UInt8 → State
  | 0, s, _ => s
  | n + 1, s, bytes => blocks n (s.block (bytes.take 64)) (bytes.drop 64)

/-- The hash of a message in hexadecimal digits. -/
def digest (bytes : List UInt8) : String :=
  let message := padded bytes
  let final := State.blocks (message.length / 64) .start message
  String.ofList (final.words.flatMap fun w => Text.hex 8 w.toNat)

end StylePrune.Digest.Sha256
