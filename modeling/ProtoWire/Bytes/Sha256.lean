import ProtoWire.Bytes.Basic

/-!
# SHA-256

The digest of a byte string: the padded string is cut into blocks of 64 bytes,
and each block is mixed into a state of eight words by 64 rounds.
-/

set_option autoImplicit false

namespace ProtoWire.Sha256

/-- The state of the digest. -/
structure State where
  a : UInt32
  b : UInt32
  c : UInt32
  d : UInt32
  e : UInt32
  f : UInt32
  g : UInt32
  h : UInt32
  deriving DecidableEq, Repr

/-- The first 32 bits of the fractional parts of the cube roots of the first 64
primes. -/
def roundConstants : List UInt32 :=
  [0x428a2f98, 0x71374491, 0xb5c0fbcf, 0xe9b5dba5, 0x3956c25b, 0x59f111f1,
    0x923f82a4, 0xab1c5ed5, 0xd807aa98, 0x12835b01, 0x243185be, 0x550c7dc3,
    0x72be5d74, 0x80deb1fe, 0x9bdc06a7, 0xc19bf174, 0xe49b69c1, 0xefbe4786,
    0x0fc19dc6, 0x240ca1cc, 0x2de92c6f, 0x4a7484aa, 0x5cb0a9dc, 0x76f988da,
    0x983e5152, 0xa831c66d, 0xb00327c8, 0xbf597fc7, 0xc6e00bf3, 0xd5a79147,
    0x06ca6351, 0x14292967, 0x27b70a85, 0x2e1b2138, 0x4d2c6dfc, 0x53380d13,
    0x650a7354, 0x766a0abb, 0x81c2c92e, 0x92722c85, 0xa2bfe8a1, 0xa81a664b,
    0xc24b8b70, 0xc76c51a3, 0xd192e819, 0xd6990624, 0xf40e3585, 0x106aa070,
    0x19a4c116, 0x1e376c08, 0x2748774c, 0x34b0bcb5, 0x391c0cb3, 0x4ed8aa4a,
    0x5b9cca4f, 0x682e6ff3, 0x748f82ee, 0x78a5636f, 0x84c87814, 0x8cc70208,
    0x90befffa, 0xa4506ceb, 0xbef9a3f7, 0xc67178f2]

/-- The first 32 bits of the fractional parts of the square roots of the first
eight primes. -/
def initial : State :=
  ⟨0x6a09e667, 0xbb67ae85, 0x3c6ef372, 0xa54ff53a,
    0x510e527f, 0x9b05688c, 0x1f83d9ab, 0x5be0cd19⟩

def rotateRight (x n : UInt32) : UInt32 :=
  (x >>> n) ||| (x <<< (32 - n))

/-- The number that four bytes denote, most significant first. -/
def word (bytes : Bytes) : UInt32 :=
  bytes.foldl (fun n byte => (n <<< 8) ||| byte.toUInt32) 0

/-- The four bytes of a word, most significant first. -/
def wordBytes (n : UInt32) : Bytes :=
  [(n >>> 24).toUInt8, (n >>> 16).toUInt8, (n >>> 8).toUInt8, n.toUInt8]

/-- Cuts a list into pieces of a positive length, of which there are at most
`limit`. -/
def chunks {α : Type} (length : Nat) : Nat → List α → List (List α)
  | 0, _ => []
  | _, [] => []
  | limit + 1, xs => xs.take length :: chunks length limit (xs.drop length)

/-- Appends a one bit, zeros, and the length in bits, to a multiple of 64 bytes. -/
def pad (bytes : Bytes) : Bytes :=
  let zeros := (119 - bytes.length % 64) % 64
  bytes ++ 0x80 :: List.replicate zeros 0 ++
    (Bytes.littleEndian 8 (8 * bytes.length)).reverse

/-- Extends the words of a block, given in reverse, by as many as are wanted. -/
def expand : Nat → List UInt32 → List UInt32
  | 0, words => words
  | count + 1, words =>
      let at_ (n : Nat) : UInt32 := words.getD n 0
      let x := at_ 14
      let y := at_ 1
      let s := rotateRight x 7 ^^^ rotateRight x 18 ^^^ (x >>> 3)
      let t := rotateRight y 17 ^^^ rotateRight y 19 ^^^ (y >>> 10)
      expand count ((at_ 15 + s + at_ 6 + t) :: words)

/-- One round, with its constant and word. -/
def round (state : State) (entry : UInt32 × UInt32) : State :=
  let ⟨a, b, c, d, e, f, g, h⟩ := state
  let s := rotateRight e 6 ^^^ rotateRight e 11 ^^^ rotateRight e 25
  let choice := (e &&& f) ^^^ (~~~e &&& g)
  let first := h + s + choice + entry.1 + entry.2
  let t := rotateRight a 2 ^^^ rotateRight a 13 ^^^ rotateRight a 22
  let majority := (a &&& b) ^^^ (a &&& c) ^^^ (b &&& c)
  ⟨first + (t + majority), a, b, c, d + first, e, f, g⟩

/-- Mixes a block into the state. -/
def mix (state : State) (block : Bytes) : State :=
  let words := (expand 48 ((chunks 4 16 block).map word).reverse).reverse
  let mixed := (roundConstants.zip words).foldl round state
  ⟨state.a + mixed.a, state.b + mixed.b, state.c + mixed.c, state.d + mixed.d,
    state.e + mixed.e, state.f + mixed.f, state.g + mixed.g, state.h + mixed.h⟩

/-- The digest of a byte string, 32 bytes. -/
def digest (bytes : Bytes) : Bytes :=
  let padded := pad bytes
  let ⟨a, b, c, d, e, f, g, h⟩ := (chunks 64 (padded.length / 64) padded).foldl mix initial
  [a, b, c, d, e, f, g, h].flatMap wordBytes

end ProtoWire.Sha256
