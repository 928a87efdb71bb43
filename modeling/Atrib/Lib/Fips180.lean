import Mathlib.Algebra.Group.Nat.Defs
import Mathlib.Data.List.Basic
import Mathlib.Data.List.GetD

/-!
# SHA-256, as FIPS 180-4 defines it

Words are natural numbers below `2 ^ 32` rather than a fixed-width type, so
that the kernel evaluates a digest with its own arithmetic. The message
schedule grows at its head, where the four words the next one is made of are
at fixed places.
-/

namespace Atrib.Lib.Fips180

/-- A 32-bit word of a sum. -/
def word (x : ℕ) : ℕ := x % 0x100000000

def rotr (n x : ℕ) : ℕ := word (x >>> n ||| x <<< (32 - n))

/-- The sixty-four round constants (section 4.2.2). -/
def roundConstants : List ℕ := [
  0x428a2f98, 0x71374491, 0xb5c0fbcf, 0xe9b5dba5, 0x3956c25b, 0x59f111f1, 0x923f82a4, 0xab1c5ed5,
  0xd807aa98, 0x12835b01, 0x243185be, 0x550c7dc3, 0x72be5d74, 0x80deb1fe, 0x9bdc06a7, 0xc19bf174,
  0xe49b69c1, 0xefbe4786, 0x0fc19dc6, 0x240ca1cc, 0x2de92c6f, 0x4a7484aa, 0x5cb0a9dc, 0x76f988da,
  0x983e5152, 0xa831c66d, 0xb00327c8, 0xbf597fc7, 0xc6e00bf3, 0xd5a79147, 0x06ca6351, 0x14292967,
  0x27b70a85, 0x2e1b2138, 0x4d2c6dfc, 0x53380d13, 0x650a7354, 0x766a0abb, 0x81c2c92e, 0x92722c85,
  0xa2bfe8a1, 0xa81a664b, 0xc24b8b70, 0xc76c51a3, 0xd192e819, 0xd6990624, 0xf40e3585, 0x106aa070,
  0x19a4c116, 0x1e376c08, 0x2748774c, 0x34b0bcb5, 0x391c0cb3, 0x4ed8aa4a, 0x5b9cca4f, 0x682e6ff3,
  0x748f82ee, 0x78a5636f, 0x84c87814, 0x8cc70208, 0x90befffa, 0xa4506ceb, 0xbef9a3f7, 0xc67178f2]

/-- The eight working variables. -/
structure Working where
  a : ℕ
  b : ℕ
  c : ℕ
  d : ℕ
  e : ℕ
  f : ℕ
  g : ℕ
  h : ℕ

/-- The initial hash value (section 5.3.3). -/
def initial : Working :=
  ⟨0x6a09e667, 0xbb67ae85, 0x3c6ef372, 0xa54ff53a, 0x510e527f, 0x9b05688c, 0x1f83d9ab,
    0x5be0cd19⟩

def bigSigma0 (x : ℕ) : ℕ := rotr 2 x ^^^ rotr 13 x ^^^ rotr 22 x

def bigSigma1 (x : ℕ) : ℕ := rotr 6 x ^^^ rotr 11 x ^^^ rotr 25 x

def smallSigma0 (x : ℕ) : ℕ := rotr 7 x ^^^ rotr 18 x ^^^ x >>> 3

def smallSigma1 (x : ℕ) : ℕ := rotr 17 x ^^^ rotr 19 x ^^^ x >>> 10

def ch (x y z : ℕ) : ℕ := (x &&& y) ^^^ ((0xffffffff ^^^ x) &&& z)

def maj (x y z : ℕ) : ℕ := (x &&& y) ^^^ (x &&& z) ^^^ (y &&& z)

/-- The message schedule, latest word first: `n` words more than `w`. -/
def schedule : ℕ → List ℕ → List ℕ
  | 0, w => w
  | n + 1, w =>
      schedule n
        (word (smallSigma1 (w.getD 1 0) + w.getD 6 0 + smallSigma0 (w.getD 14 0) +
          w.getD 15 0) :: w)

def round (s : Working) (k w : ℕ) : Working :=
  let t₁ := s.h + bigSigma1 s.e + ch s.e s.f s.g + k + w
  let t₂ := bigSigma0 s.a + maj s.a s.b s.c
  ⟨word (t₁ + t₂), s.a, s.b, s.c, word (s.d + t₁), s.e, s.f, s.g⟩

def rounds : List ℕ → List ℕ → Working → Working
  | k :: ks, w :: ws, s => rounds ks ws (round s k w)
  | _, _, s => s

def compress (s : Working) (block : List ℕ) : Working :=
  let t := rounds roundConstants (schedule 48 block.reverse).reverse s
  ⟨word (s.a + t.a), word (s.b + t.b), word (s.c + t.c), word (s.d + t.d),
    word (s.e + t.e), word (s.f + t.f), word (s.g + t.g), word (s.h + t.h)⟩

/-- The first `n` big-endian words of a byte string. -/
def words : ℕ → List ℕ → List ℕ
  | n + 1, a :: b :: c :: d :: rest => (((a * 256 + b) * 256 + c) * 256 + d) :: words n rest
  | _, _ => []

/-- A one bit, zeros up to eight bytes short of a block, the length in bits. -/
def pad (message : List ℕ) : List ℕ :=
  message ++ [0x80] ++ List.replicate ((119 - message.length % 64) % 64) 0 ++
    (List.range 8).reverse.map fun i => message.length * 8 / 256 ^ i % 256

def blocks : ℕ → List ℕ → Working → Working
  | 0, _, s => s
  | n + 1, bytes, s => blocks n (bytes.drop 64) (compress s (words 16 (bytes.take 64)))

/-- A word as four bytes, most significant first. -/
def bigEndian (x : ℕ) : List UInt8 :=
  [x / 0x1000000 % 256, x / 0x10000 % 256, x / 0x100 % 256, x % 256].map UInt8.ofNat

/-- The SHA-256 digest of a byte string. -/
def sha256 (message : List UInt8) : List UInt8 :=
  let padded := pad (message.map UInt8.toNat)
  let s := blocks (padded.length / 64) padded initial
  bigEndian s.a ++ bigEndian s.b ++ bigEndian s.c ++ bigEndian s.d ++
    bigEndian s.e ++ bigEndian s.f ++ bigEndian s.g ++ bigEndian s.h

theorem length_sha256 (message : List UInt8) : (sha256 message).length = 32 := by
  simp [sha256, bigEndian]

/-- The one-block test vector of the standard, the digest of "abc". -/
example : sha256 [0x61, 0x62, 0x63] =
    [0xba, 0x78, 0x16, 0xbf, 0x8f, 0x01, 0xcf, 0xea, 0x41, 0x41, 0x40, 0xde, 0x5d, 0xae,
      0x22, 0x23, 0xb0, 0x03, 0x61, 0xa3, 0x96, 0x17, 0x7a, 0x9c, 0xb4, 0x10, 0xff, 0x61,
      0xf2, 0x00, 0x15, 0xad] := by decide +kernel

end Atrib.Lib.Fips180
