import DevInsiderCoin.Codec.Bytes

/-! SHA-256 (FIPS 180-4), as `crypto/sha256.Sum256` computes it, and `SHA256d`.

The node only ever hashes and compares digests; no proof evaluates this function.
What the proofs use is that a digest has 32 bytes.
-/

set_option autoImplicit false

namespace DevInsiderCoin.Sha256

def roundConstants : List UInt32 :=
  [0x428a2f98, 0x71374491, 0xb5c0fbcf, 0xe9b5dba5, 0x3956c25b, 0x59f111f1, 0x923f82a4, 0xab1c5ed5,
   0xd807aa98, 0x12835b01, 0x243185be, 0x550c7dc3, 0x72be5d74, 0x80deb1fe, 0x9bdc06a7, 0xc19bf174,
   0xe49b69c1, 0xefbe4786, 0x0fc19dc6, 0x240ca1cc, 0x2de92c6f, 0x4a7484aa, 0x5cb0a9dc, 0x76f988da,
   0x983e5152, 0xa831c66d, 0xb00327c8, 0xbf597fc7, 0xc6e00bf3, 0xd5a79147, 0x06ca6351, 0x14292967,
   0x27b70a85, 0x2e1b2138, 0x4d2c6dfc, 0x53380d13, 0x650a7354, 0x766a0abb, 0x81c2c92e, 0x92722c85,
   0xa2bfe8a1, 0xa81a664b, 0xc24b8b70, 0xc76c51a3, 0xd192e819, 0xd6990624, 0xf40e3585, 0x106aa070,
   0x19a4c116, 0x1e376c08, 0x2748774c, 0x34b0bcb5, 0x391c0cb3, 0x4ed8aa4a, 0x5b9cca4f, 0x682e6ff3,
   0x748f82ee, 0x78a5636f, 0x84c87814, 0x8cc70208, 0x90befffa, 0xa4506ceb, 0xbef9a3f7, 0xc67178f2]

structure Words where
  a : UInt32
  b : UInt32
  c : UInt32
  d : UInt32
  e : UInt32
  f : UInt32
  g : UInt32
  h : UInt32

def initial : Words :=
  ⟨0x6a09e667, 0xbb67ae85, 0x3c6ef372, 0xa54ff53a, 0x510e527f, 0x9b05688c, 0x1f83d9ab, 0x5be0cd19⟩

def rotr (x n : UInt32) : UInt32 := (x >>> n) ||| (x <<< (32 - n))

def round (s : Words) (k w : UInt32) : Words :=
  let t1 := s.h + (rotr s.e 6 ^^^ rotr s.e 11 ^^^ rotr s.e 25) + ((s.e &&& s.f) ^^^ (~~~s.e &&& s.g)) + k + w
  let t2 := (rotr s.a 2 ^^^ rotr s.a 13 ^^^ rotr s.a 22) + ((s.a &&& s.b) ^^^ (s.a &&& s.c) ^^^ (s.b &&& s.c))
  ⟨t1 + t2, s.a, s.b, s.c, s.d + t1, s.e, s.f, s.g⟩

def word (bytes : List UInt8) : UInt32 := (bytesToNat bytes).toUInt32

/-- The message schedule of a 64-byte block: its 16 words, extended to 64. -/
def schedule (block : List UInt8) : Array UInt32 :=
  (List.range 48).foldl
    (fun w i =>
      let x := w[i + 1]!
      let y := w[i + 14]!
      let s0 := rotr x 7 ^^^ rotr x 18 ^^^ (x >>> 3)
      let s1 := rotr y 17 ^^^ rotr y 19 ^^^ (y >>> 10)
      w.push (w[i]! + s0 + w[i + 9]! + s1))
    ((List.range 16).map fun i => word ((block.drop (4 * i)).take 4)).toArray

def compress (s : Words) (block : List UInt8) : Words :=
  let r := (roundConstants.zip (schedule block).toList).foldl (fun r kw => round r kw.1 kw.2) s
  ⟨s.a + r.a, s.b + r.b, s.c + r.c, s.d + r.d, s.e + r.e, s.f + r.f, s.g + r.g, s.h + r.h⟩

/-- The message, a one bit, zeros, and the 64-bit bit length: a multiple of 64 bytes. -/
def pad (msg : List UInt8) : List UInt8 :=
  msg ++ [0x80] ++ List.replicate ((119 - msg.length % 64) % 64) 0 ++ putBE 8 (8 * msg.length)

/-- `sha256.Sum256`. -/
def sum256 (msg : List UInt8) : List UInt8 :=
  let padded := pad msg
  let s := ((List.range (padded.length / 64)).map fun i => (padded.drop (64 * i)).take 64).foldl compress initial
  [s.a, s.b, s.c, s.d, s.e, s.f, s.g, s.h].flatMap fun w => putBE 4 w.toNat

@[simp] theorem length_sum256 (msg : List UInt8) : (sum256 msg).length = 32 := by
  simp [sum256]

end Sha256

/-- `SHA256d`: SHA-256 applied twice. Proofs never run it: it is irreducible, so that a
digest stays a term and only its length is used. -/
@[irreducible] def sha256d (data : List UInt8) : List UInt8 := Sha256.sum256 (Sha256.sum256 data)

@[simp] theorem length_sha256d (data : List UInt8) : (sha256d data).length = 32 := by
  unfold sha256d
  exact Sha256.length_sum256 _

end DevInsiderCoin
