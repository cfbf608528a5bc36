import Seasocks.Library.BlockHash

/-!
# SHA-1

The Secure Hash Standard of FIPS 180-1, for messages of whole bytes.
-/

namespace Fips180

structure Registers where
  a : UInt32
  b : UInt32
  c : UInt32
  d : UInt32
  e : UInt32
deriving DecidableEq, Repr

/-- The circular left shift `S^n`. -/
def rotateLeft (n x : UInt32) : UInt32 := (x <<< n) ||| (x >>> (32 - n))

/-- The function of a step. -/
def logical (t : ℕ) (b c d : UInt32) : UInt32 :=
  match t / 20 with
  | 0 => (b &&& c) ||| (~~~b &&& d)
  | 2 => (b &&& c) ||| (b &&& d) ||| (c &&& d)
  | _ => b ^^^ c ^^^ d

/-- The constant of a step. -/
def constant (t : ℕ) : UInt32 :=
  match t / 20 with
  | 0 => 0x5A827999
  | 1 => 0x6ED9EBA1
  | 2 => 0x8F1BBCDC
  | _ => 0xCA62C1D6

/-- A word of the block, high-order byte first. -/
def word (block : List UInt8) (t : ℕ) : UInt32 :=
  UInt32.ofNat (2 ^ 24 * (block.getD (4 * t) 0).toNat + 2 ^ 16 * (block.getD (4 * t + 1) 0).toNat
    + 2 ^ 8 * (block.getD (4 * t + 2) 0).toNat + (block.getD (4 * t + 3) 0).toNat)

/-- The sequence `W`. -/
def schedule (block : List UInt8) (t : ℕ) : UInt32 :=
  if t < 16 then
    word block t
  else
    rotateLeft 1 (schedule block (t - 3) ^^^ schedule block (t - 8) ^^^ schedule block (t - 14)
      ^^^ schedule block (t - 16))
termination_by t
decreasing_by all_goals omega

def step (block : List UInt8) (r : Registers) (t : ℕ) : Registers :=
  { a := rotateLeft 5 r.a + logical t r.b r.c r.d + r.e + schedule block t + constant t
    b := r.a
    c := rotateLeft 30 r.b
    d := r.c
    e := r.d }

def compress (r : Registers) (block : List UInt8) : Registers :=
  let r' := (List.range 80).foldl (step block) r
  { a := r.a + r'.a
    b := r.b + r'.b
    c := r.c + r'.c
    d := r.d + r'.d
    e := r.e + r'.e }

def initial : Registers :=
  { a := 0x67452301
    b := 0xEFCDAB89
    c := 0x98BADCFE
    d := 0x10325476
    e := 0xC3D2E1F0 }

/-- A length in bits as a number of sixty-four bits, high-order byte first. -/
def lengthBytes (length : ℕ) : List UInt8 :=
  (List.range 8).map fun i => UInt8.ofNat (8 * length / 256 ^ (7 - i))

def padding : LengthPadding UInt8 where
  size := 64
  mark := 0x80
  zero := 0
  encode := lengthBytes
  encoded := 8
  size_pos := by decide
  length_encode length := by rw [lengthBytes, List.length_map, List.length_range]

def sha1 : BlockHash Registers UInt8 where
  size := 64
  initial := initial
  compress := compress
  padding := padding.padding
  size_pos := by decide
  size_dvd := padding.size_dvd

def wordBytes (x : UInt32) : List UInt8 :=
  (List.range 4).map fun i => UInt8.ofNat (x.toNat / 256 ^ (3 - i))

/-- The digest of a message, high-order byte first. -/
def digest (message : List UInt8) : List UInt8 :=
  let r := sha1.hash message
  wordBytes r.a ++ wordBytes r.b ++ wordBytes r.c ++ wordBytes r.d ++ wordBytes r.e

end Fips180
