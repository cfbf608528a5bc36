import Seasocks.Library.BlockHash
import Seasocks.Library.WholeSines

/-!
# MD5

The message digest of RFC 1321, with its table as the RFC defines it.
-/

namespace Rfc1321

structure Registers where
  a : UInt32
  b : UInt32
  c : UInt32
  d : UInt32
deriving DecidableEq, Repr

def F (x y z : UInt32) : UInt32 := (x &&& y) ||| (~~~x &&& z)

def G (x y z : UInt32) : UInt32 := (x &&& z) ||| (y &&& ~~~z)

def H (x y z : UInt32) : UInt32 := x ^^^ y ^^^ z

def I (x y z : UInt32) : UInt32 := y ^^^ (x ||| ~~~z)

def rotateLeft (x s : UInt32) : UInt32 := (x <<< s) ||| (x >>> (32 - s))

/-- The table of the RFC, whose first element is `T 1`. -/
noncomputable def T (i : ℕ) : UInt32 := UInt32.ofNat ⌊4294967296 * |Real.sin i|⌋.toNat

/-! ### One step -/

/-- The auxiliary function of a step. -/
def auxiliary (i : ℕ) : UInt32 → UInt32 → UInt32 → UInt32 :=
  match i / 16 with
  | 0 => F
  | 1 => G
  | 2 => H
  | _ => I

/-- The word of the block a step takes. -/
def wordIndex (i : ℕ) : ℕ :=
  match i / 16 with
  | 0 => i
  | 1 => (5 * i + 1) % 16
  | 2 => (3 * i + 5) % 16
  | _ => 7 * i % 16

def shifts : List (List UInt32) :=
  [[7, 12, 17, 22], [5, 9, 14, 20], [4, 11, 16, 23], [6, 10, 15, 21]]

def shift (i : ℕ) : UInt32 := (shifts.getD (i / 16) []).getD (i % 4) 0

/-- A word of the block, low-order byte first. -/
def word (block : List UInt8) (k : ℕ) : UInt32 :=
  UInt32.ofNat ((block.getD (4 * k) 0).toNat + 2 ^ 8 * (block.getD (4 * k + 1) 0).toNat
    + 2 ^ 16 * (block.getD (4 * k + 2) 0).toNat + 2 ^ 24 * (block.getD (4 * k + 3) 0).toNat)

/-- `a = b + ((a + f(b,c,d) + x + t) <<< s)`, with the registers turned for the next step. -/
def turn (f : UInt32 → UInt32 → UInt32 → UInt32) (x s t : UInt32) (r : Registers) : Registers :=
  { a := r.d
    b := r.b + rotateLeft (r.a + f r.b r.c r.d + x + t) s
    c := r.b
    d := r.c }

noncomputable def step (block : List UInt8) (r : Registers) (i : ℕ) : Registers :=
  turn (auxiliary i) (word block (wordIndex i)) (shift i) (T (i + 1)) r

noncomputable def compress (r : Registers) (block : List UInt8) : Registers :=
  let r' := (List.range 64).foldl (step block) r
  { a := r.a + r'.a
    b := r.b + r'.b
    c := r.c + r'.c
    d := r.d + r'.d }

/-! ### Messages -/

def initial : Registers :=
  { a := 0x67452301
    b := 0xefcdab89
    c := 0x98badcfe
    d := 0x10325476 }

/-- The low-order sixty-four bits of a length in bits, low-order byte first. -/
def lengthBytes (length : ℕ) : List UInt8 :=
  (List.range 8).map fun i => UInt8.ofNat (8 * length % 2 ^ 64 / 256 ^ i)

def padding : LengthPadding UInt8 where
  size := 64
  mark := 0x80
  zero := 0
  encode := lengthBytes
  encoded := 8
  size_pos := Nat.zero_lt_succ 63
  length_encode length := by rw [lengthBytes, List.length_map, List.length_range]

noncomputable def md5 : BlockHash Registers UInt8 where
  size := 64
  initial := initial
  compress := compress
  padding := padding.padding
  size_pos := Nat.zero_lt_succ 63
  size_dvd := padding.size_dvd

/-- The bytes of a word, low-order byte first. -/
def wordBytes (x : UInt32) : List UInt8 :=
  (List.range 4).map fun i => UInt8.ofNat (x.toNat / 256 ^ i)

def output (r : Registers) : List UInt8 :=
  wordBytes r.a ++ wordBytes r.b ++ wordBytes r.c ++ wordBytes r.d

noncomputable def digest (message : List UInt8) : List UInt8 := output (md5.hash message)

end Rfc1321
