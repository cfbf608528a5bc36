import Mathlib.Algebra.Ring.Nat
import Seasocks.Bytes

/-!
# MD5

`md5/md5.cpp`. On a little-endian machine the words of a block are read as they lie in memory, on a
big-endian one they are put together from their bytes; the model does the latter.
-/

namespace Seasocks

namespace Md5

/-- `md5_state_t::abcd`. -/
structure Words where
  a : UInt32
  b : UInt32
  c : UInt32
  d : UInt32
deriving DecidableEq, Repr

def tMask : UInt32 := ~~~0

/-- `T1` to `T64`. -/
def constants : List UInt32 :=
  [tMask ^^^ 0x28955b87, tMask ^^^ 0x173848a9, 0x242070db, tMask ^^^ 0x3e423111,
    tMask ^^^ 0x0a83f050, 0x4787c62a, tMask ^^^ 0x57cfb9ec, tMask ^^^ 0x02b96afe, 0x698098d8,
    tMask ^^^ 0x74bb0850, tMask ^^^ 0x0000a44e, tMask ^^^ 0x76a32841, 0x6b901122,
    tMask ^^^ 0x02678e6c, tMask ^^^ 0x5986bc71, 0x49b40821, tMask ^^^ 0x09e1da9d,
    tMask ^^^ 0x3fbf4cbf, 0x265e5a51, tMask ^^^ 0x16493855, tMask ^^^ 0x29d0efa2, 0x02441453,
    tMask ^^^ 0x275e197e, tMask ^^^ 0x182c0437, 0x21e1cde6, tMask ^^^ 0x3cc8f829,
    tMask ^^^ 0x0b2af278, 0x455a14ed, tMask ^^^ 0x561c16fa, tMask ^^^ 0x03105c07, 0x676f02d9,
    tMask ^^^ 0x72d5b375, tMask ^^^ 0x0005c6bd, tMask ^^^ 0x788e097e, 0x6d9d6122,
    tMask ^^^ 0x021ac7f3, tMask ^^^ 0x5b4115bb, 0x4bdecfa9, tMask ^^^ 0x0944b49f,
    tMask ^^^ 0x4140438f, 0x289b7ec6, tMask ^^^ 0x155ed805, tMask ^^^ 0x2b10cf7a, 0x04881d05,
    tMask ^^^ 0x262b2fc6, tMask ^^^ 0x1924661a, 0x1fa27cf8, tMask ^^^ 0x3b53a99a,
    tMask ^^^ 0x0bd6ddbb, 0x432aff97, tMask ^^^ 0x546bdc58, tMask ^^^ 0x036c5fc6, 0x655b59c3,
    tMask ^^^ 0x70f3336d, tMask ^^^ 0x00100b82, tMask ^^^ 0x7a7ba22e, 0x6fa87e4f,
    tMask ^^^ 0x01d3191f, tMask ^^^ 0x5cfebceb, 0x4e0811a1, tMask ^^^ 0x08ac817d,
    tMask ^^^ 0x42c50dca, 0x2ad7d2bb, tMask ^^^ 0x14792c6e]

def T (i : Nat) : UInt32 := constants.getD (i - 1) 0

def F (x y z : UInt32) : UInt32 := (x &&& y) ||| (~~~x &&& z)

def G (x y z : UInt32) : UInt32 := (x &&& z) ||| (y &&& ~~~z)

def H (x y z : UInt32) : UInt32 := x ^^^ y ^^^ z

def I (x y z : UInt32) : UInt32 := y ^^^ (x ||| ~~~z)

/-- `ROTATE_LEFT`. -/
def rotateLeft (x n : UInt32) : UInt32 := (x <<< n) ||| (x >>> (32 - n))

/-- `X[k]`. -/
def X (data : Bytes) (k : Nat) : UInt32 :=
  (data.getD (4 * k) 0).toUInt32 + ((data.getD (4 * k + 1) 0).toUInt32 <<< 8)
    + ((data.getD (4 * k + 2) 0).toUInt32 <<< 16) + ((data.getD (4 * k + 3) 0).toUInt32 <<< 24)

/-- `SET`, with the function its round uses; the first register is assigned. -/
def set (f : UInt32 → UInt32 → UInt32 → UInt32) (X : Nat → UInt32) (a b c d : UInt32) (k : Nat)
    (s Ti : UInt32) : UInt32 :=
  let t := a + f b c d + X k + Ti
  rotateLeft t s + b

section

variable (f : UInt32 → UInt32 → UInt32 → UInt32) (X : Nat → UInt32) (k : Nat) (s Ti : UInt32)

def setA (w : Words) : Words := { w with a := set f X w.a w.b w.c w.d k s Ti }

def setD (w : Words) : Words := { w with d := set f X w.d w.a w.b w.c k s Ti }

def setC (w : Words) : Words := { w with c := set f X w.c w.d w.a w.b k s Ti }

def setB (w : Words) : Words := { w with b := set f X w.b w.c w.d w.a k s Ti }

end

def round1 (X : Nat → UInt32) (w : Words) : Words :=
  let w := setA F X 0 7 (T 1) w
  let w := setD F X 1 12 (T 2) w
  let w := setC F X 2 17 (T 3) w
  let w := setB F X 3 22 (T 4) w
  let w := setA F X 4 7 (T 5) w
  let w := setD F X 5 12 (T 6) w
  let w := setC F X 6 17 (T 7) w
  let w := setB F X 7 22 (T 8) w
  let w := setA F X 8 7 (T 9) w
  let w := setD F X 9 12 (T 10) w
  let w := setC F X 10 17 (T 11) w
  let w := setB F X 11 22 (T 12) w
  let w := setA F X 12 7 (T 13) w
  let w := setD F X 13 12 (T 14) w
  let w := setC F X 14 17 (T 15) w
  let w := setB F X 15 22 (T 16) w
  w

def round2 (X : Nat → UInt32) (w : Words) : Words :=
  let w := setA G X 1 5 (T 17) w
  let w := setD G X 6 9 (T 18) w
  let w := setC G X 11 14 (T 19) w
  let w := setB G X 0 20 (T 20) w
  let w := setA G X 5 5 (T 21) w
  let w := setD G X 10 9 (T 22) w
  let w := setC G X 15 14 (T 23) w
  let w := setB G X 4 20 (T 24) w
  let w := setA G X 9 5 (T 25) w
  let w := setD G X 14 9 (T 26) w
  let w := setC G X 3 14 (T 27) w
  let w := setB G X 8 20 (T 28) w
  let w := setA G X 13 5 (T 29) w
  let w := setD G X 2 9 (T 30) w
  let w := setC G X 7 14 (T 31) w
  let w := setB G X 12 20 (T 32) w
  w

def round3 (X : Nat → UInt32) (w : Words) : Words :=
  let w := setA H X 5 4 (T 33) w
  let w := setD H X 8 11 (T 34) w
  let w := setC H X 11 16 (T 35) w
  let w := setB H X 14 23 (T 36) w
  let w := setA H X 1 4 (T 37) w
  let w := setD H X 4 11 (T 38) w
  let w := setC H X 7 16 (T 39) w
  let w := setB H X 10 23 (T 40) w
  let w := setA H X 13 4 (T 41) w
  let w := setD H X 0 11 (T 42) w
  let w := setC H X 3 16 (T 43) w
  let w := setB H X 6 23 (T 44) w
  let w := setA H X 9 4 (T 45) w
  let w := setD H X 12 11 (T 46) w
  let w := setC H X 15 16 (T 47) w
  let w := setB H X 2 23 (T 48) w
  w

def round4 (X : Nat → UInt32) (w : Words) : Words :=
  let w := setA I X 0 6 (T 49) w
  let w := setD I X 7 10 (T 50) w
  let w := setC I X 14 15 (T 51) w
  let w := setB I X 5 21 (T 52) w
  let w := setA I X 12 6 (T 53) w
  let w := setD I X 3 10 (T 54) w
  let w := setC I X 10 15 (T 55) w
  let w := setB I X 1 21 (T 56) w
  let w := setA I X 8 6 (T 57) w
  let w := setD I X 15 10 (T 58) w
  let w := setC I X 6 15 (T 59) w
  let w := setB I X 13 21 (T 60) w
  let w := setA I X 4 6 (T 61) w
  let w := setD I X 11 10 (T 62) w
  let w := setC I X 2 15 (T 63) w
  let w := setB I X 9 21 (T 64) w
  w

end Md5

open Md5

def md5Process (abcd : Words) (data : Bytes) : Words :=
  let w := round4 (X data) (round3 (X data) (round2 (X data) (round1 (X data) abcd)))
  { a := abcd.a + w.a
    b := abcd.b + w.b
    c := abcd.c + w.c
    d := abcd.d + w.d }

/-- `md5_state_t`. -/
structure Md5State where
  count0 : UInt32
  count1 : UInt32
  abcd : Words
  buf : Bytes
deriving DecidableEq, Repr

def md5Init (pms : Md5State) : Md5State :=
  { pms with
    count0 := 0
    count1 := 0
    abcd :=
      { a := 0x67452301
        b := tMask ^^^ 0x10325476
        c := tMask ^^^ 0x67452301
        d := 0x10325476 } }

/-- `memcpy` into the buffer. -/
def memcpy (buf : Bytes) (offset : Nat) (data : Bytes) : Bytes :=
  buf.take offset ++ data ++ buf.drop (offset + data.length)

/-- The last two parts of `md5_append`: the full blocks, and what is left behind them. -/
def md5AppendBlocks (pms : Md5State) (p : Bytes) : Md5State :=
  if 64 ≤ p.length then
    md5AppendBlocks { pms with abcd := md5Process pms.abcd (p.take 64) } (p.drop 64)
  else if p ≠ [] then
    { pms with buf := memcpy pms.buf 0 p }
  else
    pms
termination_by p.length
decreasing_by
  rw [List.length_drop]
  omega

/-- The update of the message length. -/
def updateCount (pms : Md5State) (nbytes : Nat) : Md5State :=
  let nbits := UInt32.ofNat (nbytes <<< 3)
  let count1 := pms.count1 + UInt32.ofNat (nbytes >>> 29)
  let count0 := pms.count0 + nbits
  { pms with
    count0 := count0
    count1 := if count0 < nbits then count1 + 1 else count1 }

/-- The `int`s that `md5_append` computes: `nbytes << 3`, which is not less than `nbytes`, and
`offset + nbytes`. -/
def Md5State.IntsFit (pms : Md5State) (data : Bytes) : Prop :=
  data.length <<< 3 < 2 ^ 31 ∧ ((pms.count0 >>> 3) &&& 63).toNat + data.length < 2 ^ 31

/-- `md5_append` where its `int`s do not overflow; `nbytes` is the length of the data. -/
def md5Append (pms : Md5State) (data : Bytes) : Md5State :=
  let nbytes := data.length
  let offset := ((pms.count0 >>> 3) &&& 63).toNat
  if nbytes = 0 then
    pms
  else
    let pms := updateCount pms nbytes
    if offset ≠ 0 then
      let copy := if offset + nbytes > 64 then 64 - offset else nbytes
      let pms := { pms with buf := memcpy pms.buf offset (data.take copy) }
      if offset + copy < 64 then
        pms
      else
        md5AppendBlocks { pms with abcd := md5Process pms.abcd pms.buf } (data.drop copy)
    else
      md5AppendBlocks pms data

def md5Pad : Bytes := 0x80 :: List.replicate 63 0

/-- `x[i >> 2] >> ((i & 3) << 3)` for the bytes `i` of one word. -/
def wordBytes (x : UInt32) : Bytes :=
  [x.toUInt8, (x >>> 8).toUInt8, (x >>> 16).toUInt8, (x >>> 24).toUInt8]

def md5Finish (pms : Md5State) : Bytes :=
  let data := wordBytes pms.count0 ++ wordBytes pms.count1
  let pms := md5Append pms (md5Pad.take ((((55 : UInt32) - (pms.count0 >>> 3)) &&& 63) + 1).toNat)
  let pms := md5Append pms data
  wordBytes pms.abcd.a ++ wordBytes pms.abcd.b ++ wordBytes pms.abcd.c ++ wordBytes pms.abcd.d

end Seasocks
