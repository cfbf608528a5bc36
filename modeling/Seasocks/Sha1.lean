import Mathlib.Algebra.Ring.Nat
import Seasocks.Bytes

/-!
# SHA-1

`sha1/sha1.cpp`. An `unsigned` has thirty-two bits, so that the masks with `0xFFFFFFFF` change nothing.
-/

namespace Seasocks

namespace Sha1

def circularShift (bits word : UInt32) : UInt32 :=
  ((word <<< bits) &&& 0xFFFFFFFF) ||| ((word &&& 0xFFFFFFFF) >>> (32 - bits))

/-- `H`, or the word buffers `A` to `E`. -/
structure Words where
  a : UInt32
  b : UInt32
  c : UInt32
  d : UInt32
  e : UInt32
deriving DecidableEq, Repr

/-- The first sixteen words of `W`. -/
def blockWords (messageBlock : Bytes) : List UInt32 :=
  (List.range 16).map fun t =>
    ((messageBlock.getD (t * 4) 0).toUInt32 <<< 24) ||| ((messageBlock.getD (t * 4 + 1) 0).toUInt32 <<< 16)
      ||| ((messageBlock.getD (t * 4 + 2) 0).toUInt32 <<< 8) ||| (messageBlock.getD (t * 4 + 3) 0).toUInt32

def extend (W : List UInt32) (t : Nat) : List UInt32 :=
  W ++ [circularShift 1 (W.getD (t - 3) 0 ^^^ W.getD (t - 8) 0 ^^^ W.getD (t - 14) 0 ^^^ W.getD (t - 16) 0)]

def wordSequence (messageBlock : Bytes) : List UInt32 :=
  (List.range' 16 64).foldl extend (blockWords messageBlock)

/-- A turn of one of the four loops, which differ in the function and the constant. -/
def turn (f : UInt32 → UInt32 → UInt32 → UInt32) (K : UInt32) (W : List UInt32) (w : Words) (t : Nat) :
    Words :=
  let temp := circularShift 5 w.a + f w.b w.c w.d + w.e + W.getD t 0 + K
  let temp := temp &&& 0xFFFFFFFF
  { a := temp
    b := w.a
    c := circularShift 30 w.b
    d := w.c
    e := w.d }

def loop1 (W : List UInt32) (w : Words) : Words :=
  (List.range' 0 20).foldl (turn (fun B C D => (B &&& C) ||| (~~~B &&& D)) 0x5A827999 W) w

def loop2 (W : List UInt32) (w : Words) : Words :=
  (List.range' 20 20).foldl (turn (fun B C D => B ^^^ C ^^^ D) 0x6ED9EBA1 W) w

def loop3 (W : List UInt32) (w : Words) : Words :=
  (List.range' 40 20).foldl (turn (fun B C D => (B &&& C) ||| (B &&& D) ||| (C &&& D)) 0x8F1BBCDC W) w

def loop4 (W : List UInt32) (w : Words) : Words :=
  (List.range' 60 20).foldl (turn (fun B C D => B ^^^ C ^^^ D) 0xCA62C1D6 W) w

end Sha1

open Sha1

/-- The members of a `SHA1`. -/
structure Sha1 where
  lengthLow : UInt32
  lengthHigh : UInt32
  messageBlock : Bytes
  messageBlockIndex : Nat
  computed : Bool
  corrupted : Bool
  h : Words
deriving DecidableEq, Repr

namespace Sha1

/-- `Reset`, which leaves the block as it is. -/
def reset (s : Sha1) : Sha1 :=
  { s with
    lengthLow := 0
    lengthHigh := 0
    messageBlockIndex := 0
    h :=
      { a := 0x67452301
        b := 0xEFCDAB89
        c := 0x98BADCFE
        d := 0x10325476
        e := 0xC3D2E1F0 }
    computed := false
    corrupted := false }

def processMessageBlock (s : Sha1) : Sha1 :=
  let W := wordSequence s.messageBlock
  let w := loop4 W (loop3 W (loop2 W (loop1 W s.h)))
  { s with
    h :=
      { a := (s.h.a + w.a) &&& 0xFFFFFFFF
        b := (s.h.b + w.b) &&& 0xFFFFFFFF
        c := (s.h.c + w.c) &&& 0xFFFFFFFF
        d := (s.h.d + w.d) &&& 0xFFFFFFFF
        e := (s.h.e + w.e) &&& 0xFFFFFFFF }
    messageBlockIndex := 0 }

/-- `Message_Block[Message_Block_Index++] = byte`. -/
def push (byte : UInt8) (s : Sha1) : Sha1 :=
  { s with
    messageBlock := s.messageBlock.set s.messageBlockIndex byte
    messageBlockIndex := s.messageBlockIndex + 1 }

/-- The length is counted in bits, and a message of `2 ^ 64` of them is too long. -/
def count (s : Sha1) : Sha1 :=
  let s := { s with lengthLow := (s.lengthLow + 8) &&& 0xFFFFFFFF }
  if s.lengthLow = 0 then
    let s := { s with lengthHigh := (s.lengthHigh + 1) &&& 0xFFFFFFFF }
    if s.lengthHigh = 0 then { s with corrupted := true } else s
  else
    s

/-- A turn of the loop of `Input`. -/
def inputByte (byte : UInt8) (s : Sha1) : Sha1 :=
  let s := count (push byte s)
  if s.messageBlockIndex = 64 then processMessageBlock s else s

def inputLoop : Bytes → Sha1 → Sha1
  | [], s => s
  | byte :: messageArray, s =>
      if s.corrupted then s else inputLoop messageArray (inputByte byte s)

/-- `Input`; `length`, an `unsigned`, is the length of the array. -/
def input (messageArray : Bytes) (s : Sha1) : Sha1 :=
  if messageArray = [] then
    s
  else if s.computed || s.corrupted then
    { s with corrupted := true }
  else
    inputLoop messageArray s

/-- `while (Message_Block_Index < last) Message_Block[Message_Block_Index++] = 0`. -/
def zeroUntil (last : Nat) (s : Sha1) : Sha1 :=
  if s.messageBlockIndex < last then zeroUntil last (push 0 s) else s
termination_by last - s.messageBlockIndex
decreasing_by
  change last - (s.messageBlockIndex + 1) < last - s.messageBlockIndex
  omega

def storeLength (s : Sha1) : Sha1 :=
  { s with
    messageBlock := s.messageBlock.take 56
      ++ [((s.lengthHigh >>> 24) &&& 0xFF).toUInt8, ((s.lengthHigh >>> 16) &&& 0xFF).toUInt8,
        ((s.lengthHigh >>> 8) &&& 0xFF).toUInt8, (s.lengthHigh &&& 0xFF).toUInt8,
        ((s.lengthLow >>> 24) &&& 0xFF).toUInt8, ((s.lengthLow >>> 16) &&& 0xFF).toUInt8,
        ((s.lengthLow >>> 8) &&& 0xFF).toUInt8, (s.lengthLow &&& 0xFF).toUInt8] }

def padMessage (s : Sha1) : Sha1 :=
  let s :=
    if s.messageBlockIndex > 55 then
      zeroUntil 56 (processMessageBlock (zeroUntil 64 (push 0x80 s)))
    else
      zeroUntil 56 (push 0x80 s)
  processMessageBlock (storeLength s)

/-- `Result`: the digest, `none` if the message is corrupted. -/
def result (s : Sha1) : Option Words × Sha1 :=
  if s.corrupted then
    (none, s)
  else
    let s := if s.computed then s else { padMessage s with computed := true }
    (some s.h, s)

/-- `operator<<` of a C string, which inputs its characters one by one. -/
def shiftLeft (messageArray : Bytes) (s : Sha1) : Sha1 :=
  (cString messageArray).foldl (fun s c => input [c] s) s

/-- A call of a member function. -/
inductive Op where
  | reset
  | input (messageArray : Bytes)
  | shiftLeft (messageArray : Bytes)
  | result
deriving DecidableEq, Repr

/-- What a call returns, if it returns anything. -/
def perform : Op → Sha1 → List (Option Words) × Sha1
  | .reset, s => ([], reset s)
  | .input messageArray, s => ([], input messageArray s)
  | .shiftLeft messageArray, s => ([], shiftLeft messageArray s)
  | .result, s => ([(result s).1], (result s).2)

def run : List Op → Sha1 → List (Option Words)
  | [], _ => []
  | op :: ops, s => (perform op s).1 ++ run ops (perform op s).2

end Sha1

end Seasocks
