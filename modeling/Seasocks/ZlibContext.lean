import Seasocks.Bytes

/-!
# The compression context

`ZlibContext.cpp`. zlib is a parameter: what a call of `::deflate` or `::inflate` with `Z_SYNC_FLUSH`
returns, takes and writes. The loops end when zlib leaves room in the buffer; `none` is a loop that has
not ended after so many turns.
-/

namespace Seasocks

/-- The return codes of zlib that are told apart. -/
inductive ZlibRet where
  | ok
  | streamEnd
  | bufError
  | error (code : Int)
deriving DecidableEq, Repr

/-- What a call leaves: the stream, the input it has not taken, and what it wrote. -/
structure ZlibCall (Stream : Type) where
  ret : ZlibRet
  stream : Stream
  nextIn : Bytes
  out : Bytes

/-- The streams that `deflateInit2` and `inflateInit2` set up, and the calls with an input and so much room
for output. -/
structure Zlib where
  Deflater : Type
  Inflater : Type
  deflateInit : Deflater
  inflateInit : Inflater
  deflate : Deflater → Bytes → Nat → ZlibCall Deflater
  inflate : Inflater → Bytes → Nat → ZlibCall Inflater

structure ZlibContext (z : Zlib) where
  deflateStream : z.Deflater
  inflateStream : z.Inflater

namespace ZlibContext

def bufferSize : Nat := 16384

def tailEnd : Bytes := [0x00, 0x00, 0xff, 0xff]

/-- `next_in` with `avail_in`, which is an `unsigned int`. -/
def available (input : Bytes) : Bytes := input.take (input.length % 2 ^ 32)

variable {z : Zlib}

def initialise (z : Zlib) : ZlibContext z := ⟨z.deflateInit, z.inflateInit⟩

/-- The loop of `deflate`. The error is the exception it throws. -/
def deflateLoop : Nat → z.Deflater → Bytes → Bytes → Option (Except ZlibRet (z.Deflater × Bytes))
  | 0, _, _, _ => none
  | fuel + 1, stream, nextIn, output =>
      let call := z.deflate stream nextIn bufferSize
      if call.ret ≠ .ok ∧ call.ret ≠ .bufError then
        some (.error call.ret)
      else if bufferSize - call.out.length = 0 then
        deflateLoop fuel call.stream call.nextIn (output ++ call.out)
      else
        some (.ok (call.stream, output ++ call.out))

/-- The end of `deflate`. -/
def withoutTail (output : Bytes) : Bytes :=
  if output.length < 5 ∨ output.drop (output.length - 4) ≠ tailEnd then output ++ [0x00]
  else output.take (output.length - 4)

def deflate (fuel : Nat) (context : ZlibContext z) (input output : Bytes) :
    Option (Except ZlibRet (ZlibContext z × Bytes)) :=
  if 0 < input.length then
    match deflateLoop fuel context.deflateStream (available input) output with
    | none => none
    | some (.error ret) => some (.error ret)
    | some (.ok (stream, output)) =>
        some (.ok ({ context with deflateStream := stream }, withoutTail output))
  else
    some (.ok (context, withoutTail output))

/-- The loop of `inflate`. A return code is the `zlibError` of a loop that returns false. -/
def inflateLoop : Nat → z.Inflater → Bytes → Bytes → Option (z.Inflater × Bytes × Option ZlibRet)
  | 0, _, _, _ => none
  | fuel + 1, stream, nextIn, output =>
      let call := z.inflate stream nextIn bufferSize
      if call.ret ≠ .ok ∧ call.ret ≠ .streamEnd ∧ call.ret ≠ .bufError then
        some (call.stream, output, some call.ret)
      else if bufferSize - call.out.length = 0 then
        inflateLoop fuel call.stream call.nextIn (output ++ call.out)
      else
        some (call.stream, output ++ call.out, none)

def inflate (fuel : Nat) (context : ZlibContext z) (input output : Bytes) :
    Option (ZlibContext z × Bytes × Option ZlibRet) :=
  match inflateLoop fuel context.inflateStream (available (input ++ tailEnd)) output with
  | none => none
  | some (stream, output, zlibError) =>
      some ({ context with inflateStream := stream }, output, zlibError)

end ZlibContext

end Seasocks
