import Seasocks.Ostream

/-!
# JSON

`Json.h` and `Json.cpp`. A value is written through `operator<<` to a `std::ostream`, whose flags outlive
the value that set them.
-/

namespace Seasocks

/-- One turn of the loop over the characters. -/
def jsonCharToStream (str : Ostream) (t : UInt8) : Ostream :=
  if t = 8 then str.put (ascii "\\b")
  else if t = 9 then str.put (ascii "\\t")
  else if t = 10 then str.put (ascii "\\n")
  else if t = 12 then str.put (ascii "\\f")
  else if t = 13 then str.put (ascii "\\r")
  else if t = 34 ∨ t = 92 then (str.put (ascii "\\")).put [t]
  else if 32 ≤ t then str.put [t]
  else ((((str.put (ascii "\\u")).setw 4).setfill 48).hex).putInteger 32 t.toNat

/-- `jsonToStream` of a `const char*`; the loop ends at the first NUL. -/
def jsonToStream (str : Ostream) (t : Bytes) : Ostream :=
  ((cString t).foldl jsonCharToStream (str.put (ascii "\""))).put (ascii "\"")

def jsonToStreamBool (str : Ostream) (b : Bool) : Ostream :=
  str.put (if b then ascii "true" else ascii "false")

/-- `jsonToStream` of a `std::string`, through its `c_str()`. -/
def jsonToStreamString (str : Ostream) (t : Bytes) : Ostream := jsonToStream str t

/-- An object with an `operator<<` that prints a text. -/
structure Streamable where
  text : Bytes
  print : Ostream → Ostream
  prints : ∀ str, str.width = 0 → (print str).written = str.written ++ text ∧ (print str).width = 0

/-- `jsonToStream` of an object without a method of that name. -/
def jsonToStreamObject (str : Ostream) (t : Streamable) : Ostream :=
  (t.print (str.put (ascii "\""))).put (ascii "\"")

/-! ### Maps and arrays -/

/-- A value of an integer type of this many bits, signed or not. -/
structure Integer where
  bits : Nat
  value : Int
  fits : -2 ^ (bits - 1) ≤ value ∧ value < 2 ^ bits

/-- `jsonToStream` of an integer. The integer types of eight bits are character types. -/
def jsonToStreamInteger (str : Ostream) (t : Integer) : Ostream :=
  if t.bits = 8 then str.put [UInt8.ofNat (t.value % 2 ^ 8).toNat] else str.putInteger t.bits t.value

/-- What `makeMap` and `makeArray` are called with; `jsonned` is a `JsonnedString`. -/
inductive Argument where
  | string (t : Bytes)
  | integer (t : Integer)
  | boolean (b : Bool)
  | jsonned (json : Bytes)

/-- The overloads of `jsonToStream`. -/
def jsonToStreamArgument (str : Ostream) : Argument → Ostream
  | .string t => jsonToStreamString str t
  | .integer t => jsonToStreamInteger str t
  | .boolean b => jsonToStreamBool str b
  | .jsonned json => str.put json

def jsonKeyPairToStream (str : Ostream) (pair : Bytes × Argument) : Ostream :=
  jsonToStreamArgument ((jsonToStream str pair.1).put (ascii ":")) pair.2

/-- The variadic templates: each item but the last is followed by a comma. -/
def streamArguments {α : Type} (stream : Ostream → α → Ostream) (str : Ostream) : List α → Ostream
  | [] => str
  | [item] => stream str item
  | item :: other :: items => streamArguments stream ((stream str item).put (ascii ",")) (other :: items)

/-- The loops over containers: each item but the first follows a comma. -/
def streamContainer {α : Type} (stream : Ostream → α → Ostream) (str : Ostream) (items : List α) : Ostream :=
  (items.foldl (fun (first, str) item => (false, stream (if first then str else str.put (ascii ",")) item))
    (true, str)).2

def makeMap (args : List (Bytes × Argument)) : Bytes :=
  ((streamArguments jsonKeyPairToStream (Ostream.fresh.put (ascii "\x7b")) args).put (ascii "\x7d")).written

def makeMapFromContainer (m : List (Bytes × Argument)) : Bytes :=
  ((streamContainer jsonKeyPairToStream (Ostream.fresh.put (ascii "\x7b")) m).put (ascii "\x7d")).written

def makeArray (args : List Argument) : Bytes :=
  ((streamArguments jsonToStreamArgument (Ostream.fresh.put (ascii "[")) args).put (ascii "]")).written

def makeArrayFromContainer (list : List Argument) : Bytes :=
  ((streamContainer jsonToStreamArgument (Ostream.fresh.put (ascii "[")) list).put (ascii "]")).written

/-- `makeArray` of a `std::initializer_list`. -/
def makeArrayFromInitializerList (list : List Argument) : Bytes :=
  ((streamContainer jsonToStreamArgument (Ostream.fresh.put (ascii "[")) list).put (ascii "]")).written

def toJson (obj : Argument) : Bytes := (jsonToStreamArgument Ostream.fresh obj).written

end Seasocks
