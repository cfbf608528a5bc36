import Seasocks.Fault
import Seasocks.Request
import Seasocks.ResponseCode

/-!
# The request parser

The part of `Connection::processHeaders` that reads the header block, with `extractLine` and the
pointer functions of `StringUtil.cpp` it uses. It works in place: the memory is the header block,
pointers are positions in it, and line ends, blanks and colons are overwritten with NULs. A pointer
that leaves the block is a fault.
-/

namespace Seasocks.RequestParser

/-- What ends a parse early. -/
inductive Stop where
  | fault (fault : Fault)
  /-- An error page to answer with. -/
  | reject (responseCode : ResponseCode) (reason : Bytes)
deriving DecidableEq, Repr

abbrev ParserM := EStateM Stop Bytes

def badRequest {α : Type} (reason : String) : ParserM α :=
  throw (.reject .badRequest (ascii reason))

/-! ### Pointers -/

def load (ptr : Nat) : ParserM UInt8 := do
  let memory ← get
  match memory[ptr]? with
  | some byte => return byte
  | none => throw (.fault .outOfRange)

def storeNul (ptr : Nat) : ParserM Unit := do
  let memory ← get
  if ptr < memory.length then
    set (memory.set ptr 0)
  else
    throw (.fault .outOfRange)

/-- The first position from `ptr` on whose byte satisfies `stop`. -/
def scanTo (stop : UInt8 → Bool) (ptr : Nat) : ParserM Nat := do
  let memory ← get
  match (memory.drop ptr).findIdx? stop with
  | some offset => return ptr + offset
  | none => throw (.fault .outOfRange)

def skipWhitespace (str : Nat) : ParserM Nat := scanTo (fun c => !isspace c) str

def skipNonWhitespace (str : Nat) : ParserM Nat := scanTo (fun c => c == 0 || isspace c) str

/-- The C string at `str`. -/
def stringAt (str : Nat) : ParserM Bytes := do
  let _ ← scanTo (· == 0) str
  let memory ← get
  return cString (memory.drop str)

/-! ### Words and lines -/

/-- `shift`: the next word, if there is one, and the advanced pointer. -/
def shift (str : Nat) : ParserM (Option Nat × Nat) := do
  let startOfWord ← skipWhitespace str
  if (← load startOfWord) = 0 then
    return (none, startOfWord)
  else
    let endOfWord ← skipNonWhitespace startOfWord
    if (← load endOfWord) = 0 then
      return (some startOfWord, endOfWord)
    else
      storeNul endOfWord
      return (some startOfWord, endOfWord + 1)

/-- A line of the block: where it starts, its first colon, and where the next line starts. -/
structure Line where
  result : Nat
  colon : Option Nat
  first : Nat
deriving DecidableEq, Repr

/-- `extractLine` from `first` to the end of the block. -/
def extractLine (first : Nat) : ParserM (Option Line) := do
  let memory ← get
  match find crlf (memory.drop first) with
  | none => return none
  | some offset =>
      storeNul (first + offset)
      return some
        { result := first
          colon := (((memory.drop first).take offset).idxOf? 58).map (first + ·)
          first := first + offset + 2 }

/-! ### The header block -/

def requestLine (line : Nat) : ParserM (Verb × Bytes) := do
  match ← shift line with
  | (none, _) => badRequest "Malformed request line"
  | (some verbText, line) =>
      let verb := Verb.ofText (← stringAt verbText)
      if verb = .invalid then
        badRequest "Malformed request line"
      else
        match ← shift line with
        | (none, _) => badRequest "Malformed request line"
        | (some requestUri, line) =>
            match ← shift line with
            | (none, _) => badRequest "Malformed request line"
            | (some httpVersion, line) =>
                if (← stringAt httpVersion) ≠ ascii "HTTP/1.1" then
                  throw (.reject .notImplemented (ascii "Unsupported HTTP version"))
                else if (← load line) ≠ 0 then
                  badRequest "Trailing crap after http version"
                else
                  return (verb, ← stringAt requestUri)

/-- The header loop. Every turn uses up two bytes at least, so as many turns as there are bytes
suffice. -/
def headerLines : Nat → Nat → HeaderMap → ParserM HeaderMap
  | 0, _, headers => return headers
  | fuel + 1, first, headers => do
      let memory ← get
      if first < memory.length then
        match ← extractLine first with
        | none => throw (.fault .assertion)
        | some headerLine =>
            match headerLine.colon with
            | none => badRequest "Malformed header"
            | some colonPos =>
                storeNul colonPos
                let key ← stringAt headerLine.result
                let value ← stringAt (← skipWhitespace (colonPos + 1))
                headerLines fuel headerLine.first (headers.emplace key value)
      else
        return headers

def block : ParserM (Verb × Bytes × HeaderMap) := do
  match ← extractLine 0 with
  | none => throw (.fault .assertion)
  | some line =>
      let (verb, requestUri) ← requestLine line.result
      let memory ← get
      let headers ← headerLines memory.length line.first HeaderMap.empty
      return (verb, requestUri, headers)

end Seasocks.RequestParser
