import Seasocks.Connection

/-!
# Static files

Byte ranges and `sendStaticData`. `long` has 64 bits; none of its sums below leaves that range.
-/

namespace Seasocks

/-- `Connection::Range`. -/
structure Range where
  start : Int
  «end» : Int
deriving DecidableEq, Repr

def Range.length (range : Range) : Int := range.end - range.start + 1

/-- `std::numeric_limits<long>::max()`. -/
def longMax : Int := 2 ^ 63 - 1

/-! ### Parsing -/

def parseRange (rangeStr : Bytes) : Except LogicError (Option Range) :=
  match rangeStr.idxOf? 45 with
  | none => return none
  | some minusPos => do
      if minusPos = 0 then
        let start ← stoi rangeStr
        return some ⟨start, longMax⟩
      else
        let start ← stoi (rangeStr.take minusPos)
        if minusPos = rangeStr.length - 1 then
          return some ⟨start, longMax⟩
        else
          let «end» ← stoi (rangeStr.drop (minusPos + 1))
          return some ⟨start, «end»⟩

/-- The loop of `parseRanges`. -/
def parseRangeTexts : List Bytes → List Range → Except LogicError (Option (List Range))
  | [], ranges => return (if ranges = [] then none else some ranges)
  | rangeText :: rangesText, ranges => do
      match ← parseRange rangeText with
      | none => return none
      | some r => parseRangeTexts rangesText (ranges ++ [r])

def expectedPrefix : Bytes := ascii "bytes="

/-- `none` is `false`; the exceptions are those of `std::stoi`. -/
def parseRanges (range : Bytes) : Except LogicError (Option (List Range)) :=
  if expectedPrefix.isPrefixOf range then
    parseRangeTexts (split (range.drop expectedPrefix.length) 44) []
  else return none

/-! ### Answering -/

def clampRange (fileSize : Int) (range : Range) : Range :=
  let start := if range.start < 0 then range.start + fileSize else range.start
  { start := if start ≥ fileSize then fileSize - 1 else start
    «end» := if range.end ≥ fileSize then fileSize - 1 else range.end }

/-- The sum of the lengths as a `size_t`. -/
def contentLength (ranges : List Range) : Nat :=
  ((ranges.map Range.length).sum % 2 ^ 64).toNat

def rangeLine (ranges : List Range) (fileSize : Int) : Bytes :=
  ascii "Content-Range: bytes "
    ++ ranges.flatMap (fun range =>
      signedDecimal range.start ++ ascii "-" ++ signedDecimal range.end)
    ++ ascii "/" ++ signedDecimal fileSize

namespace Output

variable (w : World)

def processRangesForStaticData (origRanges : List Range) (fileSize : Int) : OutM (List Range) := do
  if origRanges = [] then
    bufferResponseAndCommonHeaders w .ok
    let _ ← bufferLine w (ascii "Content-Length: " ++ signedDecimal fileSize)
    return [⟨0, fileSize - 1⟩]
  else
    bufferResponseAndCommonHeaders w .partialContent
    let sendRanges := origRanges.map (clampRange fileSize)
    let _ ← bufferLine w (rangeLine sendRanges fileSize)
    let _ ← bufferLine w (ascii "Content-Length: " ++ decimal (contentLength sendRanges))
    return sendRanges

/-- The amount `sendStaticData` asks `::read` for: a negative `bytesLeft` wraps to a huge one. -/
def readAmount (bytesLeft : Int) : Nat :=
  (min (readWriteBufferSize : Int) bytesLeft % 2 ^ 32).toNat

/-- The copying loop for one range. A turn that goes on has read a byte, so one turn more than the file
has bytes suffices. -/
def copyRange (path content : Bytes) : Nat → Nat → Int → OutM (Except Fault Bool)
  | 0, _, _ => return .ok false
  | fuel + 1, offset, bytesLeft => do
      if bytesLeft = 0 then
        return .ok true
      else
        let o ← get
        match w.readFile o.log path offset (readAmount bytesLeft) with
        | none => return .ok false
        | some bytesRead =>
            let buf := (content.drop offset).take (min bytesRead (readAmount bytesLeft))
            if buf = [] then
              return .ok false
            else if readWriteBufferSize < buf.length then
              return .error .outOfRange
            else if ← write w buf true then
              copyRange path content fuel (offset + buf.length) (bytesLeft - buf.length)
            else
              return .ok false

def copyRanges (path content : Bytes) : List Range → OutM (Except Fault Bool)
  | [] => return .ok true
  | range :: ranges => do
      let o ← get
      if range.start < 0 || !w.seek o.log path then
        return .ok false
      else
        match ← copyRange w path content (content.length + 1) range.start.toNat range.length with
        | .ok true => copyRanges path content ranges
        | result => return result

/-- `sendStaticData` from the parsed ranges on. -/
def sendFile (path : Bytes) (file : File) (ranges : List Range) : OutM (Except Fault Bool) := do
  let ranges ← processRangesForStaticData w ranges file.size
  let _ ← bufferLine w (ascii "Content-Type: " ++ getContentType path)
  let _ ← bufferText w "Connection: keep-alive"
  let _ ← bufferText w "Accept-Ranges: bytes"
  let _ ← bufferLine w (ascii "Last-Modified: " ++ file.lastModified)
  if !isCacheable path then
    let _ ← bufferText w "Cache-Control: no-store"
    let _ ← bufferText w "Pragma: no-cache"
    let o ← get
    let _ ← bufferLine w (ascii "Expires: " ++ w.now o.log)
  let _ ← bufferText w ""
  if ← flush w then
    copyRanges w path file.content ranges
  else
    return .ok false

end Output

namespace Connection

variable (w : World)

def trimQuery (path : Bytes) : Bytes :=
  match path.idxOf? 63 with
  | some queryPos => path.take queryPos
  | none => path

def sendStaticData : ConnM Bool := do
  let c ← get
  let path := trimQuery (w.staticPath ++ c.getRequestUri)
  let rangeHeader := c.getHeader (ascii "Range")
  match path.getLast? with
  | none => fault .outOfRange
  | some last =>
      let path := if last = 47 then path ++ ascii "index.html" else path
      let input := w.openFile c.calls path
      record (.openFile path input.isSome)
      match input with
      | none => send404 w
      | some file =>
          match if rangeHeader = [] then .ok (some []) else parseRanges rangeHeader with
          | .error e => throw (.exception e)
          | .ok none => sendBadRequest w (ascii "Bad range header")
          | .ok (some ranges) => liftChecked (Output.sendFile w path file ranges)

end Connection

end Seasocks
