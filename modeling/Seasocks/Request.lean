import Seasocks.StringUtil

/-!
# Requests

`Request.cpp`, `HeaderMap.h` and `PageRequest.cpp`: the verbs, the case-insensitive header map in
which the first header of a name wins, and a request with its body.
-/

namespace Seasocks

inductive Verb where
  | invalid | webSocket | get | put | post | delete | head | options
deriving DecidableEq, Repr

def Verb.ofText (verb : Bytes) : Verb :=
  if verb = ascii "GET" then .get
  else if verb = ascii "PUT" then .put
  else if verb = ascii "POST" then .post
  else if verb = ascii "DELETE" then .delete
  else if verb = ascii "HEAD" then .head
  else if verb = ascii "OPTIONS" then .options
  else .invalid

/-! ### Header maps -/

/-- `CaseInsensitiveHash`. A `char` is signed, so a byte from 128 on is added as a negative number. -/
def caseInsensitiveHash (string : Bytes) : UInt64 :=
  string.foldl (fun h c => h * 13 + (tolower c).toInt8.toInt64.toUInt64) 0

/-- An `unordered_map` under `CaseInsensitiveComparison`: no two keys are the same without case. -/
structure HeaderMap where
  entries : List (Bytes × Bytes)
  distinct : entries.Pairwise fun a b => caseInsensitiveSame a.1 b.1 = false
deriving DecidableEq, Repr

namespace HeaderMap

def empty : HeaderMap := ⟨[], List.Pairwise.nil⟩

def find (headers : HeaderMap) (name : Bytes) : Option Bytes :=
  (headers.entries.find? fun entry => caseInsensitiveSame entry.1 name).map (·.2)

/-- `find` as an `unordered_map` with this many buckets does it: only the entries in the bucket of the
name's hash are compared with it. -/
def findIn (buckets : Nat) (headers : HeaderMap) (name : Bytes) : Option Bytes :=
  (headers.entries.find? fun entry =>
    (caseInsensitiveHash entry.1).toNat % buckets == (caseInsensitiveHash name).toNat % buckets
      && caseInsensitiveSame entry.1 name).map (·.2)

/-- `emplace` leaves an entry of that name alone. -/
def emplace (headers : HeaderMap) (name value : Bytes) : HeaderMap :=
  if h : headers.entries.all fun entry => !caseInsensitiveSame entry.1 name then
    { entries := headers.entries ++ [(name, value)]
      distinct := by
        rw [List.pairwise_append]
        refine ⟨headers.distinct, List.pairwise_singleton _ _, fun entry hentry last hlast => ?_⟩
        rw [List.mem_singleton] at hlast
        subst hlast
        simpa using List.all_eq_true.mp h entry hentry }
  else headers

def count (headers : HeaderMap) (name : Bytes) : Bool := (headers.find name).isSome

/-- The value of a header, empty when there is none. -/
def get (headers : HeaderMap) (name : Bytes) : Bytes := (headers.find name).getD []

end HeaderMap

/-! ### Page requests -/

structure PageRequest where
  requestUri : Bytes
  verb : Verb
  headers : HeaderMap
  contentLength : Nat
  content : Bytes
deriving DecidableEq, Repr

namespace PageRequest

/-- `getUintHeader`: a value `std::stoi` rejects counts as zero, a negative one too. -/
def uintOf (headers : HeaderMap) (name : Bytes) : Nat :=
  match headers.find name with
  | none => 0
  | some value =>
      match stoi value with
      | .ok number => (max number 0).toNat
      | .error _ => 0

def create (requestUri : Bytes) (verb : Verb) (headers : HeaderMap) : PageRequest :=
  { requestUri := requestUri
    verb := verb
    headers := headers
    contentLength := uintOf headers (ascii "Content-Length")
    content := [] }

def hasHeader (request : PageRequest) (name : Bytes) : Bool := request.headers.count name

def getHeader (request : PageRequest) (name : Bytes) : Bytes := request.headers.get name

/-- `consumeContent`: the request with its body and what is left of the buffer, once the body is
there. A body that is the whole buffer is swapped with it. -/
def consumeContent (request : PageRequest) (buffer : Bytes) : Option (PageRequest × Bytes) :=
  if buffer.length < request.contentLength then none
  else if buffer.length = request.contentLength then
    some ({ request with content := buffer }, request.content)
  else
    some ({ request with content := buffer.take request.contentLength },
      buffer.drop request.contentLength)

theorem consumeContent_of_le {request : PageRequest} {buffer : Bytes}
    (hempty : request.content = []) (h : request.contentLength ≤ buffer.length) :
    request.consumeContent buffer
      = some ({ request with content := buffer.take request.contentLength },
          buffer.drop request.contentLength) := by
  rw [consumeContent, if_neg (Nat.not_lt.mpr h)]
  split_ifs with heq
  · rw [← heq, List.take_length, List.drop_length, hempty]
  · rfl

end PageRequest

end Seasocks
