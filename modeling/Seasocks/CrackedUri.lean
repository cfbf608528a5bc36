import Seasocks.Fault
import Seasocks.StringUtil

/-!
# Cracked URIs

`CrackedUri.cpp`: the path of a URI in segments and its query parameters, with their escapes taken out.
-/

namespace Seasocks

/-- How cracking a URI ends without a result: in the `std::runtime_error` of `THROW`, in the
`std::out_of_range` of `substr`, or in undefined behaviour. -/
inductive UriError where
  | runtimeError (what : Bytes)
  | outOfRange
  | fault (fault : Fault)
deriving DecidableEq, Repr

/-! ### Escapes -/

def isxdigit (c : UInt8) : Bool := isdigit c || (65 ≤ c && c ≤ 70) || (97 ≤ c && c ≤ 102)

def fromHex (c : UInt8) : UInt8 :=
  let c := tolower c
  if 48 ≤ c && c ≤ 57 then c - 48 else c - 97 + 10

/-- `uri[pos]` on a `std::string`: behind the last character there is a terminator, and nothing behind
that. -/
def charAt (uri : Bytes) (pos : Nat) : Except UriError UInt8 :=
  if h : pos < uri.length then .ok uri[pos]
  else if pos = uri.length then .ok 0
  else .error (.fault .outOfRange)

def truncated (uri : Bytes) : UriError := .runtimeError (ascii "Truncated uri: '" ++ uri ++ ascii "'")

def badDigit (uri : Bytes) : UriError :=
  .runtimeError (ascii "Bad digit in uri: '" ++ uri ++ ascii "'")

/-- The checks of the loop of `unescape`, and the character that replaces the escape at `pos`. -/
def escapeAt (uri : Bytes) (pos : Nat) : Except UriError UInt8 :=
  if pos + 2 > uri.length then throw (truncated uri)
  else do
    let high ← charAt uri (pos + 1)
    if !isxdigit high then throw (badDigit uri)
    else
      let low ← charAt uri (pos + 2)
      if !isxdigit low then throw (badDigit uri)
      else return (fromHex high <<< 4) ||| fromHex low

/-- The loop of `unescape`. -/
def unescapeFrom (uri : Bytes) (pos : Nat) : Except UriError Bytes :=
  if pos < uri.length then
    match (uri.drop pos).idxOf? 37 with
    | none => .ok uri
    | some offset => do
        let hex ← escapeAt uri (pos + offset)
        -- `substr` throws for a position behind the end.
        if pos + offset + 3 > uri.length then throw .outOfRange
        else
          unescapeFrom (uri.take (pos + offset) ++ [hex] ++ uri.drop (pos + offset + 3))
            (pos + offset + 1)
  else .ok uri
termination_by uri.length - pos
decreasing_by
  simp only [List.length_append, List.length_take, List.length_drop, List.length_singleton]
  omega

def unescape (uri : Bytes) : Except UriError Bytes :=
  unescapeFrom (replace uri (ascii "+") (ascii " ")) 0

/-! ### Query parameters -/

/-- The elements of a key stand next to one another. -/
def Grouped (elements : List (Bytes × Bytes)) : Prop :=
  ∀ key, ∃ before block after, elements = before ++ (block ++ after) ∧
    (∀ element ∈ before, element.1 ≠ key) ∧ (∀ element ∈ block, element.1 = key) ∧
    ∀ element ∈ after, element.1 ≠ key

/-- An `unordered_multimap` of strings, by its elements in the order of iteration. -/
structure QueryParams where
  elements : List (Bytes × Bytes)
  grouped : Grouped elements

namespace QueryParams

def empty : QueryParams := ⟨[], fun _ => ⟨[], [], [], by simp⟩⟩

/-- `find`: the elements from the first one of that key on. -/
def find (params : QueryParams) (param : Bytes) : List (Bytes × Bytes) :=
  params.elements.dropWhile fun element => element.1 != param

end QueryParams

/-- Where an `unordered_multimap` puts a new element, and how it reorders its elements when it grows, is
up to the standard library, which only keeps equal keys together. -/
structure Buckets where
  insert : QueryParams → Bytes × Bytes → QueryParams
  perm : ∀ params element, (insert params element).elements.Perm (element :: params.elements)

/-- The elements with the key of the new one, and then the others. -/
def moveToFront (elements : List (Bytes × Bytes)) (element : Bytes × Bytes) : List (Bytes × Bytes) :=
  element :: elements.filter (fun other => other.1 == element.1) ++
    elements.filter fun other => !(other.1 == element.1)

theorem grouped_moveToFront {elements : List (Bytes × Bytes)} (h : Grouped elements)
    (element : Bytes × Bytes) : Grouped (moveToFront elements element) := by
  intro key
  by_cases hkey : element.1 = key
  · subst hkey
    refine ⟨[], element :: elements.filter (fun other => other.1 == element.1),
      elements.filter (fun other => !(other.1 == element.1)), rfl, ?_, ?_, ?_⟩
    all_goals simp
  · obtain ⟨before, block, after, rfl, hbefore, hblock, hafter⟩ := h key
    have hkept : block.filter (fun other => !(other.1 == element.1)) = block := by
      apply List.filter_eq_self.mpr
      intro other hother
      rw [hblock other hother]
      simpa using fun h : key = element.1 => hkey h.symm
    refine ⟨element :: (before ++ (block ++ after)).filter (fun other => other.1 == element.1) ++
      before.filter (fun other => !(other.1 == element.1)), block,
      after.filter (fun other => !(other.1 == element.1)), ?_, ?_, hblock, ?_⟩
    · have hothers : (before ++ (block ++ after)).filter (fun other => !(other.1 == element.1)) =
          before.filter (fun other => !(other.1 == element.1)) ++
            (block ++ after.filter fun other => !(other.1 == element.1)) := by
        rw [List.filter_append, List.filter_append, hkept]
      rw [moveToFront, hothers, List.append_assoc]
    · intro other hother
      rcases List.mem_append.mp hother with hsame | hkeeps
      · rcases List.mem_cons.mp hsame with rfl | hsame
        · exact hkey
        · rw [List.mem_filter, beq_iff_eq] at hsame
          exact hsame.2 ▸ hkey
      · exact hbefore other (List.mem_of_mem_filter hkeeps)
    · intro other hother
      exact hafter other (List.mem_of_mem_filter hother)

def Buckets.toFront : Buckets where
  insert params element := ⟨moveToFront params.elements element, grouped_moveToFront params.grouped element⟩
  perm params element :=
    (List.filter_append_perm (fun other : Bytes × Bytes => other.1 == element.1) params.elements).cons
      element

/-! ### Cracking -/

structure CrackedUri where
  path : List Bytes
  queryParams : QueryParams

namespace CrackedUri

def malformed (uri : Bytes) : UriError :=
  .runtimeError (ascii "Malformed URI: '" ++ uri ++ ascii "'")

def twoManyEquals (uri : Bytes) : UriError :=
  .runtimeError (ascii "Malformed URI, two many = in query: '" ++ uri ++ ascii "'")

/-- One turn of the loop over the items of the query. -/
def insertItem (buckets : Buckets) (uri : Bytes) (params : QueryParams) (iter : Bytes) :
    Except UriError QueryParams :=
  if iter = [] then return params
  else do
    match ← (split iter 61).mapM unescape with
    | [key] => return buckets.insert params (key, [])
    | [key, value] => return buckets.insert params (key, value)
    | _ => throw (twoManyEquals uri)

/-- The path and the remainder behind the first `?`. -/
def endsOfPath (uri : Bytes) : Bytes × Bytes :=
  match uri.idxOf? 63 with
  | none => (uri.drop 1, [])
  | some endOfPath => ((uri.drop 1).take (endOfPath - 1), uri.drop (endOfPath + 1))

def create (buckets : Buckets) (uri : Bytes) : Except UriError CrackedUri :=
  if uri.head? ≠ some 47 then throw (malformed uri)
  else do
    let path ← (split (endsOfPath uri).1 47).mapM unescape
    let queryParams ← (split (endsOfPath uri).2 38).foldlM (insertItem buckets uri) .empty
    return { path, queryParams }

def hasParam (uri : CrackedUri) (param : Bytes) : Bool := uri.queryParams.find param ≠ []

def queryParam (uri : CrackedUri) (param default : Bytes) : Bytes :=
  match uri.queryParams.find param with
  | [] => default
  | found :: _ => found.2

def allQueryParams (uri : CrackedUri) (param : Bytes) : List Bytes :=
  ((uri.queryParams.find param).takeWhile fun element => element.1 == param).map (·.2)

def shift (uri : CrackedUri) : CrackedUri :=
  { uri with path := if uri.path.length > 1 then uri.path.drop 1 else [[]] }

end CrackedUri

end Seasocks
