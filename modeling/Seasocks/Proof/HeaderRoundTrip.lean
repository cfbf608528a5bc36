import Seasocks.Proof.Bodies
import Seasocks.Proof.HeaderBlocks

/-!
# Header blocks read back

The request that is made of a well-formed header block: its verb, its URI and, under every spelling of a
name, the header that came first.
-/

namespace Seasocks

open Program RequestParser

variable {fields : List (Bytes × Bytes)}

/-! ### Names without regard to case -/

/-- The hash agrees with the comparison. -/
theorem caseInsensitiveHash_congr {a b : Bytes} (h : caseInsensitiveSame a b = true) :
    caseInsensitiveHash a = caseInsensitiveHash b := by
  have hashes : ∀ s : Bytes, caseInsensitiveHash s =
      (s.map tolower).foldl (fun h c => h * 13 + c.toInt8.toInt64.toUInt64) 0 := by
    intro s
    rw [caseInsensitiveHash, List.foldl_map]
  rw [hashes, hashes, caseInsensitiveSame_iff.mp h]

namespace HeaderMap

/-- An entry of the name is in the bucket that is searched. -/
theorem findIn_eq_find (buckets : Nat) (headers : HeaderMap) (name : Bytes) :
    headers.findIn buckets name = headers.find name := by
  rw [findIn, find]
  congr 2
  funext entry
  cases hsame : caseInsensitiveSame entry.1 name with
  | false => exact Bool.and_false _
  | true => simp [caseInsensitiveHash_congr hsame]

end HeaderMap

/-! ### The round trip -/

/-- `request` is what the verb, the URI and the fields say. -/
structure ReadBack (verb : Verb) (requestUri : Bytes) (fields : List (Bytes × Bytes))
    (request : PageRequest) : Prop where
  verb : request.verb = verb
  requestUri : request.requestUri = requestUri
  hasHeader : ∀ key, request.hasHeader key = true ↔
    ∃ field ∈ fields, caseInsensitiveSame field.1 key = true
  getHeader : ∀ key before field after, fields = before ++ field :: after →
    (∀ earlier ∈ before, caseInsensitiveSame earlier.1 key = false) →
    caseInsensitiveSame field.1 key = true → request.getHeader key = field.2
  lookup : ∀ buckets key, request.headers.findIn buckets key = request.headers.find key

theorem readBack_create (verb : Verb) (requestUri : Bytes) (fields : List (Bytes × Bytes)) :
    ReadBack verb requestUri fields
      (PageRequest.create requestUri verb (headersOf HeaderMap.empty fields)) := by
  have hfind : ∀ key, (headersOf HeaderMap.empty fields).find key =
      (fields.find? fun field => caseInsensitiveSame field.1 key).map (·.2) := by
    intro key
    rw [find_headersOf_eq]
    rfl
  refine ⟨rfl, rfl, fun key => ?_, fun key before field after hfields hearlier hsame => ?_,
    fun buckets key => HeaderMap.findIn_eq_find buckets _ key⟩
  · rw [PageRequest.hasHeader, PageRequest.create, HeaderMap.count, hfind, Option.isSome_map,
      List.find?_isSome]
  · have hnone : before.find? (fun field => caseInsensitiveSame field.1 key) = none := by
      rw [List.find?_eq_none]
      intro earlier hmem
      rw [hearlier earlier hmem]
      exact Bool.false_ne_true
    rw [PageRequest.getHeader, PageRequest.create, HeaderMap.get, hfind, hfields, List.find?_append,
      hnone, List.find?_cons, hsame]
    rfl

namespace Connection

end Connection

end Seasocks
