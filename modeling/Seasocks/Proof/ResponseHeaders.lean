import Mathlib.Data.List.Pairwise
import Seasocks.Proof.WriterProtocol
import Seasocks.ResponseBuilder

/-!
# Header names of a built response

The multimap replaces and finds names as they are spelled. A block has every name once exactly when the
spelling makes no difference.
-/

namespace Seasocks

/-! ### Names -/

/-- Names that are the same field to a client. -/
def SameName (name other : Bytes) : Prop := caseInsensitiveSame name other = true

instance (name other : Bytes) : Decidable (SameName name other) :=
  inferInstanceAs (Decidable (caseInsensitiveSame name other = true))

theorem SameName.refl (name : Bytes) : SameName name name := caseInsensitiveSame_iff.mpr rfl

theorem SameName.symm {name other : Bytes} (h : SameName name other) : SameName other name :=
  caseInsensitiveSame_iff.mpr (caseInsensitiveSame_iff.mp h).symm

theorem SameName.trans {name other third : Bytes} (h : SameName name other) (hthird : SameName other third) :
    SameName name third :=
  caseInsensitiveSame_iff.mpr ((caseInsensitiveSame_iff.mp h).trans (caseInsensitiveSame_iff.mp hthird))

def setCookie : Bytes := ascii "Set-Cookie"

/-- The names in every block: those of `begin`, and those `SynchronousResponse::handle` always sends. -/
def fixedNames : List Bytes :=
  [ascii "Server", ascii "Date", ascii "Access-Control-Allow-Origin", ascii "Content-Length",
    ascii "Content-Type", ascii "Connection", ascii "Last-Modified", ascii "Pragma"]

/-- The names it sends unless it finds them among the headers. -/
def defaultNames : List Bytes := [ascii "Cache-Control", ascii "Expires"]

/-- Two fields may have these names. -/
def MayFollow (name other : Bytes) : Prop := SameName name other → SameName name setCookie

instance (name other : Bytes) : Decidable (MayFollow name other) :=
  inferInstanceAs (Decidable (SameName name other → SameName name setCookie))

instance : Std.Symm MayFollow where
  symm _ _ h hsame := hsame.trans (h hsame.symm)

theorem ownNames_pairwise : (fixedNames ++ defaultNames).Pairwise MayFollow := by
  decide +kernel

theorem ownNames_ne_setCookie : ∀ name ∈ fixedNames ++ defaultNames, ¬SameName name setCookie := by
  decide +kernel

/-! ### The headers of a builder -/

/-- The name and the value of a call that sets a header. -/
def BuilderCall.given : BuilderCall → Option (Bytes × Bytes)
  | .withHeader name value => some (name, value)
  | .withLocation location => some (ascii "Location", location)
  | _ => none

/-- What the builder holds after calls that have given these headers. -/
structure Holds (given : List (Bytes × Bytes)) (headers : Headers) : Prop where
  names : ∀ field ∈ headers.entries, field.1 ∈ given.map Prod.fst ∨ field.1 = setCookie
  once : headers.entries.Pairwise fun a b => a.1 = b.1 → a.1 = setCookie
  /-- What was given last of some kind of names. -/
  last : ∀ (kind : Bytes → Bool) (field : Bytes × Bytes),
    given.reverse.find? (fun field => kind field.1) = some field → field ∈ headers.entries

theorem Holds.empty : Holds [] Multimap.empty where
  names field hfield := absurd hfield List.not_mem_nil
  once := List.Pairwise.nil
  last kind field h := by cases h

theorem once_insert {headers : Headers} {name value : Bytes}
    (h : headers.entries.Pairwise fun a b => a.1 = b.1 → a.1 = setCookie)
    (hname : ∀ field ∈ headers.entries, field.1 = name → name = setCookie) :
    (headers.insert (name, value)).entries.Pairwise fun a b => a.1 = b.1 → a.1 = setCookie := by
  have hsymm {a b : Bytes × Bytes} (hab : a.1 = b.1 → a.1 = setCookie) : b.1 = a.1 → b.1 = setCookie :=
    fun heq => heq.trans (hab heq.symm)
  rw [(headers.insert_perm (name, value)).pairwise_iff hsymm, List.pairwise_cons]
  exact ⟨fun field hfield heq => hname field hfield heq.symm, h⟩

variable {given : List (Bytes × Bytes)} {headers : Headers}

/-- `withHeader`. -/
theorem Holds.replace (h : Holds given headers) (name value : Bytes) :
    Holds (given ++ [(name, value)]) ((headers.erase name).insert (name, value)) where
  names field hfield := by
    rw [List.map_append, List.mem_append]
    rcases Multimap.mem_insert.mp hfield with rfl | hfield
    · exact Or.inl (Or.inr List.mem_cons_self)
    · rcases h.names field (Multimap.mem_erase.mp hfield).1 with hgiven | hcookie
      · exact Or.inl (Or.inl hgiven)
      · exact Or.inr hcookie
  once := by
    apply once_insert (h.once.sublist List.filter_sublist)
    intro field hfield heq
    exact absurd heq (Multimap.mem_erase.mp hfield).2
  last kind field hlast := by
    rw [List.reverse_append, List.reverse_singleton, List.singleton_append, List.find?_cons] at hlast
    rw [Multimap.mem_insert, Multimap.mem_erase]
    cases hkind : kind name with
    | true =>
        rw [hkind] at hlast
        exact Or.inl (Option.some.inj hlast).symm
    | false =>
        rw [hkind] at hlast
        have hfield := List.find?_some hlast
        refine Or.inr ⟨h.last kind field hlast, ?_⟩
        rintro rfl
        rw [hkind] at hfield
        cases hfield

/-- `setsCookie`. -/
theorem Holds.addCookie (h : Holds given headers) (value : Bytes) :
    Holds given (headers.insert (setCookie, value)) where
  names field hfield := by
    rcases Multimap.mem_insert.mp hfield with rfl | hfield
    · exact Or.inr rfl
    · exact h.names field hfield
  once := once_insert h.once fun _ _ _ => rfl
  last kind field hlast := Multimap.mem_insert.mpr (Or.inr (h.last kind field hlast))

theorem append_given {call : BuilderCall} (h : call.given = none) : given ++ call.given.toList = given := by
  rw [h, Option.toList_none, List.append_nil]

/-- One call. -/
theorem Holds.call {builder : ResponseBuilder} (h : Holds given builder.headers) (call : BuilderCall) :
    Holds (given ++ call.given.toList) (builder.call call).headers := by
  cases call with
  | withHeader name value => exact h.replace name value
  | withLocation location => exact h.replace (ascii "Location") location
  | setsCookie cookie value =>
      rw [append_given rfl]
      exact h.addCookie _
  | asHtml | asText | asJson | withContentType | keepsConnectionAlive | closesConnection | streams =>
      rw [append_given rfl]
      exact h

theorem Holds.calls {builder : ResponseBuilder} (h : Holds given builder.headers)
    (calls : List BuilderCall) :
    Holds (given ++ calls.filterMap BuilderCall.given) (calls.foldl ResponseBuilder.call builder).headers := by
  induction calls generalizing given builder with
  | nil => simpa using h
  | cons call calls ih =>
      have hgiven : (call :: calls).filterMap BuilderCall.given =
          call.given.toList ++ calls.filterMap BuilderCall.given := by
        rw [List.filterMap_cons]
        cases call.given <;> rfl
      rw [hgiven, ← List.append_assoc]
      exact ih (h.call call)

/-! ### The header block -/

/-- The fields that `begin` puts into the block. -/
def beginFields (w : World) (date : Bytes) (encoding : TransferEncoding) : List (Bytes × Bytes) :=
  [(ascii "Server", w.version), (ascii "Date", date), (ascii "Access-Control-Allow-Origin", ascii "*")] ++
    match encoding with
    | .raw => []
    | .chunked => [(ascii "Transfer-encoding", ascii "chunked")]

/-- The fields of the block that the calls of a writer send. -/
def headerFields (w : World) (date : Bytes) (calls : List WriterCall) : List (Bytes × Bytes) :=
  calls.flatMap fun
    | .begin _ encoding => beginFields w date encoding
    | .header name value => [(name, value)]
    | .payload _ _ | .finish _ | .error _ _ => []

def statusLine (code : ResponseCode) : Bytes := ascii "HTTP/1.1 " ++ decimal code.toNat ++ ascii " " ++ code.name

theorem headText_eq (w : World) (code : ResponseCode) (encoding : TransferEncoding) (date : Bytes)
    (lines : List (Bytes × Bytes)) :
    Connection.headText w code encoding date lines =
      statusLine code ++ crlf ++ (beginFields w date encoding ++ lines).flatMap Connection.lineText := by
  unfold Connection.headText
  rw [Output.commonHead, statusLine, List.flatMap_append]
  cases encoding <;> simp [beginFields, Connection.lineText, ascii]

def headerCalls (fields : List (Bytes × Bytes)) : List WriterCall :=
  fields.map fun field => .header field.1 field.2

theorem headerFields_headerCalls (w : World) (date : Bytes) (fields : List (Bytes × Bytes)) :
    headerFields w date (headerCalls fields) = fields := by
  rw [headerFields, headerCalls, List.flatMap_map]
  exact List.flatMap_singleton' fields

theorem headerFields_append (w : World) (date : Bytes) (calls more : List WriterCall) :
    headerFields w date (calls ++ more) = headerFields w date calls ++ headerFields w date more :=
  List.flatMap_append

/-- The text of a response once these calls have been made. -/
def responseText (w : World) (date : Bytes) (calls : List WriterCall) : Bytes :=
  Connection.Progress.text w date (Connection.Progress.after (calls.map Event.writer) .awaiting)

theorem after_headerCalls (code : ResponseCode) (encoding : TransferEncoding)
    (lines fields : List (Bytes × Bytes)) :
    Connection.Progress.after ((headerCalls fields).map Event.writer) (.headers code encoding lines) =
      .headers code encoding (lines ++ fields) := by
  induction fields generalizing lines with
  | nil => rw [List.append_nil]; rfl
  | cons field fields ih =>
      have hnext := ih (lines ++ [field])
      rw [List.append_assoc] at hnext
      exact hnext

/-- The value last given under a name, whatever its spelling. -/
def lastGiven (calls : List BuilderCall) (name : Bytes) : Option Bytes :=
  ((calls.filterMap BuilderCall.given).reverse.find? fun field => caseInsensitiveSame field.1 name).map
    Prod.snd

/-- Every name but `Set-Cookie` is there at most once, and what was given has the value last given. -/
structure Unambiguous (calls : List BuilderCall) (fields : List (Bytes × Bytes)) : Prop where
  once : (fields.map Prod.fst).Pairwise MayFollow
  present : ∀ name value, lastGiven calls name = some value →
    ∃ field ∈ fields, SameName field.1 name ∧ field.2 = value
  last : ∀ name value, lastGiven calls name = some value →
    ∀ field ∈ fields, SameName field.1 name → field.2 = value ∨ SameName name setCookie

/-- Names that are told apart by their spelling only if they are different fields. -/
structure Apart (names : List Bytes) : Prop where
  given : ∀ name ∈ names, ∀ other ∈ names, SameName name other → name = other ∨ SameName name setCookie
  fixed : ∀ name ∈ names, ∀ own ∈ fixedNames, ¬SameName name own
  default : ∀ name ∈ names, ∀ own ∈ defaultNames, SameName name own → name = own

/-- The names in front of the headers of the builder. -/
def ownNames (headers : Headers) : List Bytes :=
  fixedNames ++ defaultNames.filter fun name => !headers.contains name

/-- The calls of `handle` for a successful code. -/
theorem handle_eq (now : List WriterCall → Bytes) (response : SynchronousResponse)
    (h : isOk response.responseCode = true) :
    ∃ own, response.handle now = .begin response.responseCode .raw ::
        (headerCalls (own ++ response.getAdditionalHeaders.entries) ++
          [.payload response.payload true, .finish response.keepConnectionAlive]) ∧
      own.map Prod.fst = fixedNames.drop 3 ++
        defaultNames.filter fun name => !response.getAdditionalHeaders.contains name := by
  rw [SynchronousResponse.handle, h, Bool.not_true, if_neg Bool.false_ne_true]
  dsimp only
  rw [defaultNames, List.filter_cons, List.filter_cons, List.filter_nil]
  cases response.getAdditionalHeaders.contains (ascii "Cache-Control") <;>
    cases response.getAdditionalHeaders.contains (ascii "Expires")
  · exact ⟨[(_, _), (_, _), (_, _), (_, _), (_, _), (_, _), (_, _)], rfl, rfl⟩
  · exact ⟨[(_, _), (_, _), (_, _), (_, _), (_, _), (_, _)], rfl, rfl⟩
  · exact ⟨[(_, _), (_, _), (_, _), (_, _), (_, _), (_, _)], rfl, rfl⟩
  · exact ⟨[(_, _), (_, _), (_, _), (_, _), (_, _)], rfl, rfl⟩

theorem headerFields_block (w : World) (date : Bytes) (code : ResponseCode) (fields : List (Bytes × Bytes))
    (payload : Bytes) (keepAlive : Bool) :
    headerFields w date (.begin code .raw :: (headerCalls fields ++ [.payload payload true, .finish keepAlive])) =
      beginFields w date .raw ++ fields := by
  rw [← List.singleton_append, headerFields_append, headerFields_append, headerFields_headerCalls]
  exact congrArg (beginFields w date .raw ++ ·) (List.append_nil fields)

/-- The block that is sent is made of the fields of the calls. -/
theorem handle_text (w : World) (date : Bytes) (now : List WriterCall → Bytes) (response : SynchronousResponse)
    (h : isOk response.responseCode = true) :
    responseText w date (response.handle now) = statusLine response.responseCode ++ crlf ++
      (headerFields w date (response.handle now)).flatMap Connection.lineText ++ crlf ++ response.payload := by
  obtain ⟨own, hcalls, -⟩ := handle_eq now response h
  have hafter : Connection.Progress.after ((response.handle now).map Event.writer) .awaiting =
      .done response.responseCode .raw (own ++ response.getAdditionalHeaders.entries) [response.payload] := by
    rw [hcalls, List.map_cons, List.map_append, Connection.Progress.after, List.foldl_cons, List.foldl_append]
    have hheaders := after_headerCalls response.responseCode .raw []
      (own ++ response.getAdditionalHeaders.entries)
    exact congrArg (Connection.Progress.after _) hheaders
  rw [responseText, hafter, hcalls, headerFields_block]
  have hhead := headText_eq w response.responseCode .raw date (own ++ response.getAdditionalHeaders.entries)
  simp [Connection.Progress.text, hhead, Connection.bodyText, Connection.payloadText, Connection.endText]

theorem headerFields_handle (w : World) (date : Bytes) (now : List WriterCall → Bytes)
    (response : SynchronousResponse) (h : isOk response.responseCode = true) :
    ∃ own, headerFields w date (response.handle now) = own ++ response.getAdditionalHeaders.entries ∧
      own.map Prod.fst = ownNames response.getAdditionalHeaders := by
  obtain ⟨own, hcalls, hnames⟩ := handle_eq now response h
  refine ⟨beginFields w date .raw ++ own, ?_, ?_⟩
  · rw [hcalls, headerFields_block, List.append_assoc]
  · rw [List.map_append, hnames]
    rfl

/-- The keys of the multimap. -/
structure Keys (names keys : List Bytes) : Prop where
  given : ∀ key ∈ keys, key ∈ names ∨ key = setCookie
  all : ∀ name ∈ names, name ∈ keys
  once : keys.Pairwise fun key other => key = other → key = setCookie

theorem Holds.keys (h : Holds given headers) :
    Keys (given.map Prod.fst) (headers.entries.map Prod.fst) where
  given key hkey := by
    obtain ⟨field, hfield, rfl⟩ := List.mem_map.mp hkey
    exact h.names field hfield
  all name hname := by
    obtain ⟨field, hfield, rfl⟩ := List.mem_map.mp hname
    cases hlast : given.reverse.find? fun other => decide (other.1 = field.1) with
    | none =>
        have := List.find?_eq_none.mp hlast field (List.mem_reverse.mpr hfield)
        exact absurd (decide_eq_true rfl) this
    | some last =>
        have hfound := List.find?_some hlast
        have hsame : last.1 = field.1 := of_decide_eq_true hfound
        rw [← hsame]
        exact List.mem_map_of_mem (h.last (fun name => decide (name = field.1)) last hlast)
  once := List.pairwise_map.mpr h.once

theorem contains_iff_mem_keys {name : Bytes} :
    headers.contains name = true ↔ name ∈ headers.entries.map Prod.fst := by
  rw [Multimap.contains_iff, List.mem_map]
  constructor
  · rintro ⟨value, hmem⟩
    exact ⟨_, hmem, rfl⟩
  · rintro ⟨⟨_, value⟩, hmem, rfl⟩
    exact ⟨value, hmem⟩

/-- The names of the block, and those that were given. -/
theorem pairwise_names_iff {names keys : List Bytes} {found : Bytes → Bool} (hkeys : Keys names keys)
    (hfound : ∀ name, found name = true ↔ name ∈ keys) :
    ((fixedNames ++ defaultNames.filter fun name => !found name) ++ keys).Pairwise MayFollow ↔
      Apart names := by
  have hown : (fixedNames ++ defaultNames.filter fun name => !found name).Pairwise MayFollow :=
    ownNames_pairwise.sublist (List.filter_sublist.append_left fixedNames)
  rw [List.pairwise_append]
  constructor
  · rintro ⟨-, hpair, hcross⟩
    have hdifferent {name other : Bytes} (hname : name ∈ keys) (hother : other ∈ keys) (hne : name ≠ other) :
        MayFollow name other :=
      hpair.forall hname hother hne
    constructor
    · intro name hname other hother hsame
      by_cases heq : name = other
      · exact Or.inl heq
      · exact Or.inr (hdifferent (hkeys.all name hname) (hkeys.all other hother) heq hsame)
    · intro name hname own hmem hsame
      have hcookie := hcross own (List.mem_append_left _ hmem) name (hkeys.all name hname) hsame.symm
      exact ownNames_ne_setCookie own (List.mem_append_left _ hmem) hcookie
    · intro name hname own hmem hsame
      have hcookie := ownNames_ne_setCookie own (List.mem_append_right _ hmem)
      by_contra hne
      cases hkey : found own with
      | true =>
          have hboth := hdifferent ((hfound own).mp hkey) (hkeys.all name hname) (Ne.symm hne)
          exact hcookie (hboth hsame.symm)
      | false =>
          have hsent : own ∈ defaultNames.filter fun name => !found name :=
            List.mem_filter.mpr ⟨hmem, by rw [hkey]; rfl⟩
          exact hcookie (hcross own (List.mem_append_right _ hsent) name (hkeys.all name hname) hsame.symm)
  · intro hapart
    refine ⟨hown, ?_, ?_⟩
    · apply hkeys.once.imp_of_mem
      intro name other hname hother honce hsame
      rcases hkeys.given name hname with hgiven | rfl
      · rcases hkeys.given other hother with hgiven' | rfl
        · rcases hapart.given name hgiven other hgiven' hsame with heq | hcookie
          · exact honce heq ▸ SameName.refl name
          · exact hcookie
        · exact hsame
      · exact SameName.refl _
    · intro own hmem name hname hsame
      rcases hkeys.given name hname with hgiven | rfl
      · rcases List.mem_append.mp hmem with hfixed | hdefault
        · exact absurd hsame.symm (hapart.fixed name hgiven own hfixed)
        · obtain ⟨hdefault, hnot⟩ := List.mem_filter.mp hdefault
          obtain rfl := hapart.default name hgiven own hdefault hsame.symm
          rw [(hfound name).mpr hname] at hnot
          cases hnot
      · exact hsame

/-- The header given last under a name is in the multimap. -/
theorem Holds.lastGiven {calls : List BuilderCall}
    (h : Holds (calls.filterMap BuilderCall.given) headers) {name value : Bytes}
    (hlast : lastGiven calls name = some value) :
    ∃ field ∈ headers.entries, SameName field.1 name ∧ field.2 = value := by
  obtain ⟨field, hfound, rfl⟩ := Option.map_eq_some_iff.mp hlast
  have hsame := List.find?_some hfound
  exact ⟨field, h.last (fun other => caseInsensitiveSame other name) field hfound, hsame, rfl⟩

theorem unambiguous_of_once {calls : List BuilderCall} {fields : List (Bytes × Bytes)}
    (honce : (fields.map Prod.fst).Pairwise MayFollow)
    (hpresent : ∀ name value, lastGiven calls name = some value →
      ∃ field ∈ fields, SameName field.1 name ∧ field.2 = value) :
    Unambiguous calls fields where
  once := honce
  present := hpresent
  last name value hlast field hfield hsame := by
    obtain ⟨last, hmem, hname, rfl⟩ := hpresent name value hlast
    by_cases heq : field = last
    · exact Or.inl (congrArg Prod.snd heq)
    · have : Std.Symm fun a b : Bytes × Bytes => MayFollow a.1 b.1 :=
        ⟨fun _ _ hab => symm hab⟩
      have hfollow := (List.pairwise_map.mp honce).forall hfield hmem heq
      exact Or.inr (hsame.symm.trans (hfollow (hsame.trans hname.symm)))

theorem call_code (builder : ResponseBuilder) (call : BuilderCall) : (builder.call call).code = builder.code := by
  cases call <;> rfl

theorem calls_code (builder : ResponseBuilder) (calls : List BuilderCall) :
    (calls.foldl ResponseBuilder.call builder).code = builder.code := by
  induction calls generalizing builder with
  | nil => rfl
  | cons call calls ih => exact (ih _).trans (call_code builder call)

end Seasocks
