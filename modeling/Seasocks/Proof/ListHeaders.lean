import Seasocks.Library.Program
import Seasocks.Library.Separators
import Seasocks.Requests

/-!
# Headers that are lists

Which `Connection` and `Sec-WebSocket-Extensions` headers are read as lists of elements between commas.
-/

namespace Seasocks

open Program Separators

variable {value type header element : Bytes} {c d : UInt8}

/-! ### Blanks around a part -/

/-- Blanks behind the last other byte. -/
def EndsBlank (s : Bytes) : Prop := ∃ b ∈ s.getLast?, isspace b = true

/-- Behind the blanks it may begin with, `element` ends in blanks. -/
def Padded (element : Bytes) : Prop := EndsBlank (element.dropWhile isspace)

/-- An element that is `name` between blanks, whatever the case. -/
def Named (name element : Bytes) : Prop := caseInsensitiveSame (trimWhitespace element) name = true

theorem isspace_tolower (b : UInt8) : isspace (tolower b) = isspace b := by
  rw [tolower]
  split_ifs with hupper
  · have hrange : 65 ≤ b.toNat ∧ b.toNat ≤ 90 := by
      simpa [UInt8.le_iff_toNat_le] using hupper
    have hlower : (b + 32).toNat = b.toNat + 32 := by
      rw [UInt8.toNat_add]
      exact Nat.mod_eq_of_lt (by simp; omega)
    rw [Bool.eq_iff_iff, isspace_iff, isspace_iff, hlower]
    omega
  · rfl

theorem not_endsBlank_trimWhitespace (s : Bytes) : ¬ EndsBlank (trimWhitespace s) := by
  rintro ⟨b, hb, hblank⟩
  rw [trimWhitespace, List.getLast?_reverse] at hb
  have hnot := List.head?_dropWhile_not isspace (s.dropWhile isspace).reverse
  rw [Option.mem_def.mp hb] at hnot
  exact Bool.false_ne_true (hnot.symm.trans hblank)

theorem trimWhitespace_of_not_padded (h : ¬ Padded element) :
    trimWhitespace element = element.dropWhile isspace := by
  rw [trimWhitespace]
  rcases List.eq_nil_or_concat (element.dropWhile isspace) with hnil | ⟨more, b, hlast⟩
  · rw [hnil]
    rfl
  · have hb : ¬ isspace b = true := fun hb => h ⟨b, by simp [hlast], hb⟩
    rw [hlast, List.concat_eq_append, List.reverse_append, List.reverse_singleton,
      List.singleton_append, List.dropWhile_cons_of_neg hb]
    simp

theorem endsBlank_congr {s t : Bytes} (h : caseInsensitiveSame s t = true) :
    EndsBlank s ↔ EndsBlank t := by
  have hlast := congrArg List.getLast? (caseInsensitiveSame_iff.mp h)
  rw [List.getLast?_map, List.getLast?_map] at hlast
  have endsBlank_iff : ∀ s, EndsBlank s ↔ ∃ b ∈ s.getLast?.map tolower, isspace b = true := by
    intro s
    simp [EndsBlank, isspace_tolower]
  rw [endsBlank_iff, hlast, ← endsBlank_iff]

/-- Taking away the blanks in front is enough for an element with no blanks behind it. -/
theorem caseInsensitiveSame_dropWhile_iff (htype : ¬ EndsBlank type) :
    caseInsensitiveSame (element.dropWhile isspace) type = true ↔
      Named type element ∧ ¬ Padded element := by
  constructor
  · intro h
    have hpadded : ¬ Padded element := fun hends => htype ((endsBlank_congr h).mp hends)
    rw [Named, trimWhitespace_of_not_padded hpadded]
    exact ⟨h, hpadded⟩
  · rintro ⟨hnamed, hpadded⟩
    rw [Named, trimWhitespace_of_not_padded hpadded] at hnamed
    exact hnamed

theorem not_named_of_endsBlank (htype : EndsBlank type) : ¬ Named type element :=
  fun h => not_endsBlank_trimWhitespace element ((endsBlank_congr h).mpr htype)

/-! ### Connection types -/

/-- `hasConnectionType` finds `type` exactly if it is one of the elements between the commas. -/
def FindsType (value type : Bytes) : Prop :=
  Connection.hasConnectionType value type = true ↔ ∃ element ∈ value.splitOn 44, Named type element

theorem hasConnectionType_iff :
    Connection.hasConnectionType value type = true ↔ value ≠ [] ∧
      ∃ element ∈ value.splitOn 44, caseInsensitiveSame (element.dropWhile isspace) type = true := by
  rw [Connection.hasConnectionType, List.any_eq_true]
  by_cases hvalue : value = []
  · simp [hvalue, split]
  · simp [hvalue, split_eq_splitOn hvalue]

theorem not_padded_nil : ¬ Padded [] := by
  rintro ⟨b, hb, -⟩
  cases hb

theorem named_nil_iff : Named type [] ↔ type = [] := by
  rw [Named, caseInsensitiveSame_iff]
  constructor
  · intro h
    exact List.map_eq_nil_iff.mp h.symm
  · rintro rfl
    rfl

theorem findsType_iff :
    FindsType value type ↔
      (EndsBlank type ∧ ∀ element ∈ value.splitOn 44,
        ¬ caseInsensitiveSame (element.dropWhile isspace) type = true) ∨
      (¬ EndsBlank type ∧ (value = [] → type ≠ []) ∧
        ((∃ element ∈ value.splitOn 44, Named type element ∧ Padded element) →
          ∃ element ∈ value.splitOn 44, Named type element ∧ ¬ Padded element)) := by
  rw [FindsType, hasConnectionType_iff]
  by_cases htype : EndsBlank type
  · have hnone : ¬ ∃ element ∈ value.splitOn 44, Named type element := by
      rintro ⟨element, -, hnamed⟩
      exact not_named_of_endsBlank htype hnamed
    rw [iff_false_right hnone]
    constructor
    · intro h
      refine Or.inl ⟨htype, fun element helement hsame => h ⟨?_, element, helement, hsame⟩⟩
      rintro rfl
      rw [List.splitOn_nil, List.mem_singleton] at helement
      subst helement
      exact not_padded_nil ((endsBlank_congr hsame).mpr htype)
    · rintro (⟨-, h⟩ | ⟨hnot, -⟩)
      · rintro ⟨-, element, helement, hsame⟩
        exact h element helement hsame
      · exact absurd htype hnot
  · simp only [caseInsensitiveSame_dropWhile_iff htype, htype, false_and, false_or, not_false_iff,
      true_and]
    by_cases hvalue : value = []
    · subst hvalue
      simp [List.splitOn_nil, named_nil_iff, not_padded_nil]
    · simp only [ne_eq, hvalue, not_false_iff, true_and, false_imp_iff]
      constructor
      · rintro h ⟨element, helement, hnamed, -⟩
        exact h.mpr ⟨element, helement, hnamed⟩
      · intro h
        constructor
        · rintro ⟨element, helement, hnamed, -⟩
          exact ⟨element, helement, hnamed⟩
        · rintro ⟨element, helement, hnamed⟩
          by_cases hpadded : Padded element
          · exact h ⟨element, helement, hnamed, hpadded⟩
          · exact ⟨element, helement, hnamed, hpadded⟩

/-! ### Extensions -/

def deflateName : Bytes := ascii "permessage-deflate"

/-- An offer of the extension: an element between commas, up to its parameters. -/
def OffersDeflate (header : Bytes) : Prop :=
  ∃ offer ∈ header.splitOn 44, Named deflateName (offer.takeWhile (· != 59))

/-- Compression is enabled exactly if it is offered. -/
def EnablesOffered (header : Bytes) : Prop :=
  ∀ c : Connection, Ends (Connection.parsePerMessageDeflateHeader header) c
    (fun _ c' => c'.perMessageDeflate = true ↔ c.perMessageDeflate = true ∨ OffersDeflate header)
    fun _ _ => False

/-- The header begins with the name, and a `;` or nothing comes directly behind it. -/
def BeginsWithName (header : Bytes) : Prop :=
  ∃ piece after, header = piece ++ after ∧ Named deflateName piece ∧ ¬ Padded piece ∧
    ∀ b ∈ after.head?, b = 59

/-- The name is a parameter of an offer, with another one or nothing directly behind it. -/
def NameAsParameter (header : Bytes) : Prop :=
  ∃ before piece after, header = before ++ 59 :: (piece ++ after) ∧ Named deflateName piece ∧
    ¬ Padded piece ∧ ∀ b ∈ after.head?, b = 59

/-- The name is that of an offer behind a comma, or of the first offer, with blanks or a comma behind
it. -/
def OverlookedOffer (header : Bytes) : Prop :=
  (∃ before piece after, header = before ++ 44 :: (piece ++ after) ∧ Named deflateName piece ∧
    ∀ b ∈ after.head?, b = 44 ∨ b = 59) ∨
  ∃ piece after, header = piece ++ after ∧ Named deflateName piece ∧
    (Padded piece ∧ (∀ b ∈ after.head?, b = 44 ∨ b = 59) ∨ after.head? = some 44)

theorem mem_trimWhitespace {s : Bytes} (hmem : c ∈ s) (hblank : isspace c = false) :
    c ∈ trimWhitespace s := by
  have mem_dropWhile : ∀ s : Bytes, c ∈ s → c ∈ s.dropWhile isspace := by
    intro s hmem
    rw [← s.takeWhile_append_dropWhile (p := isspace), List.mem_append] at hmem
    refine hmem.resolve_left fun hmem => ?_
    rw [List.mem_takeWhile_imp hmem] at hblank
    cases hblank
  rw [trimWhitespace, List.mem_reverse]
  exact mem_dropWhile _ (List.mem_reverse.mpr (mem_dropWhile s hmem))

/-- There is no separator in the name, nor in the blanks around it. -/
theorem Named.not_mem {piece : Bytes} (h : Named deflateName piece) (hblank : isspace c = false)
    (hname : tolower c ∉ deflateName.map tolower) : c ∉ piece := by
  intro hmem
  rw [Named, caseInsensitiveSame_iff] at h
  exact hname (h ▸ List.mem_map_of_mem (mem_trimWhitespace hmem hblank))

theorem comma_not_mem {piece : Bytes} (h : Named deflateName piece) : 44 ∉ piece :=
  h.not_mem (by decide) (by decide)

theorem semicolon_not_mem {piece : Bytes} (h : Named deflateName piece) : 59 ∉ piece :=
  h.not_mem (by decide) (by decide)

theorem opening_cases {before : Bytes} (h : ∀ b ∈ before.getLast?, b = c) :
    before = [] ∨ ∃ before', before = before' ++ [c] := by
  rcases List.eq_nil_or_concat before with rfl | ⟨before', b, rfl⟩
  · exact Or.inl rfl
  · exact Or.inr ⟨before', by rw [h b (by simp), List.concat_eq_append]⟩

/-- Some part of the header between semicolons is the name, with no blanks behind it. -/
def FoundByName (header : Bytes) : Prop :=
  ∃ field ∈ header.splitOn 59, Named deflateName field ∧ ¬ Padded field

theorem foundByName_iff : FoundByName header ↔ BeginsWithName header ∨ NameAsParameter header := by
  constructor
  · rintro ⟨field, hfield, hnamed, hpadded⟩
    obtain ⟨-, before, after, rfl, hbefore, hafter⟩ := mem_splitOn_iff.mp hfield
    rcases opening_cases hbefore with rfl | ⟨before, rfl⟩
    · exact Or.inl ⟨field, after, rfl, hnamed, hpadded, hafter⟩
    · exact Or.inr ⟨before, field, after, by simp, hnamed, hpadded, hafter⟩
  · rintro (⟨piece, after, rfl, hnamed, hpadded, hafter⟩ |
      ⟨before, piece, after, rfl, hnamed, hpadded, hafter⟩)
    · refine ⟨piece, mem_splitOn_iff.mpr ?_, hnamed, hpadded⟩
      exact ⟨semicolon_not_mem hnamed, [], after, rfl, by simp, hafter⟩
    · refine ⟨piece, mem_splitOn_iff.mpr ?_, hnamed, hpadded⟩
      exact ⟨semicolon_not_mem hnamed, before ++ [59], after, by simp, by simp, hafter⟩

/-- The name of an offer is what is between a comma and the next separator. -/
theorem offersDeflate_of_piece (before : Bytes) {piece after : Bytes}
    (hbefore : ∀ b ∈ before.getLast?, b = 44) (hnamed : Named deflateName piece)
    (hafter : ∀ b ∈ after.head?, b = 44 ∨ b = 59) :
    OffersDeflate (before ++ (piece ++ after)) := by
  have hpiece : ∀ b ∈ piece, (b != 59) = true := by
    intro b hb
    rw [bne_iff_ne]
    rintro rfl
    exact semicolon_not_mem hnamed hb
  have hname : (piece ++ after.takeWhile (· != 44)).takeWhile (· != 59) = piece := by
    rw [List.takeWhile_append_of_pos hpiece]
    cases after with
    | nil => simp
    | cons b after =>
        rcases hafter b rfl with rfl | rfl
        · simp
        · simp
  refine ⟨piece ++ after.takeWhile (· != 44), mem_splitOn_iff.mpr ⟨?_, before,
    after.dropWhile (· != 44), ?_, hbefore, ?_⟩, ?_⟩
  · rw [List.mem_append, not_or]
    refine ⟨comma_not_mem hnamed, fun hmem => ?_⟩
    have hne := List.mem_takeWhile_imp hmem
    simp at hne
  · rw [List.append_assoc, List.takeWhile_append_dropWhile]
  · intro b hb
    have hnot := List.head?_dropWhile_not (· != 44) after
    rw [Option.mem_def.mp hb] at hnot
    simpa using hnot
  · rw [hname]
    exact hnamed

theorem offersDeflate_iff : OffersDeflate header ↔ BeginsWithName header ∨ OverlookedOffer header := by
  constructor
  · rintro ⟨offer, hoffer, hnamed⟩
    obtain ⟨-, before, after, rfl, hbefore, hafter⟩ := mem_splitOn_iff.mp hoffer
    have hrest : ∀ b ∈ (offer.dropWhile (· != 59) ++ after).head?, b = 44 ∨ b = 59 := by
      intro b hb
      cases hparameters : offer.dropWhile (· != 59) with
      | nil =>
          rw [hparameters, List.nil_append] at hb
          exact Or.inl (hafter b hb)
      | cons d parameters =>
          have hnot := List.head?_dropWhile_not (· != 59) offer
          rw [hparameters] at hb hnot
          injection hb with hb
          exact Or.inr (by simpa [hb] using hnot)
    have hcut : offer ++ after =
        offer.takeWhile (· != 59) ++ (offer.dropWhile (· != 59) ++ after) := by
      rw [← List.append_assoc, List.takeWhile_append_dropWhile]
    rcases opening_cases hbefore with rfl | ⟨before, rfl⟩
    · rw [List.nil_append, hcut]
      by_cases hpadded : Padded (offer.takeWhile (· != 59))
      · exact Or.inr (Or.inr ⟨_, _, rfl, hnamed, Or.inl ⟨hpadded, hrest⟩⟩)
      by_cases hcomma : (offer.dropWhile (· != 59) ++ after).head? = some 44
      · exact Or.inr (Or.inr ⟨_, _, rfl, hnamed, Or.inr hcomma⟩)
      · refine Or.inl ⟨_, _, rfl, hnamed, hpadded, fun b hb => (hrest b hb).resolve_left ?_⟩
        rintro rfl
        exact hcomma hb
    · exact Or.inr (Or.inl ⟨before, _, _, by simp [← hcut], hnamed, hrest⟩)
  · rintro (⟨piece, after, rfl, hnamed, -, hafter⟩ | ⟨before, piece, after, rfl, hnamed, hafter⟩ |
      ⟨piece, after, rfl, hnamed, hafter⟩)
    · exact offersDeflate_of_piece [] (by simp) hnamed fun b hb => Or.inr (hafter b hb)
    · have := offersDeflate_of_piece (before ++ [44]) (by simp) hnamed hafter
      rwa [List.append_assoc] at this
    · refine offersDeflate_of_piece [] (by simp) hnamed ?_
      rcases hafter with ⟨-, hafter⟩ | hafter
      · exact hafter
      · intro b hb
        rw [hafter] at hb
        injection hb with hb
        exact Or.inl hb.symm

theorem not_endsBlank_deflateName : ¬ EndsBlank deflateName := by
  rintro ⟨b, hb, hblank⟩
  have hlast : deflateName.getLast? = some 101 := by decide
  rw [hlast] at hb
  injection hb with hb
  rw [← hb] at hblank
  revert hblank
  decide

theorem parsePerMessageDeflateHeader_enables (header : Bytes) (c : Connection) :
    Ends (Connection.parsePerMessageDeflateHeader header) c
      (fun _ c' => c'.perMessageDeflate = true ↔ c.perMessageDeflate = true ∨ FoundByName header)
      fun _ _ => False := by
  have fields : ∀ (extFields : List Bytes) (c : Connection),
      Ends (forM extFields fun extField => do
          if caseInsensitiveSame (extField.dropWhile isspace) (ascii "permessage-deflate") then
            modify fun c => { c with perMessageDeflate := true }
            Connection.record .initialise : ConnM Unit) c
        (fun _ c' => c'.perMessageDeflate = true ↔ c.perMessageDeflate = true ∨
          ∃ field ∈ extFields, caseInsensitiveSame (field.dropWhile isspace) deflateName = true)
        fun _ _ => False := by
    intro extFields
    induction extFields with
    | nil =>
        intro c
        simp [ends_pure]
    | cons extField extFields ih =>
        intro c
        rw [List.forM_cons, ends_bind, ends_ite]
        refine ⟨fun hsame => ?_, fun hdiffers => ?_⟩
        · rw [ends_bind, ends_modify, Connection.record, ends_modify]
          refine (ih _).mono (fun _ c' h => ?_) fun _ _ => id
          simp [h, hsame, deflateName]
        · rw [ends_pure]
          refine (ih c).mono (fun _ c' h => ?_) fun _ _ => id
          simp [h, hdiffers, deflateName]
  have hfound : FoundByName header ↔
      ∃ field ∈ split header 59, caseInsensitiveSame (field.dropWhile isspace) deflateName = true := by
    rw [FoundByName]
    simp only [← caseInsensitiveSame_dropWhile_iff not_endsBlank_deflateName]
    by_cases hheader : header = []
    · simp [hheader, split, List.splitOn_nil]
      decide
    · rw [split_eq_splitOn hheader]
  rw [hfound]
  exact fields (split header 59) c

theorem enablesOffered_iff_found :
    EnablesOffered header ↔ (FoundByName header ↔ OffersDeflate header) := by
  constructor
  · intro h
    have hboth := (parsePerMessageDeflateHeader_enables header Connection.fresh).and
      (h Connection.fresh)
    apply Ends.const
    refine hboth.mono (fun _ c' hc' => ?_) fun _ _ h => h.1.elim
    have hoff : ¬ Connection.fresh.perMessageDeflate = true := Bool.false_ne_true
    rw [or_iff_right hoff, or_iff_right hoff] at hc'
    exact hc'.1.symm.trans hc'.2
  · intro hsame c
    rw [← hsame]
    exact parsePerMessageDeflateHeader_enables header c

theorem enablesOffered_iff :
    EnablesOffered header ↔
      BeginsWithName header ∨ (NameAsParameter header ↔ OverlookedOffer header) := by
  rw [enablesOffered_iff_found, foundByName_iff, offersDeflate_iff]
  by_cases hbegins : BeginsWithName header
  · simp [hbegins]
  · simp [hbegins]

/-- **List-valued headers.** `hasConnectionType` finds the elements with no blanks behind them, and
`parsePerMessageDeflateHeader` the names that semicolons separate: when that is as if commas did, and
blanks around an element did not matter. -/
theorem listHeaders_iff (value type : Bytes) :
    (FindsType value type ↔
      (EndsBlank type ∧ ∀ element ∈ value.splitOn 44,
        ¬ caseInsensitiveSame (element.dropWhile isspace) type = true) ∨
      (¬ EndsBlank type ∧ (value = [] → type ≠ []) ∧
        ((∃ element ∈ value.splitOn 44, Named type element ∧ Padded element) →
          ∃ element ∈ value.splitOn 44, Named type element ∧ ¬ Padded element))) ∧
    (EnablesOffered value ↔
      BeginsWithName value ∨ (NameAsParameter value ↔ OverlookedOffer value)) :=
  ⟨findsType_iff, enablesOffered_iff⟩

/-- Blanks before a comma hide an element, an offer behind a comma is overlooked, and a parameter of
another extension counts. -/
theorem not_listHeaders :
    ¬ FindsType (ascii "Upgrade , keep-alive") (ascii "Upgrade") ∧
    ¬ EnablesOffered (ascii "x-webkit-deflate-frame, permessage-deflate") ∧
    ¬ EnablesOffered (ascii "x-webkit-deflate-frame; permessage-deflate") := by
  have notNamed : ∀ piece, caseInsensitiveSame (trimWhitespace piece) deflateName = false →
      ¬ Named deflateName piece := fun piece h hnamed => Bool.false_ne_true (h.symm.trans hnamed)
  refine ⟨fun h => ?_, fun h => ?_, fun h => ?_⟩
  · have hfalse : Connection.hasConnectionType (ascii "Upgrade , keep-alive") (ascii "Upgrade") =
        false := by decide +kernel
    rw [h.mpr ⟨ascii "Upgrade ", by decide, by unfold Named; decide +kernel⟩] at hfalse
    cases hfalse
  · have hoffers : OffersDeflate (ascii "x-webkit-deflate-frame, permessage-deflate") :=
      ⟨ascii " permessage-deflate", by decide, by unfold Named; decide +kernel⟩
    obtain ⟨field, hfield, hnamed, -⟩ := (enablesOffered_iff_found.mp h).mpr hoffers
    revert hnamed
    apply notNamed
    revert hfield field
    decide +kernel
  · have hfound : FoundByName (ascii "x-webkit-deflate-frame; permessage-deflate") := by
      refine ⟨ascii " permessage-deflate", by decide, by unfold Named; decide +kernel, ?_⟩
      have hbare : (ascii " permessage-deflate").dropWhile isspace = deflateName := by decide
      rw [Padded, hbare]
      exact not_endsBlank_deflateName
    obtain ⟨offer, hoffer, hnamed⟩ := (enablesOffered_iff_found.mp h).mp hfound
    revert hnamed
    apply notNamed
    revert hoffer offer
    decide +kernel

end Seasocks
