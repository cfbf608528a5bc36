import Mathlib.Data.List.Forall2
import Seasocks.Proof.CrackedUris

/-!
# Encoded URIs and back

A URI that is put together from encoded components is cracked into these components again. No separator
is left in an encoded component, so splitting finds the joints and nothing else.
-/

namespace Seasocks.CrackedUri

open PercentEncoding

/-- A query item: an encoded key, `=` and an encoded value. -/
def RendersItem (param : Bytes × Bytes) (item : Bytes) : Prop :=
  ∃ key value, Encodes param.1 key ∧ Encodes param.2 value ∧ item = key ++ 61 :: value

/-- A URI of encoded segments and items. -/
def Renders (path : List Bytes) (params : List (Bytes × Bytes)) (uri : Bytes) : Prop :=
  ∃ texts items, List.Forall₂ Encodes path texts ∧ List.Forall₂ RendersItem params items ∧
    uri = 47 :: (List.intercalate [47] texts ++ 63 :: List.intercalate [38] items)

theorem mapM_of_forall₂ {α β : Type} {f : α → Option β} {l : List α} {l' : List β}
    (h : List.Forall₂ (fun b a => f a = some b) l' l) : l.mapM f = some l' := by
  induction h with
  | nil => rfl
  | cons hab _ ih =>
      rw [List.mapM_cons, hab, ih]
      rfl

theorem parameter_of_renders {param : Bytes × Bytes} {item : Bytes} (h : RendersItem param item) :
    parameter item = some param := by
  obtain ⟨key, value, hkey, hvalue, rfl⟩ := h
  have hpieces : (key ++ 61 :: value).splitOn 61 = [key, value] := by
    rw [List.splitOn_append_cons_self_of_not_mem (not_mem_of_encodes hkey (by decide)),
      List.splitOn_eq_singleton (not_mem_of_encodes hvalue (by decide))]
  rw [parameter, hpieces, List.mapM_cons, List.mapM_cons, decode_encodes hkey, decode_encodes hvalue]
  rfl

theorem not_mem_intercalate {c d : UInt8} {texts : List Bytes} (hd : c ≠ d)
    (htexts : ∀ text ∈ texts, c ∉ text) : c ∉ List.intercalate [d] texts := by
  induction texts with
  | nil => simp
  | cons text texts ih =>
      rw [List.forall_mem_cons] at htexts
      by_cases hrest : texts = []
      · rw [hrest, List.intercalate_singleton]
        exact htexts.1
      · rw [List.intercalate_cons_of_ne_nil hrest, List.mem_append, List.mem_append,
          List.mem_singleton]
        rintro ((hmem | heq) | hmem)
        · exact htexts.1 hmem
        · exact hd heq
        · exact ih htexts.2 hmem

theorem not_mem_of_forall₂ {path texts : List Bytes} (h : List.Forall₂ Encodes path texts) {c : UInt8}
    (hc : ¬ Plain c) : ∀ text ∈ texts, c ∉ text := by
  induction h with
  | nil => simp
  | cons hencodes _ ih => exact List.forall_mem_cons.mpr ⟨not_mem_of_encodes hencodes hc, ih⟩

/-- Only the lists of no segment and of one empty segment have an empty text. -/
theorem eq_nil_of_intercalate {texts : List Bytes} (h : List.intercalate [47] texts = []) :
    texts = [] ∨ texts = [[]] := by
  match texts, h with
  | [], _ => exact Or.inl rfl
  | [text], h => exact Or.inr (by rw [← h, List.intercalate_singleton])
  | text :: text' :: texts, h =>
      rw [List.intercalate_cons_of_ne_nil (List.cons_ne_nil text' texts)] at h
      simp at h

theorem segments_of_renders {path texts : List Bytes} (hpath : path ≠ [[]])
    (htexts : List.Forall₂ Encodes path texts) (query : Bytes) :
    (segments (47 :: (List.intercalate [47] texts ++ 63 :: query))).mapM decode = some path := by
  have hquestion : 63 ∉ List.intercalate [47] texts :=
    not_mem_intercalate (by decide) (not_mem_of_forall₂ htexts (by decide))
  have hdecode : texts.mapM decode = some path :=
    mapM_of_forall₂ (htexts.imp fun _ _ h => decode_encodes h)
  rw [segments, pathText_eq hquestion]
  split_ifs with hempty
  · rcases eq_nil_of_intercalate hempty with rfl | rfl
    · exact hdecode
    · obtain ⟨bytes, hbytes⟩ : ∃ bytes, path = [bytes] := by
        cases htexts with
        | cons _ hrest =>
            cases hrest
            exact ⟨_, rfl⟩
      subst hbytes
      cases htexts with
      | cons hencodes _ => exact absurd (congrArg (· :: []) (encodes_nil_iff.mp hencodes)) hpath
  · have hne : texts ≠ [] := by
      rintro rfl
      exact hempty rfl
    rw [List.splitOn_intercalate 47 (not_mem_of_forall₂ htexts (by decide)) hne]
    exact hdecode

theorem item_of_renders {params : List (Bytes × Bytes)} {items : List Bytes}
    (h : List.Forall₂ RendersItem params items) : ∀ item ∈ items, 38 ∉ item ∧ item ≠ [] := by
  induction h with
  | nil => simp
  | cons hitem _ ih =>
      obtain ⟨key, value, hkey, hvalue, rfl⟩ := hitem
      apply List.forall_mem_cons.mpr ⟨⟨?_, by simp⟩, ih⟩
      rw [List.mem_append, List.mem_cons]
      rintro (hmem | heq | hmem)
      · exact not_mem_of_encodes hkey (by decide) hmem
      · exact absurd heq (by decide)
      · exact not_mem_of_encodes hvalue (by decide) hmem

theorem items_of_renders {params : List (Bytes × Bytes)} {items path : List Bytes}
    (hpath : 63 ∉ List.intercalate [47] path) (h : List.Forall₂ RendersItem params items) :
    (CrackedUri.items (47 :: (List.intercalate [47] path ++ 63 :: List.intercalate [38] items))).mapM
      parameter = some params := by
  have hitems := item_of_renders h
  have hparameters : items.mapM parameter = some params :=
    mapM_of_forall₂ (h.imp fun _ _ hitem => parameter_of_renders hitem)
  rw [CrackedUri.items, queryText_eq hpath]
  by_cases hne : items = []
  · subst hne
    exact hparameters
  · rw [List.splitOn_intercalate 38 (fun item hitem => (hitems item hitem).1) hne,
      List.filter_eq_self.mpr fun item hitem => decide_eq_true (hitems item hitem).2]
    exact hparameters

theorem crack_of_renders {path : List Bytes} {params : List (Bytes × Bytes)} {uri : Bytes}
    (hpath : path ≠ [[]]) (h : Renders path params uri) : crack uri = some (path, params) := by
  obtain ⟨texts, items, htexts, hitems, rfl⟩ := h
  have hquestion : 63 ∉ List.intercalate [47] texts :=
    not_mem_intercalate (by decide) (not_mem_of_forall₂ htexts (by decide))
  rw [crack, segments_of_renders hpath htexts, items_of_renders hquestion hitems]
  rfl

/-! ### Looking parameters up -/

theorem hasParam_iff (uri : CrackedUri) (key : Bytes) :
    uri.hasParam key = true ↔ ∃ element ∈ uri.queryParams.elements, element.1 = key := by
  rw [hasParam, decide_eq_true_eq, QueryParams.find, ne_eq, List.dropWhile_eq_nil_iff]
  push Not
  simp

/-- The elements from `find` on that have the key are all that have it. -/
theorem allQueryParams_eq (uri : CrackedUri) (key : Bytes) :
    uri.allQueryParams key =
      (uri.queryParams.elements.filter fun element => element.1 == key).map (·.2) := by
  obtain ⟨before, block, after, helements, hbefore, hblock, hafter⟩ := uri.queryParams.grouped key
  have hnone : ∀ l : List (Bytes × Bytes), (∀ element ∈ l, element.1 ≠ key) →
      l.filter (fun element => element.1 == key) = [] ∧
        l.dropWhile (fun element => element.1 != key) = [] ∧
        l.takeWhile (fun element => element.1 == key) = [] := by
    intro l hl
    refine ⟨?_, ?_, ?_⟩
    · exact List.filter_eq_nil_iff.mpr fun element h => by simpa using hl element h
    · exact List.dropWhile_eq_nil_iff.mpr fun element h => bne_iff_ne.mpr (hl element h)
    · cases l with
      | nil => rfl
      | cons element l => exact List.takeWhile_cons_of_neg (by simpa using hl element List.mem_cons_self)
  have hkept : ∀ element ∈ block, (element.1 == key) = true :=
    fun element h => beq_iff_eq.mpr (hblock element h)
  have hfilter : uri.queryParams.elements.filter (fun element => element.1 == key) = block := by
    rw [helements, List.filter_append, List.filter_append, (hnone before hbefore).1,
      (hnone after hafter).1, List.filter_eq_self.mpr hkept, List.nil_append, List.append_nil]
  rw [allQueryParams, QueryParams.find, hfilter, helements,
    List.dropWhile_append_of_pos fun element h => bne_iff_ne.mpr (hbefore element h)]
  cases block with
  | nil => rw [List.nil_append, (hnone after hafter).2.1, List.takeWhile_nil]
  | cons element block =>
      have hfirst : (element :: (block ++ after)).dropWhile (fun element => element.1 != key) =
          element :: (block ++ after) :=
        List.dropWhile_cons_of_neg (by simpa using hblock element List.mem_cons_self)
      rw [List.cons_append, hfirst, ← List.cons_append, List.takeWhile_append_of_pos hkept,
        (hnone after hafter).2.2, List.append_nil]

/-- The round trip. -/
theorem create_of_renders (buckets : Buckets) {path : List Bytes} {params : List (Bytes × Bytes)}
    {uri : Bytes} (hpath : path ≠ [[]]) (h : Renders path params uri) :
    ∃ cracked, create buckets uri = .ok cracked ∧ cracked.path = path ∧
      ∀ key, (cracked.hasParam key = true ↔ ∃ value, (key, value) ∈ params) ∧
        (cracked.allQueryParams key).Perm
          ((params.filter fun param => param.1 == key).map (·.2)) := by
  have hagrees := create_agrees buckets uri
  rw [crack_of_renders hpath h] at hagrees
  obtain ⟨cracked, hcracked, hpath, hstores⟩ := hagrees
  refine ⟨cracked, hcracked, hpath, fun key => ⟨?_, ?_⟩⟩
  · rw [hasParam_iff]
    constructor
    · rintro ⟨⟨_, value⟩, helement, rfl⟩
      exact ⟨value, hstores.mem_iff.mp helement⟩
    · rintro ⟨value, hvalue⟩
      exact ⟨(key, value), hstores.mem_iff.mpr hvalue, rfl⟩
  · rw [allQueryParams_eq]
    exact (hstores.filter _).map _

theorem create_of_renders_slash :
    ∃ cracked, create .toFront (ascii "/a%2Fb/?k=%3d&k=+") = .ok cracked ∧
      cracked.path = [ascii "a/b", []] ∧
      ∀ key, (cracked.hasParam key = true ↔
          ∃ value, (key, value) ∈ [(ascii "k", ascii "="), (ascii "k", ascii " ")]) ∧
        (cracked.allQueryParams key).Perm
          (([(ascii "k", ascii "="), (ascii "k", ascii " ")].filter fun param => param.1 == key).map
            (·.2)) := by
  apply create_of_renders .toFront (by decide +kernel)
  have ha : EncodesByte 97 (ascii "a") := .unreserved (by decide)
  have hslash : EncodesByte 47 (ascii "%2F") := .escape (by decide) (by decide)
  have hb : EncodesByte 98 (ascii "b") := .unreserved (by decide)
  have hk : EncodesByte 107 (ascii "k") := .unreserved (by decide)
  have hequals : EncodesByte 61 (ascii "%3d") := .escape (by decide) (by decide)
  have hspace : EncodesByte 32 (ascii "+") := .plus rfl
  exact ⟨[ascii "a%2Fb", []], [ascii "k=%3d", ascii "k=+"],
    .cons (.cons ha (.cons hslash (.cons hb .nil))) (.cons .nil .nil),
    .cons ⟨ascii "k", ascii "%3d", .cons hk .nil, .cons hequals .nil, by decide +kernel⟩
      (.cons ⟨ascii "k", ascii "+", .cons hk .nil, .cons hspace .nil, by decide +kernel⟩ .nil),
    by decide +kernel⟩

end Seasocks.CrackedUri
