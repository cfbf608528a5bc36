import Seasocks.CrackedUri
import Seasocks.Library.PercentEncoding
import Seasocks.Library.Separators
import Seasocks.Proof.Replacing

/-!
# What a cracked URI is

`unescape` rewrites the string it scans. Before its position there is what it decoded, behind it the text
is as it was, so its result is the one of a single pass; and it looks one character behind the string at
most, at the terminator, which is no digit.
-/

namespace Seasocks

open Hexadecimal PercentEncoding Separators

/-- A result is the one of a reference, up to a relation, and a `std::runtime_error` where the reference
has none. -/
def Agrees {α β : Type} (R : α → β → Prop) (result : Except UriError α) : Option β → Prop
  | some b => ∃ a, result = .ok a ∧ R a b
  | none => ∃ what, result = .error (.runtimeError what)

section Agrees

variable {α β γ δ : Type} {R : α → β → Prop} {S : γ → δ → Prop}

theorem Agrees.bind {result : Except UriError α} {reference : Option β} {f : α → Except UriError γ}
    {g : β → Option δ} (h : Agrees R result reference)
    (hf : ∀ a b, R a b → Agrees S (f a) (g b)) : Agrees S (result >>= f) (reference >>= g) := by
  cases reference with
  | none =>
      obtain ⟨what, rfl⟩ := h
      exact ⟨what, rfl⟩
  | some b =>
      obtain ⟨a, rfl, hab⟩ := h
      exact hf a b hab

theorem Agrees.mapM {f : α → Except UriError γ} {g : α → Option γ} {l : List α}
    (h : ∀ a, Agrees Eq (f a) (g a)) : Agrees Eq (l.mapM f) (l.mapM g) := by
  induction l with
  | nil => exact ⟨[], rfl, rfl⟩
  | cons a l ih =>
      rw [List.mapM_cons, List.mapM_cons]
      apply (h a).bind
      rintro b _ rfl
      apply ih.bind
      rintro bs _ rfl
      exact ⟨b :: bs, rfl, rfl⟩

theorem Agrees.foldlM {f : α → γ → Except UriError α} {g : β → γ → Option β} {l : List γ}
    (h : ∀ a b c, R a b → Agrees R (f a c) (g b c)) {a : α} {b : β} (hab : R a b) :
    Agrees R (l.foldlM f a) (l.foldlM g b) := by
  induction l generalizing a b with
  | nil => exact ⟨a, rfl, hab⟩
  | cons c l ih =>
      rw [List.foldlM_cons, List.foldlM_cons]
      apply (h a b c hab).bind
      intro a' b' hab'
      exact ih hab'

theorem agrees_eq_some {result : Except UriError α} {a : α} :
    Agrees Eq result (some a) ↔ result = .ok a := by
  constructor
  · rintro ⟨_, h, rfl⟩
    exact h
  · intro h
    exact ⟨a, h, rfl⟩

end Agrees

theorem ok_bind {ε α β : Type} (a : α) (f : α → Except ε β) :
    ((Except.ok a : Except ε α) >>= f) = f a := rfl

/-! ### Digits -/

theorem isxdigit_eq (c : UInt8) : isxdigit c = (hexValue c).isSome :=
  forall_byte (p := fun c => isxdigit c = (hexValue c).isSome) (by decide +kernel) c

theorem toNat_fromHex {c : UInt8} {v : Nat} (h : hexValue c = some v) :
    (fromHex c).toNat = v ∧ v < 16 :=
  forall_byte (p := fun c => ∀ v ∈ hexValue c, (fromHex c).toNat = v ∧ v < 16) (by decide +kernel) c v h

/-- The byte two digits stand for. -/
theorem fromHex_or {high low : UInt8} {h l : Nat} (hhigh : hexValue high = some h)
    (hlow : hexValue low = some l) :
    (fromHex high <<< 4) ||| fromHex low = UInt8.ofNat (16 * h + l) := by
  obtain ⟨hhigh, hh⟩ := toNat_fromHex hhigh
  obtain ⟨hlow, hl⟩ := toNat_fromHex hlow
  apply UInt8.toNat_inj.mp
  calc
    ((fromHex high <<< 4) ||| fromHex low).toNat = (h <<< 4 % 2 ^ 8) ||| l := by
      rw [UInt8.toNat_or, UInt8.toNat_shiftLeft, hhigh, hlow]
      rfl
    _ = h <<< 4 ||| l := by
      rw [Nat.shiftLeft_eq, Nat.mod_eq_of_lt (by omega)]
    _ = 16 * h + l := by
      rw [← Nat.shiftLeft_add_eq_or_of_lt (i := 4) hl, Nat.shiftLeft_eq, Nat.mul_comm]
    _ = (UInt8.ofNat (16 * h + l)).toNat := by
      rw [UInt8.toNat_ofNat', Nat.mod_eq_of_lt (by omega)]

theorem replace_plus (uri : Bytes) :
    replace uri (ascii "+") (ascii " ") = uri.map plusToSpace := by
  rw [replace_eq_substitute (by decide)]
  exact Substitution.substitute_singleton plus space uri

/-! ### The scan -/

theorem charAt_append {front rest : Bytes} {k : Nat} {c : UInt8} (h : rest[k]? = some c) :
    charAt (front ++ rest) (front.length + k) = .ok c := by
  obtain ⟨hk, rfl⟩ := List.getElem?_eq_some_iff.mp h
  have hlt : front.length + k < (front ++ rest).length := by
    rw [List.length_append]
    omega
  rw [charAt, dif_pos hlt, List.getElem_append_right (Nat.le_add_right _ _)]
  simp

theorem charAt_terminator (front rest : Bytes) :
    charAt (front ++ rest) (front.length + rest.length) = .ok 0 := by
  rw [← List.length_append, charAt, dif_neg (Nat.lt_irrefl _), if_pos rfl]

/-- The two characters behind a `%`, when neither is behind the terminator. -/
theorem escapeAt_eq {uri : Bytes} {pos : Nat} {high low : UInt8} (hlength : pos + 2 ≤ uri.length)
    (hhigh : charAt uri (pos + 1) = .ok high) (hlow : charAt uri (pos + 2) = .ok low) :
    escapeAt uri pos =
      if isxdigit high = true ∧ isxdigit low = true then .ok ((fromHex high <<< 4) ||| fromHex low)
      else .error (badDigit uri) := by
  rw [escapeAt, if_neg (Nat.not_lt.mpr hlength), hhigh, hlow, ok_bind]
  cases hfirst : isxdigit high with
  | false => rfl
  | true =>
      cases hsecond : isxdigit low with
      | false => rw [ok_bind, hsecond]; rfl
      | true => rw [ok_bind, hsecond]; rfl

/-- An escape is taken if two digits follow the `%`. -/
theorem escapeAt_of_beginsHex {front more : Bytes} {high low : UInt8} {h l : Nat}
    (hhigh : hexValue high = some h) (hlow : hexValue low = some l) :
    escapeAt (front ++ percent :: high :: low :: more) front.length =
      .ok (UInt8.ofNat (16 * h + l)) := by
  have hlength : front.length + 2 ≤ (front ++ percent :: high :: low :: more).length := by
    simp only [List.length_append, List.length_cons]
    omega
  rw [escapeAt_eq hlength (charAt_append (k := 1) rfl) (charAt_append (k := 2) rfl), isxdigit_eq,
    isxdigit_eq, hhigh, hlow, if_pos ⟨rfl, rfl⟩, fromHex_or hhigh hlow]

/-- The terminator is no digit. -/
theorem escapeAt_of_not_beginsHex {front after : Bytes} (h : ¬ BeginsHex after) :
    ∃ what, escapeAt (front ++ percent :: after) front.length = .error (.runtimeError what) := by
  match after with
  | [] =>
      have hlength : front.length + 2 > (front ++ [percent]).length := by simp
      exact ⟨_, if_pos hlength⟩
  | [high] =>
      have hlength : front.length + 2 ≤ (front ++ [percent, high]).length := by simp
      exact ⟨_, (escapeAt_eq hlength (charAt_append (k := 1) rfl)
        (charAt_terminator front [percent, high])).trans (if_neg fun h => by cases h.2)⟩
  | high :: low :: more =>
      have hlength : front.length + 2 ≤ (front ++ percent :: high :: low :: more).length := by
        simp only [List.length_append, List.length_cons]
        omega
      have hdigits : ¬ (isxdigit high = true ∧ isxdigit low = true) := by
        rwa [isxdigit_eq, isxdigit_eq]
      exact ⟨_, (escapeAt_eq hlength (charAt_append (k := 1) rfl) (charAt_append (k := 2) rfl)).trans
        (if_neg hdigits)⟩

theorem unescapeFrom_plain {front rest : Bytes} (h : percent ∉ rest) :
    unescapeFrom (front ++ rest) front.length = .ok (front ++ rest) := by
  have hnone : rest.idxOf? 37 = none := List.idxOf?_eq_none_iff.mpr h
  rw [unescapeFrom, List.drop_left, hnone]
  exact ite_self _

/-- One turn: the escape gives way to its byte, and the scan goes on behind it. -/
theorem unescapeFrom_escape {front before more : Bytes} {high low : UInt8} {h l : Nat}
    (hbefore : percent ∉ before) (hhigh : hexValue high = some h) (hlow : hexValue low = some l) :
    unescapeFrom (front ++ (before ++ percent :: high :: low :: more)) front.length =
      unescapeFrom (front ++ before ++ [UInt8.ofNat (16 * h + l)] ++ more)
        (front ++ before ++ [UInt8.ofNat (16 * h + l)]).length := by
  have hoffset : (before ++ percent :: high :: low :: more).idxOf? 37 = some before.length :=
    idxOf?_append_cons hbefore _
  have hinside : front.length < (front ++ (before ++ percent :: high :: low :: more)).length := by
    simp only [List.length_append, List.length_cons]
    omega
  have hfront : front.length + before.length = (front ++ before).length :=
    List.length_append.symm
  have hmore : (front ++ before ++ percent :: high :: low :: more).drop
      ((front ++ before).length + 3) = more := by
    rw [← List.drop_drop, List.drop_left]
    rfl
  have hlong : ¬ (front ++ before).length + 3 >
      (front ++ before ++ percent :: high :: low :: more).length := by
    simp only [List.length_append, List.length_cons]
    omega
  rw [unescapeFrom, if_pos hinside, List.drop_left, hoffset]
  dsimp only
  rw [hfront, ← List.append_assoc, escapeAt_of_beginsHex hhigh hlow, ok_bind, if_neg hlong,
    List.take_left, hmore]
  simp only [List.length_append, List.length_singleton]

theorem unescapeFrom_bad {front before after : Bytes} (hbefore : percent ∉ before)
    (h : ¬ BeginsHex after) :
    ∃ what, unescapeFrom (front ++ (before ++ percent :: after)) front.length =
      .error (.runtimeError what) := by
  have hoffset : (before ++ percent :: after).idxOf? 37 = some before.length :=
    idxOf?_append_cons hbefore _
  have hinside : front.length < (front ++ (before ++ percent :: after)).length := by
    simp only [List.length_append, List.length_cons]
    omega
  have hfront : front.length + before.length = (front ++ before).length :=
    List.length_append.symm
  obtain ⟨what, hwhat⟩ := @escapeAt_of_not_beginsHex (front ++ before) after h
  refine ⟨what, ?_⟩
  rw [unescapeFrom, if_pos hinside, List.drop_left, hoffset]
  dsimp only
  rw [hfront, ← List.append_assoc, hwhat]
  rfl

theorem map_plusToSpace_of_not_mem {text : Bytes} (h : plus ∉ text) :
    text.map plusToSpace = text := by
  calc
    text.map plusToSpace = text.map id := by
      apply List.map_congr_left
      intro c hc
      exact plusToSpace_of_ne fun hplus => h (hplus ▸ hc)
    _ = text := List.map_id text

theorem unescapeFrom_agrees (front rest : Bytes) (hplus : plus ∉ rest) :
    Agrees Eq (unescapeFrom (front ++ rest) front.length) ((decode rest).map (front ++ ·)) := by
  induction h : rest.length using Nat.strongRecOn generalizing front rest with
  | ind n ih =>
      by_cases hmem : percent ∈ rest
      · obtain ⟨before, after, rfl, hbefore⟩ := List.eq_append_cons_of_mem hmem
        rw [List.mem_append, List.mem_cons, not_or, not_or] at hplus
        rw [decode_append hbefore, map_plusToSpace_of_not_mem hplus.1]
        by_cases hhex : BeginsHex after
        · obtain ⟨high, low, more, h', l, rfl, hhigh, hlow⟩ := exists_digits_of_beginsHex hhex
          have hmore : plus ∉ more := fun hmore =>
            hplus.2.2 (List.mem_cons_of_mem high (List.mem_cons_of_mem low hmore))
          have hshorter : more.length < n := by
            simp only [List.length_append, List.length_cons] at h
            omega
          have hnext := ih more.length hshorter (front ++ before ++ [UInt8.ofNat (16 * h' + l)]) more
            hmore rfl
          rw [unescapeFrom_escape hbefore hhigh hlow, decode_escape hhigh hlow, Option.map_map,
            Option.map_map]
          convert hnext using 2
          funext bytes
          simp
        · rw [decode_of_not_beginsHex hhex]
          exact unescapeFrom_bad hbefore hhex
      · rw [decode_of_not_mem hmem, map_plusToSpace_of_not_mem hplus]
        exact agrees_eq_some.mpr (unescapeFrom_plain hmem)

theorem plus_not_mem_map (text : Bytes) : plus ∉ text.map plusToSpace := by
  intro h
  obtain ⟨c, -, hc⟩ := List.mem_map.mp h
  rw [plusToSpace] at hc
  split_ifs at hc with hplus
  · exact absurd hc (by decide)
  · exact hplus hc

/-- `unescape` is the one-pass decoding. -/
theorem unescape_agrees (uri : Bytes) : Agrees Eq (unescape uri) (decode uri) := by
  have h := unescapeFrom_agrees [] (uri.map plusToSpace) (plus_not_mem_map uri)
  rw [decode_map_plusToSpace] at h
  rw [unescape, replace_plus]
  simpa using h

/-! ### The reference -/

namespace CrackedUri

/-- The part of a URI between its first `/` and the first `?`. -/
def pathText (uri : Bytes) : Bytes := uri.tail.takeWhile (· != 63)

/-- The part of a URI behind the first `?`. -/
def queryText (uri : Bytes) : Bytes := (uri.dropWhile (· != 63)).tail

/-- The segments between the slashes; an empty path has none. -/
def segments (uri : Bytes) : List Bytes :=
  if pathText uri = [] then [] else (pathText uri).splitOn 47

/-- The items of the query that are not empty. -/
def items (uri : Bytes) : List Bytes := ((queryText uri).splitOn 38).filter (· ≠ [])

/-- The key and the value of an item. -/
def parameter (item : Bytes) : Option (Bytes × Bytes) := do
  match ← (item.splitOn 61).mapM decode with
  | [key] => some (key, [])
  | [key, value] => some (key, value)
  | _ => none

/-- What cracking a URI should give. -/
def crack (uri : Bytes) : Option (List Bytes × List (Bytes × Bytes)) :=
  if uri.head? = some 47 then do
    let path ← (segments uri).mapM decode
    let params ← (items uri).mapM parameter
    return (path, params)
  else none

variable (buckets : Buckets) (uri : Bytes)

theorem takeWhile_ne_append {c : UInt8} {before : Bytes} (h : c ∉ before) (after : Bytes) :
    (before ++ c :: after).takeWhile (· != c) = before := by
  have hbefore : ∀ b ∈ before, (b != c) = true := fun b hb => bne_iff_ne.mpr fun heq => h (heq ▸ hb)
  rw [List.takeWhile_append_of_pos hbefore, List.takeWhile_cons_of_neg (by simp), List.append_nil]

theorem dropWhile_ne_append {c : UInt8} {before : Bytes} (h : c ∉ before) (after : Bytes) :
    (before ++ c :: after).dropWhile (· != c) = c :: after := by
  have hbefore : ∀ b ∈ before, (b != c) = true := fun b hb => bne_iff_ne.mpr fun heq => h (heq ▸ hb)
  rw [List.dropWhile_append_of_pos hbefore, List.dropWhile_cons_of_neg (by simp)]

theorem pathText_eq {path : Bytes} (h : 63 ∉ path) (query : Bytes) :
    pathText (47 :: (path ++ 63 :: query)) = path :=
  takeWhile_ne_append h query

theorem queryText_eq {path : Bytes} (h : 63 ∉ path) (query : Bytes) :
    queryText (47 :: (path ++ 63 :: query)) = query := by
  have hslash : (63 : UInt8) ∉ 47 :: path := by
    rw [List.mem_cons, not_or]
    exact ⟨by decide, h⟩
  rw [queryText, ← List.cons_append, dropWhile_ne_append hslash, List.tail_cons]

theorem endsOfPath_eq (h : uri.head? = some 47) :
    endsOfPath uri = (pathText uri, queryText uri) := by
  obtain ⟨text, rfl⟩ : ∃ text, uri = 47 :: text := by
    cases uri with
    | nil => cases h
    | cons c text => exact ⟨text, by rw [Option.some.inj h]⟩
  by_cases hmem : 63 ∈ text
  · obtain ⟨path, query, rfl, hpath⟩ := List.eq_append_cons_of_mem hmem
    have hslash : (63 : UInt8) ∉ 47 :: path := by
      rw [List.mem_cons, not_or]
      exact ⟨by decide, hpath⟩
    have hoffset : (47 :: (path ++ 63 :: query)).idxOf? 63 = some (path.length + 1) :=
      idxOf?_append_cons hslash query
    have hquery : (47 :: (path ++ 63 :: query)).drop (path.length + 1 + 1) = query := by
      rw [List.drop_succ_cons, ← List.drop_drop, List.drop_left]
      rfl
    rw [pathText_eq hpath, queryText_eq hpath, endsOfPath, hoffset]
    dsimp only
    rw [hquery, List.drop_one, List.tail_cons, Nat.add_sub_cancel, List.take_left]
  · have hnone : (47 :: text).idxOf? 63 = none := by
      apply List.idxOf?_eq_none_iff.mpr
      rw [List.mem_cons, not_or]
      exact ⟨by decide, hmem⟩
    have hkept : ∀ b ∈ text, (b != 63) = true := fun b hb => bne_iff_ne.mpr fun heq => hmem (heq ▸ hb)
    have hpath : text.takeWhile (· != 63) = text := List.takeWhile_eq_self_iff.mpr hkept
    have hquery : text.dropWhile (· != 63) = [] := List.dropWhile_eq_nil_iff.mpr hkept
    rw [endsOfPath, hnone, pathText, queryText, List.dropWhile_cons_of_pos (by decide), hquery,
      List.tail_cons, hpath]
    rfl

theorem split_pathText : split (pathText uri) 47 = segments uri := by
  rw [segments]
  split_ifs with hempty
  · rw [hempty]
    rfl
  · exact split_eq_splitOn hempty 47

/-! ### Cracking agrees with it -/

/-- One item: it is skipped, or it is one more element. -/
def insertParameter (params : List (Bytes × Bytes)) (item : Bytes) : Option (List (Bytes × Bytes)) :=
  if item = [] then some params else (parameter item).map (· :: params)

/-- The elements are the parameters in some order. -/
def Stores (params : QueryParams) (elements : List (Bytes × Bytes)) : Prop :=
  params.elements.Perm elements

theorem insertItem_agrees {params : QueryParams} {elements : List (Bytes × Bytes)}
    (h : Stores params elements) (item : Bytes) :
    Agrees Stores (insertItem buckets uri params item) (insertParameter elements item) := by
  rw [insertItem, insertParameter]
  by_cases hitem : item = []
  · rw [if_pos hitem, if_pos hitem]
    exact ⟨params, rfl, h⟩
  · have hinsert : ∀ element, Stores (buckets.insert params element) (element :: elements) :=
      fun element => (buckets.perm params element).trans (h.cons element)
    rw [if_neg hitem, if_neg hitem, split_eq_splitOn hitem, parameter, Option.bind_eq_bind,
      Option.map_bind]
    apply (Agrees.mapM unescape_agrees).bind
    rintro pieces _ rfl
    match pieces with
    | [] => exact ⟨_, rfl⟩
    | [key] => exact ⟨_, rfl, hinsert _⟩
    | [key, value] => exact ⟨_, rfl, hinsert _⟩
    | _ :: _ :: _ :: _ => exact ⟨_, rfl⟩

theorem foldlM_insertParameter (texts : List Bytes) (params : List (Bytes × Bytes)) :
    texts.foldlM insertParameter params =
      ((texts.filter (· ≠ [])).mapM parameter).map fun added => added.reverse ++ params := by
  induction texts generalizing params with
  | nil => rfl
  | cons text texts ih =>
      rw [List.foldlM_cons, insertParameter]
      by_cases htext : text = []
      · rw [if_pos htext, List.filter_cons_of_neg (by simpa using htext)]
        exact ih params
      · rw [if_neg htext, List.filter_cons_of_pos (by simpa using htext), List.mapM_cons]
        cases parameter text with
        | none => rfl
        | some element =>
            apply (ih (element :: params)).trans
            cases (texts.filter (· ≠ [])).mapM parameter with
            | none => rfl
            | some added => simp

theorem foldlM_split (text : Bytes) (params : List (Bytes × Bytes)) :
    (split text 38).foldlM insertParameter params =
      (((text.splitOn 38).filter (· ≠ [])).mapM parameter).map fun added =>
        added.reverse ++ params := by
  by_cases htext : text = []
  · rw [htext]
    rfl
  · rw [split_eq_splitOn htext, foldlM_insertParameter]

/-- A cracked URI is the one of the reference, with its parameters in some order. -/
def Cracks (cracked : CrackedUri) (reference : List Bytes × List (Bytes × Bytes)) : Prop :=
  cracked.path = reference.1 ∧ Stores cracked.queryParams reference.2

theorem create_agrees : Agrees Cracks (create buckets uri) (crack uri) := by
  rw [create, crack]
  by_cases hslash : uri.head? = some 47
  · have hitems := Agrees.foldlM (l := split (queryText uri) 38)
      (fun _ _ item h => insertItem_agrees buckets uri h item)
      (List.Perm.refl QueryParams.empty.elements)
    rw [foldlM_split, ← items] at hitems
    rw [if_neg (not_not.mpr hslash), if_pos hslash, endsOfPath_eq uri hslash, split_pathText]
    apply (Agrees.mapM unescape_agrees).bind
    rintro path _ rfl
    cases hparams : (items uri).mapM parameter with
    | none =>
        rw [hparams] at hitems
        obtain ⟨what, hwhat⟩ := hitems
        rw [hwhat]
        exact ⟨what, rfl⟩
    | some elements =>
        rw [hparams] at hitems
        obtain ⟨params, hfold, hstores⟩ := hitems
        rw [hfold]
        have hempty : elements.reverse ++ QueryParams.empty.elements = elements.reverse :=
          List.append_nil _
        refine ⟨_, rfl, rfl, hstores.trans ?_⟩
        dsimp only
        rw [hempty]
        exact List.reverse_perm elements
  · rw [if_neg hslash]
    exact ⟨_, if_pos hslash⟩

theorem mapM_eq_none_iff {α β : Type} {f : α → Option β} {l : List α} :
    l.mapM f = none ↔ ∃ a ∈ l, f a = none := by
  induction l with
  | nil => simp
  | cons a l ih =>
      rw [List.mapM_cons, List.exists_mem_cons_iff]
      cases ha : f a with
      | none => simp
      | some b =>
          rw [← ih]
          cases l.mapM f <;> simp

theorem length_of_mapM {α β : Type} {f : α → Option β} {l : List α} {l' : List β}
    (h : l.mapM f = some l') : l'.length = l.length := by
  induction l generalizing l' with
  | nil =>
      cases h
      rfl
  | cons a l ih =>
      rw [List.mapM_cons] at h
      obtain ⟨b, -, hrest⟩ := Option.bind_eq_some_iff.mp h
      obtain ⟨bs, hbs, heq⟩ := Option.bind_eq_some_iff.mp hrest
      cases heq
      rw [List.length_cons, List.length_cons, ih hbs]

/-- An item has no parameter because of one of its pieces, or of a second `=`. -/
theorem parameter_eq_none_iff (item : Bytes) :
    parameter item = none ↔
      (∃ piece ∈ item.splitOn 61, BadEscape piece) ∨ 2 ≤ item.count 61 := by
  have hpieces : (item.splitOn 61).mapM decode = none ↔ ∃ piece ∈ item.splitOn 61, BadEscape piece := by
    rw [mapM_eq_none_iff]
    simp only [decode_eq_none_iff]
  rw [parameter, ← hpieces]
  cases hmap : (item.splitOn 61).mapM decode with
  | none => exact iff_of_true rfl (Or.inl rfl)
  | some pieces =>
      have hlength := (length_of_mapM hmap).trans (length_splitOn 61 item)
      match pieces, hlength with
      | [], hlength => cases hlength
      | [key], hlength =>
          simp at hlength ⊢
          omega
      | [key, value], hlength =>
          simp at hlength ⊢
          omega
      | _ :: _ :: _ :: _, hlength =>
          simp at hlength ⊢
          omega

/-- What `CrackedUri` must reject. -/
def Malformed (uri : Bytes) : Prop :=
  uri.head? ≠ some 47 ∨
    (∃ segment ∈ segments uri, BadEscape segment) ∨
    (∃ item ∈ items uri, ∃ piece ∈ item.splitOn 61, BadEscape piece) ∨
    ∃ item ∈ items uri, 2 ≤ item.count 61

theorem crack_eq_none_iff : crack uri = none ↔ Malformed uri := by
  have hsegments : (segments uri).mapM decode = none ↔ ∃ segment ∈ segments uri, BadEscape segment := by
    rw [mapM_eq_none_iff]
    simp only [decode_eq_none_iff]
  have hitems : (items uri).mapM parameter = none ↔
      (∃ item ∈ items uri, ∃ piece ∈ item.splitOn 61, BadEscape piece) ∨
        ∃ item ∈ items uri, 2 ≤ item.count 61 := by
    rw [mapM_eq_none_iff]
    simp only [parameter_eq_none_iff, and_or_left, exists_or]
  rw [crack, Malformed, ← hsegments, ← hitems]
  split_ifs with hslash
  · cases (segments uri).mapM decode with
    | none => simp
    | some path => cases (items uri).mapM parameter <;> simp [hslash]
  · exact iff_of_true rfl (Or.inl hslash)

/-- Cracking throws exactly for a malformed URI, and gives the segments and the parameters of the
reference for any other. -/
theorem create_spec :
    ((∃ what, create buckets uri = .error (.runtimeError what)) ↔ Malformed uri) ∧
      (¬ Malformed uri → ∃ cracked params, create buckets uri = .ok cracked ∧
        (segments uri).mapM decode = some cracked.path ∧
        (items uri).mapM parameter = some params ∧ cracked.queryParams.elements.Perm params) := by
  have hagrees := create_agrees buckets uri
  rw [← crack_eq_none_iff]
  cases hcrack : crack uri with
  | none =>
      rw [hcrack] at hagrees
      exact ⟨iff_of_true hagrees rfl, fun h => absurd rfl h⟩
  | some reference =>
      rw [hcrack] at hagrees
      obtain ⟨cracked, hcracked, hpath, hparams⟩ := hagrees
      constructor
      · rw [hcracked]
        apply iff_of_false
        · rintro ⟨what, hwhat⟩
          cases hwhat
        · simp
      · intro _
        rw [crack] at hcrack
        split_ifs at hcrack
        obtain ⟨path, hsegments, hrest⟩ := Option.bind_eq_some_iff.mp hcrack
        obtain ⟨params, hitems, heq⟩ := Option.bind_eq_some_iff.mp hrest
        cases heq
        exact ⟨cracked, params, hcracked, hsegments.trans (congrArg some hpath.symm), hitems, hparams⟩

example : (create .toFront (ascii "/foo+bar/baz%2f/%40%4F")).toOption.map (·.path) =
    some [ascii "foo bar", ascii "baz/", ascii "@O"] := by
  decide +kernel

end CrackedUri

end Seasocks
