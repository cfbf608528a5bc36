import Seasocks.Library.JsonValue
import Seasocks.Proof.JsonStrings

/-!
# Documents written as JSON

All items of a map or an array are written to one stream. What one of them leaves behind is whether a
control character has switched the stream to hexadecimal.
-/

namespace Seasocks

open JsonText

/-! ### Items on a stream -/

/-- A stream that nothing but a control character has touched. -/
structure Pristine (str : Ostream) : Prop extends Steady str where
  uppercase : str.uppercase = false
  base : str.base ≠ .oct

def isHex (str : Ostream) : Bool := str.base = .hex

theorem Pristine.after {str : Ostream} (h : Pristine str) (text : Bytes) (control : Bool) :
    Pristine (str.after text control) where
  toSteady := h.toSteady.after text control
  uppercase := h.uppercase
  base := by
    cases control with
    | true => simp [Ostream.after]
    | false => exact h.base

@[simp]
theorem isHex_after (str : Ostream) (text : Bytes) (control : Bool) :
    isHex (str.after text control) = (control || isHex str) := by
  cases control <;> rfl

theorem pristine_fresh : Pristine Ostream.fresh where
  width := rfl
  adjust := rfl
  showbase := rfl
  uppercase := rfl
  base := by decide

/-- The text of an integer. -/
def integerText (hex : Bool) (t : Integer) : Bytes :=
  if t.bits = 8 then [UInt8.ofNat (t.value % 2 ^ 8).toNat]
  else if hex then hexadecimal (t.value % 2 ^ t.bits).toNat
  else signedDecimal t.value

/-- A number that is not padded. -/
theorem putInteger_steady {str : Ostream} (h : Steady str) (bits : Nat) (value : Int) :
    str.putInteger bits value =
      str.after (str.lead value ++
        str.digits (if str.base = .dec then value.natAbs else (value % 2 ^ bits).toNat)) false := by
  rw [Ostream.putInteger, h.width, h.adjust, Nat.zero_sub, List.replicate_zero, List.nil_append]
  obtain ⟨written, base, fill, width, adjust, showbase, uppercase⟩ := str
  cases h.width
  cases h.adjust
  rfl

theorem putInteger_eq {str : Ostream} (h : Pristine str) (bits : Nat) (value : Int) :
    str.putInteger bits value =
      str.after (if isHex str then hexadecimal (value % 2 ^ bits).toNat else signedDecimal value) false := by
  rw [putInteger_steady h.toSteady]
  apply congrArg (str.after · false)
  cases hbase : str.base with
  | dec =>
      have hhex : ¬isHex str = true := by simp [isHex, hbase]
      rw [if_neg hhex, if_pos rfl, Ostream.lead, Ostream.digits, hbase, signedDecimal]
      dsimp only
      split_ifs with hneg
      · rfl
      · rw [List.nil_append]
        exact congrArg decimal (by omega)
  | hex =>
      have hhex : isHex str = true := by simp [isHex, hbase]
      rw [if_pos hhex, if_neg (by decide), Ostream.lead, Ostream.digits, hbase, h.showbase, h.uppercase]
      simp
  | oct => exact absurd hbase h.base

theorem jsonToStreamInteger_eq {str : Ostream} (h : Pristine str) (t : Integer) :
    jsonToStreamInteger str t = str.after (integerText (isHex str) t) false := by
  rw [jsonToStreamInteger, integerText]
  split_ifs with hbits hhex
  · exact put_eq h.toSteady _
  · rw [putInteger_eq h, if_pos hhex]
  · rw [putInteger_eq h, if_neg hhex]

/-- The text of an item. -/
def argumentText (hex : Bool) : Argument → Bytes
  | .string t => stringText false (cString t)
  | .integer t => integerText hex t
  | .boolean b => if b then ascii "true" else ascii "false"
  | .jsonned json => json

/-- Whether a text has a control character in it. -/
def hasControl (t : Bytes) : Bool := (cString t).any fun c => IsControl c

/-- Whether an item leaves the stream in hexadecimal. -/
def Argument.control : Argument → Bool
  | .string t => hasControl t
  | _ => false

theorem jsonToStreamArgument_eq {str : Ostream} (h : Pristine str) (t : Argument) :
    jsonToStreamArgument str t = str.after (argumentText (isHex str) t) t.control := by
  cases t with
  | string t =>
      rw [jsonToStreamArgument, jsonToStreamString, jsonToStream_eq h.toSteady, h.uppercase]
      rfl
  | integer t => exact jsonToStreamInteger_eq h t
  | boolean b => exact put_eq h.toSteady _
  | jsonned json => exact put_eq h.toSteady _

/-- The text of a key and an item. -/
def pairText (hex : Bool) (pair : Bytes × Argument) : Bytes :=
  memberText ((cString pair.1).flatMap (charText false)) (argumentText (hasControl pair.1 || hex) pair.2)

def pairControl (pair : Bytes × Argument) : Bool := hasControl pair.1 || pair.2.control

theorem jsonKeyPairToStream_eq {str : Ostream} (h : Pristine str) (pair : Bytes × Argument) :
    jsonKeyPairToStream str pair = str.after (pairText (isHex str) pair) (pairControl pair) := by
  have hcolon : ascii ":" = [58] := by decide +kernel
  have hkey : Pristine (str.after (stringText false (cString pair.1)) (hasControl pair.1)) := h.after _ _
  have hput := hkey.after (ascii ":") false
  rw [jsonKeyPairToStream, jsonToStream_eq h.toSteady, h.uppercase]
  rw [← hasControl, put_eq hkey.toSteady, jsonToStreamArgument_eq hput, after_after, after_after]
  rw [isHex_after, Bool.false_or, isHex_after, hcolon, pairText, pairControl, memberText, stringText]
  simp

/-! ### All items of a call -/

section Items

variable {α : Type} {stream : Ostream → α → Ostream} {text : Bool → α → Bytes} {control : α → Bool}

/-- The texts of the items, each with what those before it have left. -/
def itemTexts (text : Bool → α → Bytes) (control : α → Bool) : Bool → List α → List Bytes
  | _, [] => []
  | hex, item :: items => text hex item :: itemTexts text control (control item || hex) items

/-- A way of writing an item. -/
def Streams (stream : Ostream → α → Ostream) (text : Bool → α → Bytes) (control : α → Bool) : Prop :=
  ∀ str, Pristine str → ∀ item, stream str item = str.after (text (isHex str) item) (control item)

theorem streamArguments_eq (hstream : Streams stream text control) {str : Ostream} (h : Pristine str)
    (items : List α) :
    streamArguments stream str items =
      str.after (joined (itemTexts text control (isHex str) items)) (items.any control) := by
  induction items generalizing str with
  | nil => simp [streamArguments, itemTexts, joined, Ostream.after]
  | cons item items ih =>
      cases items with
      | nil =>
          rw [streamArguments, hstream str h]
          simp [itemTexts, joined]
      | cons other items =>
          have hcomma : ascii "," = [44] := by decide +kernel
          have hitem := h.after (text (isHex str) item) (control item)
          rw [streamArguments, hstream str h, put_eq hitem.toSteady, ih (hitem.after _ _), after_after,
            after_after, isHex_after, Bool.false_or, isHex_after, hcomma]
          simp [itemTexts, joined]

theorem streamContainer_cons (str : Ostream) (item : α) (items : List α) :
    streamContainer stream str (item :: items) =
      (items.foldl (fun (first, str) item =>
        (false, stream (if first then str else str.put (ascii ",")) item)) (false, stream str item)).2 := rfl

/-- The flag of the loop does what the recursion of the templates does. -/
theorem streamContainer_eq (str : Ostream) (items : List α) :
    streamContainer stream str items = streamArguments stream str items := by
  cases items with
  | nil => rfl
  | cons item items =>
      rw [streamContainer_cons]
      induction items generalizing str item with
      | nil => rfl
      | cons other items ih =>
          rw [streamArguments, ← ih]
          rfl

end Items

/-! ### Maps and arrays -/

/-- What a call makes of its items between brackets. -/
theorem bracketed_eq {α : Type} {stream : Ostream → α → Ostream} {text : Bool → α → Bytes}
    {control : α → Bool} (hstream : Streams stream text control) (first last : Bytes) (items : List α) :
    ((streamArguments stream (Ostream.fresh.put first) items).put last).written =
      first ++ (joined (itemTexts text control false items) ++ last) := by
  have hfirst := pristine_fresh.after first false
  rw [put_eq pristine_fresh.toSteady, streamArguments_eq hstream hfirst, put_eq (hfirst.after _ _).toSteady]
  simp only [Ostream.after, List.append_assoc]
  rfl

theorem makeArray_eq (args : List Argument) :
    makeArray args = arrayText (itemTexts argumentText Argument.control false args) := by
  have hbrackets : ascii "[" = [91] ∧ ascii "]" = [93] := by decide +kernel
  rw [makeArray, bracketed_eq fun str h => jsonToStreamArgument_eq h, hbrackets.1, hbrackets.2]
  rfl

theorem makeArrayFromContainer_eq (list : List Argument) : makeArrayFromContainer list = makeArray list := by
  rw [makeArrayFromContainer, makeArray, streamContainer_eq]

theorem makeArrayFromInitializerList_eq (list : List Argument) :
    makeArrayFromInitializerList list = makeArray list := by
  rw [makeArrayFromInitializerList, makeArray, streamContainer_eq]

theorem makeMap_eq (args : List (Bytes × Argument)) :
    makeMap args = objectText (itemTexts pairText pairControl false args) := by
  have hbraces : ascii "\x7b" = [123] ∧ ascii "\x7d" = [125] := by decide +kernel
  rw [makeMap, bracketed_eq fun str h => jsonKeyPairToStream_eq h, hbraces.1, hbraces.2]
  rfl

theorem makeMapFromContainer_eq (m : List (Bytes × Argument)) : makeMapFromContainer m = makeMap m := by
  rw [makeMapFromContainer, makeMap, streamContainer_eq]

theorem toJson_eq (obj : Argument) : toJson obj = argumentText false obj := by
  rw [toJson, jsonToStreamArgument_eq pristine_fresh]
  rfl

/-! ### Documents -/

/-- A text that a `const char*` can hold. -/
structure CText where
  bytes : Bytes
  nulFree : 0 ∉ bytes

/-- How an array is made. -/
inductive ArrayForm where
  | makeArray
  | initializerList
  | fromContainer
deriving DecidableEq, Repr

/-- How a map is made. -/
inductive MapForm where
  | makeMap
  | fromContainer
deriving DecidableEq, Repr

/-- A value that is built from texts, integers, booleans, maps and arrays. -/
inductive Document where
  | string (text : CText)
  | integer (t : Integer)
  | boolean (b : Bool)
  | array (form : ArrayForm) (items : List Document)
  | map (form : MapForm) (members : List (CText × Document))

def ArrayForm.make : ArrayForm → List Argument → Bytes
  | .makeArray => Seasocks.makeArray
  | .initializerList => makeArrayFromInitializerList
  | .fromContainer => makeArrayFromContainer

def MapForm.make : MapForm → List (Bytes × Argument) → Bytes
  | .makeMap => Seasocks.makeMap
  | .fromContainer => makeMapFromContainer

namespace Document

mutual

/-- What the document is as an argument of the next call. -/
def argument : Document → Argument
  | .string text => .string text.bytes
  | .integer t => .integer t
  | .boolean b => .boolean b
  | .array form items => .jsonned (form.make (arguments items))
  | .map form members => .jsonned (form.make (pairs members))

def arguments : List Document → List Argument
  | [] => []
  | item :: items => item.argument :: arguments items

def pairs : List (CText × Document) → List (Bytes × Argument)
  | [] => []
  | (key, item) :: members => (key.bytes, item.argument) :: pairs members

end

mutual

/-- The JSON value that is meant. -/
def value : Document → Value
  | .string text => .string text.bytes
  | .integer t => .number t.value
  | .boolean b => .boolean b
  | .array _ items => .array (values items)
  | .map _ members => .object (memberValues members)

def values : List Document → List Value
  | [] => []
  | item :: items => item.value :: values items

def memberValues : List (CText × Document) → List (Bytes × Value)
  | [] => []
  | (key, item) :: members => (key.bytes, item.value) :: memberValues members

end

/-- The text of the document. -/
def text (document : Document) : Bytes := toJson document.argument

/-- The text of a member on a stream of its own. -/
def memberAlone (member : CText × Document) : Bytes :=
  toJson (.string member.1.bytes) ++ ascii ":" ++ member.2.text

mutual

/-- Every item in the document is written as it is on a stream of its own. -/
def Independent : Document → Prop
  | .array form items =>
      (Document.array form items).text = arrayText (items.map Document.text) ∧ IndependentItems items
  | .map form members =>
      (Document.map form members).text = objectText (members.map Document.memberAlone) ∧
        IndependentMembers members
  | .string _ => True
  | .integer _ => True
  | .boolean _ => True

def IndependentItems : List Document → Prop
  | [] => True
  | item :: items => item.Independent ∧ IndependentItems items

def IndependentMembers : List (CText × Document) → Prop
  | [] => True
  | (_, item) :: members => item.Independent ∧ IndependentMembers members

end

/-- Whether the document is a text with a control character. -/
def control (document : Document) : Bool := document.argument.control

mutual

/-- No integer of a character type, and behind a control character in the same call no integer but a
digit. -/
def Sound (hex : Bool) : Document → Prop
  | .integer t => t.bits ≠ 8 ∧ (hex = true → 0 ≤ t.value ∧ t.value ≤ 9)
  | .array _ items => SoundItems false items
  | .map _ members => SoundMembers false members
  | .string _ => True
  | .boolean _ => True

def SoundItems (hex : Bool) : List Document → Prop
  | [] => True
  | item :: items => item.Sound hex ∧ SoundItems (item.control || hex) items

def SoundMembers (hex : Bool) : List (CText × Document) → Prop
  | [] => True
  | (key, item) :: members =>
      item.Sound (hasControl key.bytes || hex) ∧
        SoundMembers (hasControl key.bytes || item.control || hex) members

end

/-! ### Reading a document back -/

theorem reads_string (text : CText) : ReadsAs (stringText false (cString text.bytes)) (.string text.bytes) := by
  rw [cString_of_not_mem text.nulFree]
  exact readsAs_string (reads_body false text.bytes)

theorem reads_key (key : CText) : Reads ((cString key.bytes).flatMap (charText false)) key.bytes := by
  rw [cString_of_not_mem key.nulFree]
  exact reads_body false key.bytes

theorem reads_boolean (hex b : Bool) : ReadsAs (argumentText hex (.boolean b)) (.boolean b) := by
  have htext : ascii "true" = [116, 114, 117, 101] ∧ ascii "false" = [102, 97, 108, 115, 101] := by
    decide +kernel
  rw [argumentText, htext.1, htext.2]
  exact readsAs_boolean b

theorem cast_toNat {value : Int} (h : 0 ≤ value) : (value : ℚ) = (value.toNat : ℚ) := by
  rw [← Int.cast_natCast]
  exact congrArg Int.cast (by omega)

theorem readsAs_signedDecimal (value : Int) : ReadsAs (signedDecimal value) (.number value) := by
  rw [signedDecimal]
  split_ifs with hneg
  · have hminus : ascii "-" = [45] := by decide +kernel
    have hvalue : (value : ℚ) = -(value.natAbs : ℚ) := by
      rw [← Int.cast_natCast, ← Int.cast_neg]
      exact congrArg Int.cast (by omega)
    rw [hminus, hvalue]
    exact readsAs_negative_numeral value.natAbs
  · rw [cast_toNat (by omega)]
    exact readsAs_numeral value.toNat

/-- An integer as hexadecimal: its own number when it is not negative. -/
theorem hexadecimal_of_nonneg {t : Integer} (h : 0 ≤ t.value) :
    (t.value % 2 ^ t.bits).toNat = t.value.toNat := by
  rw [Int.emod_eq_of_lt h t.fits.2]

/-- A digit is the same in both bases. -/
theorem hexadecimal_digit {n : Nat} (h : n ≤ 9) : hexadecimal n = decimal n := by
  have hall : ∀ n : Fin 10, hexadecimal n.val = decimal n.val := by decide +kernel
  exact hall ⟨n, by omega⟩

theorem integerText_sound {hex : Bool} {t : Integer}
    (h : t.bits ≠ 8 ∧ (hex = true → 0 ≤ t.value ∧ t.value ≤ 9)) :
    integerText hex t = signedDecimal t.value := by
  rw [integerText, if_neg h.1]
  split_ifs with hhex
  · obtain ⟨hlow, hhigh⟩ := h.2 hhex
    rw [hexadecimal_of_nonneg hlow, hexadecimal_digit (by omega), signedDecimal, if_neg (by omega)]
  · rfl

theorem misreads_integer {hex : Bool} {t : Integer}
    (h : ¬(t.bits ≠ 8 ∧ (hex = true → 0 ≤ t.value ∧ t.value ≤ 9))) :
    Misreads (integerText hex t) (.number t.value) := by
  by_cases hbits : t.bits = 8
  · rw [integerText, if_pos hbits]
    apply misreads_character
    intro hdigit heq
    -- the number would have to be below ten, and those are control characters
    have hlt := digit_lt_ten hdigit
    have hvalue : t.value = (Numeral.digit (UInt8.ofNat (t.value % 2 ^ 8).toNat) : Int) := by
      exact_mod_cast heq
    generalize Numeral.digit (UInt8.ofNat (t.value % 2 ^ 8).toNat) = d at hlt hvalue
    have hcontrol : ∀ d : Fin 10, isDigit (UInt8.ofNat d.val) = false := by decide
    have hmod : (t.value % 2 ^ 8).toNat = d := by omega
    rw [hmod, hcontrol ⟨d, hlt⟩] at hdigit
    cases hdigit
  · have hhex : hex = true := by
      by_contra hhex
      exact h ⟨hbits, fun heq => absurd heq hhex⟩
    have hrange : ¬(0 ≤ t.value ∧ t.value ≤ 9) := fun hrange => h ⟨hbits, fun _ => hrange⟩
    rw [integerText, if_neg hbits, if_pos hhex]
    by_cases hneg : t.value < 0
    · exact misreads_negative _ (by exact_mod_cast hneg)
    · have hlow : 0 ≤ t.value := by omega
      rw [hexadecimal_of_nonneg hlow, cast_toNat hlow]
      exact misreads_hexadecimal (by omega)

theorem make_array (form : ArrayForm) (args : List Argument) : form.make args = makeArray args := by
  cases form with
  | makeArray => rfl
  | initializerList => exact makeArrayFromInitializerList_eq args
  | fromContainer => exact makeArrayFromContainer_eq args

theorem make_map (form : MapForm) (args : List (Bytes × Argument)) : form.make args = makeMap args := by
  cases form with
  | makeMap => rfl
  | fromContainer => exact makeMapFromContainer_eq args

mutual

theorem reads (hex : Bool) (document : Document) (h : document.Sound hex) :
    ReadsAs (argumentText hex document.argument) document.value := by
  match document with
  | .string text =>
      rw [argument, value]
      exact reads_string text
  | .integer t =>
      rw [argument, value, argumentText, integerText_sound (by simpa [Sound] using h)]
      exact readsAs_signedDecimal t.value
  | .boolean b =>
      rw [argument, value]
      exact reads_boolean hex b
  | .array form items =>
      rw [Sound] at h
      rw [argument, value, argumentText, make_array, makeArray_eq]
      exact readsAs_array (readsItems false items h)
  | .map form members =>
      rw [Sound] at h
      rw [argument, value, argumentText, make_map, makeMap_eq]
      exact readsAs_object (readsMembers false members h)

theorem readsItems (hex : Bool) (items : List Document) (h : SoundItems hex items) :
    List.Forall₂ ReadsAs (itemTexts argumentText Argument.control hex (arguments items)) (values items) := by
  match items with
  | [] =>
      rw [arguments, values, itemTexts]
      exact List.Forall₂.nil
  | item :: items =>
      rw [SoundItems] at h
      rw [arguments, values, itemTexts]
      exact List.Forall₂.cons (reads hex item h.1) (readsItems _ items h.2)

theorem readsMembers (hex : Bool) (members : List (CText × Document)) (h : SoundMembers hex members) :
    List.Forall₂ (MemberOf ReadsAs) (itemTexts pairText pairControl hex (pairs members))
      (memberValues members) := by
  match members with
  | [] =>
      rw [pairs, memberValues, itemTexts]
      exact List.Forall₂.nil
  | (key, item) :: members =>
      rw [SoundMembers] at h
      rw [pairs, memberValues, itemTexts]
      refine List.Forall₂.cons ⟨_, _, rfl, reads_key key, ?_⟩ (readsMembers _ members h.2)
      exact reads _ item h.1

end

mutual

theorem misreads (hex : Bool) (document : Document) (h : ¬document.Sound hex) :
    Misreads (argumentText hex document.argument) document.value := by
  match document with
  | .string text => exact absurd (by rw [Sound]; trivial) h
  | .integer t =>
      rw [argument, value, argumentText]
      exact misreads_integer (by simpa [Sound] using h)
  | .boolean b => exact absurd (by rw [Sound]; trivial) h
  | .array form items =>
      rw [Sound] at h
      rw [argument, value, argumentText, make_array, makeArray_eq]
      exact misreads_array (spoiledItems false items h)
  | .map form members =>
      rw [Sound] at h
      rw [argument, value, argumentText, make_map, makeMap_eq]
      exact misreads_object (spoiledMembers false members h)

theorem spoiledItems (hex : Bool) (items : List Document) (h : ¬SoundItems hex items) :
    Spoiled ReadsAs Misreads (itemTexts argumentText Argument.control hex (arguments items))
      (values items) := by
  match items with
  | [] => exact absurd (by rw [SoundItems]; trivial) h
  | item :: items =>
      rw [SoundItems] at h
      rw [arguments, values, itemTexts]
      by_cases hitem : item.Sound hex
      · exact Spoiled.there (reads hex item hitem) (spoiledItems _ items fun hitems => h ⟨hitem, hitems⟩)
      · exact Spoiled.here (misreads hex item hitem)

theorem spoiledMembers (hex : Bool) (members : List (CText × Document)) (h : ¬SoundMembers hex members) :
    Spoiled (MemberOf ReadsAs) (MemberOf Misreads) (itemTexts pairText pairControl hex (pairs members))
      (memberValues members) := by
  match members with
  | [] => exact absurd (by rw [SoundMembers]; trivial) h
  | (key, item) :: members =>
      rw [SoundMembers] at h
      rw [pairs, memberValues, itemTexts]
      by_cases hitem : item.Sound (hasControl key.bytes || hex)
      · exact Spoiled.there ⟨_, _, rfl, reads_key key, reads _ item hitem⟩
          (spoiledMembers _ members fun hmembers => h ⟨hitem, hmembers⟩)
      · exact Spoiled.here ⟨_, _, rfl, reads_key key, misreads _ item hitem⟩

end

/-! ### Items on a stream of their own -/

/-- A sound document is written the same wherever it stands. -/
theorem argumentText_sound {hex : Bool} {document : Document} (h : document.Sound hex) :
    argumentText hex document.argument = argumentText false document.argument := by
  cases document with
  | integer t =>
      have ht : t.bits ≠ 8 ∧ (hex = true → 0 ≤ t.value ∧ t.value ≤ 9) := by simpa [Sound] using h
      rw [argument, argumentText, argumentText, integerText_sound ht,
        integerText_sound ⟨ht.1, fun hfalse => absurd hfalse Bool.false_ne_true⟩]
  | _ => rw [argument, argumentText, argumentText]

theorem itemTexts_sound {hex : Bool} {items : List Document} (h : SoundItems hex items) :
    itemTexts argumentText Argument.control hex (arguments items) = items.map text := by
  induction items generalizing hex with
  | nil => rw [arguments, itemTexts, List.map_nil]
  | cons item items ih =>
      rw [SoundItems] at h
      rw [arguments, itemTexts, argumentText_sound h.1, List.map_cons, text, toJson_eq]
      exact congrArg (_ :: ·) (ih h.2)

theorem memberTexts_sound {hex : Bool} {members : List (CText × Document)} (h : SoundMembers hex members) :
    itemTexts pairText pairControl hex (pairs members) = members.map memberAlone := by
  induction members generalizing hex with
  | nil => rw [pairs, itemTexts, List.map_nil]
  | cons member members ih =>
      obtain ⟨key, item⟩ := member
      rw [SoundMembers] at h
      have hcolon : ascii ":" = [58] := by decide +kernel
      have hfirst : pairText hex (key.bytes, item.argument) = memberAlone (key, item) := by
        rw [pairText, memberAlone, text, toJson_eq, toJson_eq, argumentText_sound h.1, hcolon]
        simp [memberText, argumentText, stringText]
      rw [pairs, itemTexts, hfirst, List.map_cons]
      exact congrArg (_ :: ·) (ih h.2)

mutual

theorem independent (hex : Bool) (document : Document) (h : document.Sound hex) : document.Independent := by
  match document with
  | .string text => rw [Independent]; trivial
  | .integer t => rw [Independent]; trivial
  | .boolean b => rw [Independent]; trivial
  | .array form items =>
      rw [Sound] at h
      rw [Independent, text, toJson_eq, argument, argumentText, make_array, makeArray_eq, itemTexts_sound h]
      exact ⟨rfl, independentItems false items h⟩
  | .map form members =>
      rw [Sound] at h
      rw [Independent, text, toJson_eq, argument, argumentText, make_map, makeMap_eq, memberTexts_sound h]
      exact ⟨rfl, independentMembers false members h⟩

theorem independentItems (hex : Bool) (items : List Document) (h : SoundItems hex items) :
    IndependentItems items := by
  match items with
  | [] => rw [IndependentItems]; trivial
  | item :: items =>
      rw [SoundItems] at h
      rw [IndependentItems]
      exact ⟨independent hex item h.1, independentItems _ items h.2⟩

theorem independentMembers (hex : Bool) (members : List (CText × Document)) (h : SoundMembers hex members) :
    IndependentMembers members := by
  match members with
  | [] => rw [IndependentMembers]; trivial
  | (key, item) :: members =>
      rw [SoundMembers] at h
      rw [IndependentMembers]
      exact ⟨independent _ item h.1, independentMembers _ members h.2⟩

end

/-- A number behind a control character. -/
def controlAndNumber : Document :=
  .array .makeArray [.string ⟨[1], by decide⟩, .integer ⟨32, 255, by decide⟩]

example : controlAndNumber.text = ascii "[\"\\u0001\",ff]" := by
  decide +kernel

end Document

end Seasocks
