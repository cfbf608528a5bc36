import Seasocks.Library.JsonNumber
import Seasocks.Library.JsonString

/-!
# JSON texts

The texts of RFC 8259 and the values they stand for. The members of an object keep their order.
-/

namespace JsonText

inductive Value where
  | null
  | boolean (b : Bool)
  | number (q : ℚ)
  | string (text : List UInt8)
  | array (items : List Value)
  | object (members : List (List UInt8 × Value))

def skipSpace (text : List UInt8) : List UInt8 := text.dropWhile isSpace

/-- A structural character, with white space in front of it. -/
def expect (c : UInt8) (text : List UInt8) : Option (List UInt8) :=
  if (skipSpace text).head? = some c then some (skipSpace text).tail else none

section Items

variable {α : Type} (read : List UInt8 → Option (α × List UInt8)) (close : UInt8)

/-- Items with commas between them, up to the closing character. -/
def readItems : Nat → List UInt8 → Option (List α × List UInt8)
  | 0, _ => none
  | count + 1, text => do
      let (item, rest) ← read text
      match expect 44 rest with
      | some rest => (readItems count rest).map fun items => (item :: items.1, items.2)
      | none => (expect close rest).map fun rest => ([item], rest)

/-- What is between an opening and a closing character. -/
def readBlock (text : List UInt8) : Option (List α × List UInt8) :=
  match expect close text with
  | some rest => some ([], rest)
  | none => readItems read close text.length text

def readMember (text : List UInt8) : Option ((List UInt8 × α) × List UInt8) := do
  let rest ← expect quote text
  let (key, rest) ← readString rest
  let rest ← expect 58 rest
  let (item, rest) ← read rest
  return ((key, item), rest)

end Items

def readLiteral (name : List UInt8) (value : Value) (text : List UInt8) : Option (Value × List UInt8) :=
  if name.isPrefixOf text then some (value, text.drop name.length) else none

/-- A value that is nested no deeper than this. -/
def readValue : Nat → List UInt8 → Option (Value × List UInt8)
  | 0, _ => none
  | depth + 1, text =>
      match skipSpace text with
      | [] => none
      | c :: rest =>
          if c = quote then (readString rest).map fun string => (.string string.1, string.2)
          else if c = 91 then (readBlock (readValue depth) 93 rest).map fun items => (.array items.1, items.2)
          else if c = 123 then
            (readBlock (readMember (readValue depth)) 125 rest).map fun members =>
              (.object members.1, members.2)
          else if c = 116 then readLiteral [116, 114, 117, 101] (.boolean true) (c :: rest)
          else if c = 102 then readLiteral [102, 97, 108, 115, 101] (.boolean false) (c :: rest)
          else if c = 110 then readLiteral [110, 117, 108, 108] .null (c :: rest)
          else (readNumber (c :: rest)).map fun number => (.number number.1, number.2)

/-- The value of a whole text. -/
def parse (text : List UInt8) : Option Value := do
  let (value, rest) ← readValue text.length text
  if skipSpace rest = [] then some value else none

/-! ### Structural characters -/

theorem skipSpace_of_not {c : UInt8} (h : isSpace c = false) (rest : List UInt8) :
    skipSpace (c :: rest) = c :: rest := by
  rw [skipSpace, List.dropWhile_cons_of_neg (by simp [h])]

theorem expect_self {c : UInt8} (h : isSpace c = false) (rest : List UInt8) :
    expect c (c :: rest) = some rest := by
  rw [expect, skipSpace_of_not h, if_pos]
  all_goals rfl

theorem expect_other {c d : UInt8} (h : isSpace d = false) (hne : d ≠ c) (rest : List UInt8) :
    expect c (d :: rest) = none := by
  rw [expect, skipSpace_of_not h, if_neg]
  simpa using hne

theorem expect_stuck {rest : List UInt8} (h : Stuck rest) {c : UInt8} (hc : c = 44 ∨ c = 93 ∨ c = 125) :
    expect c rest = none := by
  obtain ⟨d, more, rfl, hspace, hcomma, hbracket, hbrace⟩ := h
  apply expect_other hspace
  rintro rfl
  rcases hc with hc | hc | hc
  · exact hcomma hc
  · exact hbracket hc
  · exact hbrace hc

/-! ### Items -/

/-- Items as they are written. -/
def joined : List (List UInt8) → List UInt8
  | [] => []
  | [text] => text
  | text :: other :: texts => text ++ 44 :: joined (other :: texts)

/-- The text is read as the item, in front of what ends it. -/
def ReadsItem {α : Type} (read : List UInt8 → Option (α × List UInt8)) (text : List UInt8) (item : α) :
    Prop :=
  ∀ rest, Delimited rest → read (text ++ rest) = some (item, rest)

/-- The text is read as something else, if at all, or not to its end. -/
def MisreadsItem {α : Type} (read : List UInt8 → Option (α × List UInt8)) (text : List UInt8) (item : α) :
    Prop :=
  ∀ rest other more, Delimited rest → read (text ++ rest) = some (other, more) → other ≠ item ∨ Stuck more

/-- One of the texts goes wrong, and those before it are right. -/
inductive Spoiled {α : Type} (reads misreads : List UInt8 → α → Prop) : List (List UInt8) → List α → Prop
  | here {text texts item items} : misreads text item → Spoiled reads misreads (text :: texts) (item :: items)
  | there {text texts item items} : reads text item → Spoiled reads misreads texts items →
      Spoiled reads misreads (text :: texts) (item :: items)

theorem Spoiled.mono {α : Type} {reads reads' misreads misreads' : List UInt8 → α → Prop}
    {texts : List (List UInt8)} {items : List α}
    (hreads : ∀ text ∈ texts, ∀ item, reads text item → reads' text item)
    (hmisreads : ∀ text ∈ texts, ∀ item, misreads text item → misreads' text item)
    (h : Spoiled reads misreads texts items) : Spoiled reads' misreads' texts items := by
  induction h with
  | here hitem => exact Spoiled.here (hmisreads _ List.mem_cons_self _ hitem)
  | there hitem _ ih =>
      refine Spoiled.there (hreads _ List.mem_cons_self _ hitem) (ih ?_ ?_)
      · exact fun text htext => hreads text (List.mem_cons_of_mem _ htext)
      · exact fun text htext => hmisreads text (List.mem_cons_of_mem _ htext)

theorem forall₂_mono {α : Type} {reads reads' : List UInt8 → α → Prop} {texts : List (List UInt8)}
    {items : List α} (hreads : ∀ text ∈ texts, ∀ item, reads text item → reads' text item)
    (h : List.Forall₂ reads texts items) : List.Forall₂ reads' texts items := by
  induction h with
  | nil => exact List.Forall₂.nil
  | cons hitem _ ih =>
      refine List.Forall₂.cons (hreads _ List.mem_cons_self _ hitem) (ih ?_)
      exact fun text htext => hreads text (List.mem_cons_of_mem _ htext)

theorem joined_cons (text : List UInt8) (texts : List (List UInt8)) (close : UInt8) (rest : List UInt8) :
    ∃ more, joined (text :: texts) ++ close :: rest = text ++ more ∧
      (texts = [] → more = close :: rest) ∧
      (texts ≠ [] → more = 44 :: (joined texts ++ close :: rest)) := by
  cases texts with
  | nil => exact ⟨close :: rest, rfl, fun _ => rfl, fun h => absurd rfl h⟩
  | cons other texts =>
      refine ⟨44 :: (joined (other :: texts) ++ close :: rest), ?_, fun h => ?_, fun _ => rfl⟩
      · rw [joined, List.append_assoc, List.cons_append]
      · cases h

theorem length_le_joined {texts : List (List UInt8)} : ∀ text ∈ texts, text.length ≤ (joined texts).length := by
  induction texts with
  | nil => simp
  | cons first texts ih =>
      cases texts with
      | nil => simp [joined]
      | cons other texts =>
          rw [joined, List.length_append, List.length_cons, List.forall_mem_cons]
          refine ⟨by omega, fun text htext => ?_⟩
          have := ih text htext
          omega

theorem length_joined (texts : List (List UInt8)) : texts.length ≤ (joined texts).length + 1 := by
  induction texts with
  | nil => exact Nat.zero_le _
  | cons first texts ih =>
      cases texts with
      | nil => exact Nat.le_add_left 1 _
      | cons other texts =>
          simp only [joined, List.length_append, List.length_cons] at ih ⊢
          omega

section Reading

variable {α : Type} {read : List UInt8 → Option (α × List UInt8)} {close : UInt8}
  {texts : List (List UInt8)} {items : List α}

theorem delimited_more {more rest : List UInt8} (hclose : close = 93 ∨ close = 125)
    (hlast : texts = [] → more = close :: rest)
    (hnext : texts ≠ [] → more = 44 :: (joined texts ++ close :: rest)) : Delimited more := by
  by_cases hempty : texts = []
  · rw [hlast hempty]
    exact Delimited.cons (Or.inr hclose) rest
  · rw [hnext hempty]
    exact Delimited.cons (Or.inl rfl) _

theorem readItems_cons (count : Nat) {text rest : List UInt8} {item : α}
    (h : read text = some (item, rest)) :
    readItems read close (count + 1) text =
      match expect 44 rest with
      | some rest => (readItems read close count rest).map fun items => (item :: items.1, items.2)
      | none => (expect close rest).map fun rest => ([item], rest) := by
  rw [readItems, h]
  rfl

theorem expect_close (hclose : close = 93 ∨ close = 125) (rest : List UInt8) :
    expect close (close :: rest) = some rest ∧ expect 44 (close :: rest) = none := by
  rcases hclose with rfl | rfl
  · exact ⟨expect_self (by decide) rest, expect_other (by decide) (by decide) rest⟩
  · exact ⟨expect_self (by decide) rest, expect_other (by decide) (by decide) rest⟩

theorem readItems_joined (hclose : close = 93 ∨ close = 125)
    (h : List.Forall₂ (ReadsItem read) texts items) (hne : texts ≠ []) {count : Nat}
    (hcount : texts.length ≤ count) (rest : List UInt8) :
    readItems read close count (joined texts ++ close :: rest) = some (items, rest) := by
  induction h generalizing count with
  | nil => exact absurd rfl hne
  | @cons text item texts items hitem hitems ih =>
      obtain ⟨count, rfl⟩ := Nat.exists_eq_add_one.mpr (Nat.zero_lt_of_lt hcount)
      obtain ⟨more, hmore, hlast, hnext⟩ := joined_cons text texts close rest
      rw [hmore, readItems_cons count (hitem more (delimited_more hclose hlast hnext))]
      by_cases hempty : texts = []
      · subst hempty
        cases hitems
        rw [hlast rfl, (expect_close hclose rest).1, (expect_close hclose rest).2]
        rfl
      · rw [hnext hempty, expect_self (by decide)]
        dsimp only
        rw [ih hempty (Nat.le_of_lt_succ hcount), Option.map_some]

theorem readItems_spoiled (hclose : close = 93 ∨ close = 125)
    (h : Spoiled (ReadsItem read) (MisreadsItem read) texts items) {count : Nat} {rest more : List UInt8}
    {others : List α}
    (hread : readItems read close count (joined texts ++ close :: rest) = some (others, more)) :
    others ≠ items := by
  induction h generalizing count others with
  | @here text texts item items hitem =>
      cases count with
      | zero => cases hread
      | succ count =>
          obtain ⟨left, hleft, hlast, hnext⟩ := joined_cons text texts close rest
          rw [hleft] at hread
          cases hother : read (text ++ left) with
          | none =>
              rw [readItems, hother] at hread
              cases hread
          | some other =>
              obtain ⟨other, behind⟩ := other
              rw [readItems_cons count hother] at hread
              rcases hitem left other behind (delimited_more hclose hlast hnext) hother with hne | hstuck
              · split at hread
                · obtain ⟨_, -, heq⟩ := Option.map_eq_some_iff.mp hread
                  cases heq
                  exact fun heq => hne (List.cons.inj heq).1
                · obtain ⟨_, -, heq⟩ := Option.map_eq_some_iff.mp hread
                  cases heq
                  exact fun heq => hne (List.cons.inj heq).1
              · rw [expect_stuck hstuck (Or.inl rfl), expect_stuck hstuck (Or.inr hclose)] at hread
                cases hread
  | @there text texts item items hitem hspoiled ih =>
      cases count with
      | zero => cases hread
      | succ count =>
          obtain ⟨left, hleft, hlast, hnext⟩ := joined_cons text texts close rest
          have hne : texts ≠ [] := by
            rintro rfl
            cases hspoiled
          rw [hleft, readItems_cons count (hitem left (delimited_more hclose hlast hnext)), hnext hne,
            expect_self (by decide)] at hread
          obtain ⟨_, hmore, heq⟩ := Option.map_eq_some_iff.mp hread
          cases heq
          exact fun heq => ih hmore (List.cons.inj heq).2

/-- The closing character does not begin an item. -/
theorem expect_joined (hclose : close = 93 ∨ close = 125)
    (hread : ∀ text, (expect close text).isSome = true → read text = none)
    (h : List.Forall₂ (ReadsItem read) texts items) (hne : texts ≠ []) (rest : List UInt8) :
    expect close (joined texts ++ close :: rest) = none := by
  cases h with
  | nil => exact absurd rfl hne
  | @cons text item texts items hitem =>
      obtain ⟨more, hmore, hlast, hnext⟩ := joined_cons text texts close rest
      have hsome := hitem more (delimited_more hclose hlast hnext)
      rw [hmore]
      by_contra hfound
      rw [hread _ (Option.isSome_iff_ne_none.mpr hfound)] at hsome
      cases hsome

theorem readBlock_joined (hclose : close = 93 ∨ close = 125)
    (hread : ∀ text, (expect close text).isSome = true → read text = none)
    (h : List.Forall₂ (ReadsItem read) texts items) (rest : List UInt8) :
    readBlock read close (joined texts ++ close :: rest) = some (items, rest) := by
  rw [readBlock]
  by_cases hempty : texts = []
  · subst hempty
    cases h
    rw [joined, List.nil_append, (expect_close hclose rest).1]
  · have hcount : texts.length ≤ (joined texts ++ close :: rest).length := by
      have := length_joined texts
      rw [List.length_append, List.length_cons]
      omega
    rw [expect_joined hclose hread h hempty]
    exact readItems_joined hclose h hempty hcount rest

theorem readBlock_spoiled (hclose : close = 93 ∨ close = 125)
    (h : Spoiled (ReadsItem read) (MisreadsItem read) texts items) {rest more : List UInt8}
    {others : List α} (hread : readBlock read close (joined texts ++ close :: rest) = some (others, more)) :
    others ≠ items := by
  rw [readBlock] at hread
  split at hread
  · cases hread
    rintro rfl
    cases h
  · exact readItems_spoiled hclose h hread

/-! ### Members -/

/-- A key between its quotation marks, and the text of an item. -/
def memberText (body text : List UInt8) : List UInt8 := quote :: (body ++ quote :: 58 :: text)

theorem readMember_eq {body key text : List UInt8} (hkey : Reads body key) :
    readMember read (memberText body text) = (read text).map fun item => ((key, item.1), item.2) := by
  have hquote : expect quote (memberText body text) = some (body ++ quote :: 58 :: text) :=
    expect_self (by decide) _
  have hcolon : expect 58 (58 :: text) = some text := expect_self (by decide) _
  rw [readMember, hquote]
  simp only [Option.bind_eq_bind, Option.bind_some, hkey (58 :: text), hcolon]
  cases read text <;> rfl

theorem memberText_append (body text rest : List UInt8) :
    memberText body text ++ rest = memberText body (text ++ rest) := by
  simp [memberText]

theorem readsItem_member {body key text : List UInt8} {item : α} (hkey : Reads body key)
    (h : ReadsItem read text item) : ReadsItem (readMember read) (memberText body text) (key, item) := by
  intro rest hrest
  rw [memberText_append, readMember_eq hkey, h rest hrest, Option.map_some]

theorem misreadsItem_member {body key text : List UInt8} {item : α} (hkey : Reads body key)
    (h : MisreadsItem read text item) :
    MisreadsItem (readMember read) (memberText body text) (key, item) := by
  intro rest other more hrest hread
  rw [memberText_append, readMember_eq hkey] at hread
  obtain ⟨⟨found, left⟩, hfound, heq⟩ := Option.map_eq_some_iff.mp hread
  cases heq
  rcases h rest found left hrest hfound with hne | hstuck
  · exact Or.inl fun heq => hne (Prod.mk.inj heq).2
  · exact Or.inr hstuck

theorem expect_isSome {c : UInt8} {text : List UInt8} (h : (expect c text).isSome = true) :
    ∃ more, skipSpace text = c :: more := by
  rw [expect] at h
  by_cases hhead : (skipSpace text).head? = some c
  · exact List.head?_eq_some_iff.mp hhead
  · rw [if_neg hhead] at h
    cases h

theorem readMember_close {text : List UInt8} (h : (expect 125 text).isSome = true) :
    readMember read text = none := by
  obtain ⟨more, hmore⟩ := expect_isSome h
  have hquote : expect quote text = none := by
    rw [expect, hmore, if_neg]
    simp [quote]
  rw [readMember, hquote]
  rfl

end Reading

/-! ### Values -/

variable {depth : Nat} {rest : List UInt8}

theorem readValue_close {text : List UInt8} (h : (expect 93 text).isSome = true) :
    readValue depth text = none := by
  cases depth with
  | zero => rfl
  | succ depth =>
      obtain ⟨more, hmore⟩ := expect_isSome h
      rw [readValue, hmore]
      rfl

/-- The text is read as the value, wherever a value may stand. -/
def ReadsAs (text : List UInt8) (value : Value) : Prop :=
  ∀ depth, text.length ≤ depth → ReadsItem (readValue depth) text value

/-- The text does not stand for the value. -/
def Misreads (text : List UInt8) (value : Value) : Prop :=
  ∀ depth, text.length ≤ depth → MisreadsItem (readValue depth) text value

/-- A member of an object whose value is read, or misread. -/
def MemberOf (reads : List UInt8 → Value → Prop) (text : List UInt8) (member : List UInt8 × Value) : Prop :=
  ∃ body value, text = memberText body value ∧ Reads body member.1 ∧ reads value member.2

theorem readValue_array (depth : Nat) (text : List UInt8) :
    readValue (depth + 1) (91 :: text) =
      (readBlock (readValue depth) 93 text).map fun items => (.array items.1, items.2) := rfl

theorem readValue_object (depth : Nat) (text : List UInt8) :
    readValue (depth + 1) (123 :: text) =
      (readBlock (readMember (readValue depth)) 125 text).map fun members =>
        (.object members.1, members.2) := rfl

def arrayText (texts : List (List UInt8)) : List UInt8 := 91 :: (joined texts ++ [93])

def objectText (texts : List (List UInt8)) : List UInt8 := 123 :: (joined texts ++ [125])

/-- There is a level for the brackets, and enough for what is between them. -/
theorem exists_depth {texts : List (List UInt8)} (h : (joined texts).length + 2 ≤ depth) :
    ∃ inner, depth = inner + 1 ∧ ∀ text ∈ texts, text.length ≤ inner := by
  obtain ⟨inner, rfl⟩ := Nat.exists_eq_add_one.mpr (Nat.zero_lt_of_lt h)
  refine ⟨inner, rfl, fun text htext => ?_⟩
  have := length_le_joined text htext
  omega

theorem length_block (first last : UInt8) (text : List UInt8) :
    (first :: (text ++ [last])).length = text.length + 2 := by
  rw [List.length_cons, List.length_append, List.length_singleton]

theorem block_append (first last : UInt8) (text rest : List UInt8) :
    first :: (text ++ [last]) ++ rest = first :: (text ++ last :: rest) := by
  rw [List.cons_append, List.append_assoc, List.singleton_append]

theorem readsAs_array {texts : List (List UInt8)} {items : List Value} (h : List.Forall₂ ReadsAs texts items) :
    ReadsAs (arrayText texts) (.array items) := by
  intro depth hdepth rest _
  rw [arrayText, length_block] at hdepth
  obtain ⟨inner, rfl, hinner⟩ := exists_depth hdepth
  have hitems : List.Forall₂ (ReadsItem (readValue inner)) texts items :=
    forall₂_mono (fun text htext item hitem => hitem inner (hinner text htext)) h
  rw [arrayText, block_append, readValue_array,
    readBlock_joined (Or.inl rfl) (fun _ => readValue_close) hitems rest, Option.map_some]

theorem misreads_array {texts : List (List UInt8)} {items : List Value}
    (h : Spoiled ReadsAs Misreads texts items) : Misreads (arrayText texts) (.array items) := by
  intro depth hdepth rest other more _ hread
  rw [arrayText, length_block] at hdepth
  obtain ⟨inner, rfl, hinner⟩ := exists_depth hdepth
  have hitems : Spoiled (ReadsItem (readValue inner)) (MisreadsItem (readValue inner)) texts items :=
    h.mono (fun text htext item hitem => hitem inner (hinner text htext))
      fun text htext item hitem => hitem inner (hinner text htext)
  rw [arrayText, block_append, readValue_array] at hread
  obtain ⟨others, hothers, heq⟩ := Option.map_eq_some_iff.mp hread
  cases heq
  apply Or.inl
  intro heq
  exact readBlock_spoiled (Or.inl rfl) hitems hothers (Value.array.inj heq)

theorem member_depth {text : List UInt8} {member : List UInt8 × Value} (hdepth : text.length ≤ depth)
    {reads : List UInt8 → Value → Prop} (h : MemberOf reads text member) :
    ∃ body value, text = memberText body value ∧ Reads body member.1 ∧ value.length ≤ depth ∧
      reads value member.2 := by
  obtain ⟨body, value, rfl, hkey, hvalue⟩ := h
  refine ⟨body, value, rfl, hkey, ?_, hvalue⟩
  simp only [memberText, List.length_cons, List.length_append] at hdepth
  omega

theorem MemberOf.reads {text : List UInt8} {member : List UInt8 × Value} (hdepth : text.length ≤ depth)
    (h : MemberOf ReadsAs text member) : ReadsItem (readMember (readValue depth)) text member := by
  obtain ⟨body, value, rfl, hkey, hlength, hvalue⟩ := member_depth hdepth h
  exact readsItem_member hkey (hvalue depth hlength)

theorem MemberOf.misreads {text : List UInt8} {member : List UInt8 × Value} (hdepth : text.length ≤ depth)
    (h : MemberOf Misreads text member) : MisreadsItem (readMember (readValue depth)) text member := by
  obtain ⟨body, value, rfl, hkey, hlength, hvalue⟩ := member_depth hdepth h
  exact misreadsItem_member hkey (hvalue depth hlength)

theorem readsAs_object {texts : List (List UInt8)} {members : List (List UInt8 × Value)}
    (h : List.Forall₂ (MemberOf ReadsAs) texts members) : ReadsAs (objectText texts) (.object members) := by
  intro depth hdepth rest _
  rw [objectText, length_block] at hdepth
  obtain ⟨inner, rfl, hinner⟩ := exists_depth hdepth
  have hitems : List.Forall₂ (ReadsItem (readMember (readValue inner))) texts members :=
    forall₂_mono (fun text htext member hmember => hmember.reads (hinner text htext)) h
  rw [objectText, block_append, readValue_object,
    readBlock_joined (Or.inr rfl) (fun _ => readMember_close) hitems rest, Option.map_some]

theorem misreads_object {texts : List (List UInt8)} {members : List (List UInt8 × Value)}
    (h : Spoiled (MemberOf ReadsAs) (MemberOf Misreads) texts members) :
    Misreads (objectText texts) (.object members) := by
  intro depth hdepth rest other more _ hread
  rw [objectText, length_block] at hdepth
  obtain ⟨inner, rfl, hinner⟩ := exists_depth hdepth
  have hitems : Spoiled (ReadsItem (readMember (readValue inner)))
      (MisreadsItem (readMember (readValue inner))) texts members :=
    h.mono (fun text htext member hmember => hmember.reads (hinner text htext))
      fun text htext member hmember => hmember.misreads (hinner text htext)
  rw [objectText, block_append, readValue_object] at hread
  obtain ⟨others, hothers, heq⟩ := Option.map_eq_some_iff.mp hread
  cases heq
  apply Or.inl
  intro heq
  exact readBlock_spoiled (Or.inr rfl) hitems hothers (Value.object.inj heq)

/-! ### Simple values -/

theorem readsAs_string {body string : List UInt8} (h : Reads body string) :
    ReadsAs (quote :: (body ++ [quote])) (.string string) := by
  intro depth hdepth rest _
  obtain ⟨inner, rfl⟩ := Nat.exists_eq_add_one.mpr (Nat.zero_lt_of_lt hdepth)
  have hread : readValue (inner + 1) (quote :: (body ++ quote :: rest)) =
      (readString (body ++ quote :: rest)).map fun string => (.string string.1, string.2) := rfl
  rw [block_append, hread, h rest, Option.map_some]

theorem readsAs_boolean (b : Bool) :
    ReadsAs (if b then [116, 114, 117, 101] else [102, 97, 108, 115, 101]) (.boolean b) := by
  intro depth hdepth rest _
  cases b with
  | true =>
      obtain ⟨inner, rfl⟩ := Nat.exists_eq_add_one.mpr (Nat.zero_lt_of_lt hdepth)
      rfl
  | false =>
      obtain ⟨inner, rfl⟩ := Nat.exists_eq_add_one.mpr (Nat.zero_lt_of_lt hdepth)
      rfl

/-! ### Numbers -/

theorem readValue_number {c : UInt8} (hspace : isSpace c = false)
    (h : c ≠ quote ∧ c ≠ 91 ∧ c ≠ 123 ∧ c ≠ 116 ∧ c ≠ 102 ∧ c ≠ 110) (depth : Nat) (rest : List UInt8) :
    readValue (depth + 1) (c :: rest) =
      (readNumber (c :: rest)).map fun number => (.number number.1, number.2) := by
  rw [readValue, skipSpace_of_not hspace]
  dsimp only
  rw [if_neg h.1, if_neg h.2.1, if_neg h.2.2.1, if_neg h.2.2.2.1, if_neg h.2.2.2.2.1, if_neg h.2.2.2.2.2]

theorem readValue_of_isDigit {c : UInt8} (h : isDigit c = true) :
    isSpace c = false ∧ c ≠ 45 ∧ c ≠ quote ∧ c ≠ 91 ∧ c ≠ 123 ∧ c ≠ 116 ∧ c ≠ 102 ∧ c ≠ 110 := by
  revert h
  apply Hexadecimal.forall_byte (p := fun c => isDigit c = true → isSpace c = false ∧ c ≠ 45 ∧ c ≠ quote ∧
    c ≠ 91 ∧ c ≠ 123 ∧ c ≠ 116 ∧ c ≠ 102 ∧ c ≠ 110)
  decide +kernel

theorem isDigit_of_mem_numeral (n : Nat) : ∀ c ∈ Numeral.numeral 10 n, isDigit c = true := by
  intro c hc
  obtain ⟨d, hd, rfl⟩ := Numeral.exists_digitByte_of_mem (by omega) n c hc
  rw [isDigit_digitByte (by omega), decide_eq_true hd]

theorem numeral_head (n : Nat) : (Numeral.numeral 10 n).head? = some 48 → Numeral.numeral 10 n = [48] := by
  intro hhead
  rcases Nat.eq_zero_or_pos n with rfl | hpos
  · rfl
  · exact absurd hhead (Numeral.head_numeral (by omega) (by omega) n hpos)

theorem readsAs_digits {digits : List UInt8} (hne : digits ≠ []) (hdigits : ∀ c ∈ digits, isDigit c = true)
    (hzero : digits.head? = some 48 → digits = [48]) :
    ReadsAs digits (.number (Numeral.value 10 digits)) := by
  intro depth hdepth rest hrest
  have hread := readUnsigned_digits hne hdigits hzero hrest
  obtain ⟨c, more, rfl⟩ := List.exists_cons_of_ne_nil hne
  obtain ⟨hspace, hminus, hother⟩ := readValue_of_isDigit (hdigits c List.mem_cons_self)
  obtain ⟨inner, rfl⟩ := Nat.exists_eq_add_one.mpr (Nat.zero_lt_of_lt hdepth)
  rw [List.cons_append] at hread ⊢
  rw [readValue_number hspace hother, readNumber, if_neg hminus, hread, Option.map_some]

theorem readsAs_negative {digits : List UInt8} (hne : digits ≠ []) (hdigits : ∀ c ∈ digits, isDigit c = true)
    (hzero : digits.head? = some 48 → digits = [48]) :
    ReadsAs (45 :: digits) (.number (-(Numeral.value 10 digits : ℚ))) := by
  intro depth hdepth rest hrest
  obtain ⟨inner, rfl⟩ := Nat.exists_eq_add_one.mpr (Nat.zero_lt_of_lt hdepth)
  rw [List.cons_append, readValue_number (by decide) (by decide), readNumber, if_pos rfl,
    readUnsigned_digits hne hdigits hzero hrest, Option.map_some, Option.map_some]

theorem readsAs_numeral (n : Nat) : ReadsAs (Numeral.numeral 10 n) (.number n) := by
  have h := readsAs_digits (Numeral.numeral_ne_nil 10 n) (isDigit_of_mem_numeral n) (numeral_head n)
  rwa [Numeral.value_numeral (by omega) (by omega)] at h

theorem readsAs_negative_numeral (n : Nat) :
    ReadsAs (45 :: Numeral.numeral 10 n) (.number (-(n : ℚ))) := by
  have h := readsAs_negative (Numeral.numeral_ne_nil 10 n) (isDigit_of_mem_numeral n) (numeral_head n)
  rwa [Numeral.value_numeral (by omega) (by omega)] at h

/-- A number that is read from digits in base sixteen is read from the digits in front; an `f` may begin
a literal, but no number. -/
theorem readValue_hexadecimal {c : UInt8} (hc : IsHexDigit c) {rest more : List UInt8} {q : ℚ}
    (h : readValue (depth + 1) (c :: rest) = some (.number q, more)) :
    readUnsigned (c :: rest) = some (q, more) := by
  have hother : c ≠ quote ∧ c ≠ 91 ∧ c ≠ 123 ∧ c ≠ 116 ∧ c ≠ 110 := by
    obtain ⟨d, hd, rfl⟩ := hc
    have hall : ∀ d : Fin 16, Numeral.digitByte d.val ≠ quote ∧ Numeral.digitByte d.val ≠ 91 ∧
        Numeral.digitByte d.val ≠ 123 ∧ Numeral.digitByte d.val ≠ 116 ∧ Numeral.digitByte d.val ≠ 110 := by
      decide
    exact hall ⟨d, hd⟩
  by_cases hf : c = 102
  · have hliteral : readValue (depth + 1) (102 :: rest) =
        readLiteral [102, 97, 108, 115, 101] (.boolean false) (102 :: rest) := rfl
    rw [hf, hliteral, readLiteral] at h
    split_ifs at h
    cases h
  · rw [readValue_number hc.inert.1.1 ⟨hother.1, hother.2.1, hother.2.2.1, hother.2.2.2.1, hf, hother.2.2.2.2⟩,
      readNumber, if_neg hc.inert.2.2.1] at h
    obtain ⟨⟨_, _⟩, hread, heq⟩ := Option.map_eq_some_iff.mp h
    cases heq
    exact hread

theorem readValue_numeral {n : Nat} {rest more : List UInt8} {q : ℚ} (hdepth : 0 < depth)
    (h : readValue depth (Numeral.numeral 16 n ++ rest) = some (.number q, more)) :
    readUnsigned (Numeral.numeral 16 n ++ rest) = some (q, more) := by
  have hdigits := @Numeral.exists_digitByte_of_mem 16 (by omega) n
  obtain ⟨inner, rfl⟩ := Nat.exists_eq_add_one.mpr hdepth
  obtain ⟨c, text, htext⟩ := List.exists_cons_of_ne_nil (Numeral.numeral_ne_nil 16 n)
  rw [htext] at h hdigits ⊢
  exact readValue_hexadecimal (hdigits c List.mem_cons_self) h

theorem numeral_length_pos (n : Nat) : 0 < (Numeral.numeral 16 n).length :=
  List.length_pos_iff.mpr (Numeral.numeral_ne_nil 16 n)

/-- The text of a number in base sixteen, where the number should stand. -/
theorem misreads_hexadecimal {n : Nat} (hn : 10 ≤ n) : Misreads (Numeral.numeral 16 n) (.number n) := by
  intro depth hdepth rest other more hrest hread
  by_cases heq : other = .number n
  · rw [heq] at hread
    have hnumber := readValue_numeral ((numeral_length_pos n).trans_le hdepth) hread
    rcases readUnsigned_hexadecimal hn hrest hnumber with hne | hstuck
    · exact absurd rfl hne
    · exact Or.inr hstuck
  · exact Or.inl heq

/-- No text of digits is a negative number. -/
theorem misreads_negative (n : Nat) {q : ℚ} (hq : q < 0) : Misreads (Numeral.numeral 16 n) (.number q) := by
  intro depth hdepth rest other more _ hread
  apply Or.inl
  rintro rfl
  have hnumber := readValue_numeral ((numeral_length_pos n).trans_le hdepth) hread
  exact absurd (readUnsigned_nonneg hnumber) (not_le.mpr hq)

/-- Nothing is read where an array or an object goes on or ends. -/
theorem readValue_delimited {rest : List UInt8} (h : Delimited rest) : readValue depth rest = none := by
  cases depth with
  | zero => rfl
  | succ depth =>
      cases rest with
      | nil => rfl
      | cons c rest => rcases h c rfl with rfl | rfl | rfl <;> rfl

theorem readValue_space {c : UInt8} (h : isSpace c = true) (rest : List UInt8) :
    readValue depth (c :: rest) = readValue depth rest := by
  have hskip : skipSpace (c :: rest) = skipSpace rest := by
    rw [skipSpace, List.dropWhile_cons_of_pos h]
    rfl
  cases depth with
  | zero => rfl
  | succ depth => rw [readValue, readValue, hskip]

/-- No number begins with a character that is neither a digit, a minus sign nor white space. -/
theorem readValue_not_number {c : UInt8} (hspace : isSpace c = false) (hdigit : isDigit c = false)
    {rest more : List UInt8} {q : ℚ} (hrest : Delimited rest) :
    readValue (depth + 1) (c :: rest) ≠ some (.number q, more) := by
  intro hread
  rw [readValue, skipSpace_of_not hspace] at hread
  dsimp only at hread
  split_ifs at hread
  · obtain ⟨_, -, heq⟩ := Option.map_eq_some_iff.mp hread
    cases heq
  · obtain ⟨_, -, heq⟩ := Option.map_eq_some_iff.mp hread
    cases heq
  · obtain ⟨_, -, heq⟩ := Option.map_eq_some_iff.mp hread
    cases heq
  · rw [readLiteral] at hread
    split_ifs at hread
    cases hread
  · rw [readLiteral] at hread
    split_ifs at hread
    cases hread
  · rw [readLiteral] at hread
    split_ifs at hread
    cases hread
  · obtain ⟨⟨_, _⟩, hnumber, -⟩ := Option.map_eq_some_iff.mp hread
    rw [readNumber] at hnumber
    split_ifs at hnumber
    · rw [readUnsigned_of_not_isDigit (not_isDigit_head hrest)] at hnumber
      cases hnumber
    · rw [readUnsigned_of_not_isDigit (by simpa using hdigit)] at hnumber
      cases hnumber

/-- One character is the number of its digit only. -/
theorem misreads_character (c : UInt8) {q : ℚ} (h : isDigit c = true → q ≠ Numeral.digit c) :
    Misreads [c] (.number q) := by
  intro depth hdepth rest other more hrest hread
  apply Or.inl
  rintro rfl
  by_cases hdigit : isDigit c = true
  · have hone := readsAs_digits (List.cons_ne_nil c []) (by simpa using hdigit) (by simp) depth hdepth rest hrest
    rw [hread, Numeral.value_singleton] at hone
    cases hone
    exact h hdigit rfl
  · obtain ⟨inner, rfl⟩ := Nat.exists_eq_add_one.mpr (Nat.zero_lt_of_lt hdepth)
    rw [List.singleton_append] at hread
    cases hspace : isSpace c with
    | true =>
        rw [readValue_space hspace, readValue_delimited hrest] at hread
        cases hread
    | false => exact readValue_not_number hspace (Bool.eq_false_of_not_eq_true hdigit) hrest hread

/-! ### Whole texts -/

theorem parse_of_readsAs {text : List UInt8} {value : Value} (h : ReadsAs text value) :
    parse text = some value := by
  have hread := h text.length (Nat.le_refl _) [] Delimited.nil
  rw [List.append_nil] at hread
  rw [parse, hread]
  rfl

theorem parse_ne_of_misreads {text : List UInt8} {value : Value} (h : Misreads text value) :
    parse text ≠ some value := by
  intro hparse
  obtain ⟨⟨other, more⟩, hread, hend⟩ := Option.bind_eq_some_iff.mp hparse
  rw [← List.append_nil text] at hread
  dsimp only at hend
  split_ifs at hend with hempty
  rcases h _ (by simp) [] other more Delimited.nil hread with hne | ⟨c, left, rfl, hspace, -⟩
  · exact hne (Option.some.inj hend)
  · rw [skipSpace_of_not hspace] at hempty
    cases hempty

end JsonText
