import Seasocks.Proof.RequestParser

/-!
# Header blocks

What the parser makes of a well-formed header block, and what it cannot take for a value or a request
URI whatever the block is.
-/

namespace Seasocks

/-! ### Searching -/

theorem find_le_of_isPrefix {needle s : Bytes} {i j : Nat} (h : find needle s = some i)
    (hbegins : needle <+: s.drop j) (hj : j ≤ s.length) : i ≤ j := by
  induction s generalizing i j with
  | nil =>
      rw [find] at h
      split_ifs at h with hempty
      injection h with h
      exact h ▸ Nat.zero_le j
  | cons c s ih =>
      rw [find] at h
      split_ifs at h with hfirst
      · injection h with h
        exact h ▸ Nat.zero_le j
      · obtain ⟨i', hi', rfl⟩ := Option.map_eq_some_iff.mp h
        cases j with
        | zero => exact absurd (List.isPrefixOf_iff_prefix.mpr hbegins) hfirst
        | succ j => exact Nat.succ_le_succ (ih hi' hbegins (Nat.le_of_succ_le_succ hj))

theorem exists_find_of_isPrefix {needle s : Bytes} {j : Nat} (hbegins : needle <+: s.drop j)
    (hj : j ≤ s.length) : ∃ i, find needle s = some i := by
  induction s generalizing j with
  | nil =>
      rw [List.drop_nil, List.prefix_nil] at hbegins
      exact ⟨0, by rw [find, if_pos hbegins]⟩
  | cons c s ih =>
      rw [find]
      by_cases hfirst : needle.isPrefixOf (c :: s) = true
      · exact ⟨0, by rw [if_pos hfirst]⟩
      · cases j with
        | zero => exact absurd (List.isPrefixOf_iff_prefix.mpr hbegins) hfirst
        | succ j =>
            obtain ⟨i, hi⟩ := ih hbegins (Nat.le_of_succ_le_succ hj)
            exact ⟨i + 1, by rw [if_neg hfirst, hi, Option.map_some]⟩

theorem find_eq_none_iff {needle s : Bytes} : find needle s = none ↔ ¬ needle <:+: s := by
  constructor
  · rintro hnone ⟨before, after, rfl⟩
    have hbegins : needle <+: (before ++ needle ++ after).drop before.length := by
      rw [List.append_assoc, List.drop_left]
      exact List.prefix_append _ _
    obtain ⟨i, hi⟩ := exists_find_of_isPrefix hbegins (by simp)
    rw [hnone] at hi
    cases hi
  · intro hnot
    cases hfind : find needle s with
    | none => rfl
    | some i =>
        have hbegins := List.isPrefixOf_iff_prefix.mp (isPrefixOf_of_find hfind)
        exact absurd (hbegins.isInfix.trans (List.drop_suffix i s).isInfix) hnot

/-- There is nothing to be found before the first occurrence. -/
theorem find_take {needle s : Bytes} {i : Nat} (h : find needle s = some i) (hneedle : needle ≠ []) :
    find needle (s.take i) = none := by
  rw [find_eq_none_iff]
  rintro ⟨before, after, hsub⟩
  have hlength := congrArg List.length hsub
  have hpos := List.length_pos_iff.mpr hneedle
  simp only [List.length_append, List.length_take] at hlength
  have hbegins : needle <+: s.drop before.length := by
    have hdrop : (s.take i).drop before.length = needle ++ after := by
      rw [← hsub, List.append_assoc, List.drop_left]
    rw [List.drop_take] at hdrop
    exact (List.prefix_append needle after).trans (hdrop ▸ List.take_prefix _ _)
  have := find_le_of_isPrefix h hbegins (by omega)
  omega

/-- The line end behind a line without a carriage return. -/
theorem find_crlf {line : Bytes} (hline : cr ∉ line) (rest : Bytes) :
    find crlf (line ++ (cr :: lf :: rest)) = some line.length := by
  induction line with
  | nil => simp [find, crlf]
  | cons c line ih =>
      rw [List.mem_cons, not_or] at hline
      rw [List.cons_append, find, if_neg, ih hline.2]
      · rfl
      · simp [crlf, List.isPrefixOf, hline.1]

/-! ### C strings -/

theorem cString_append {s : Bytes} (h : 0 ∉ s) (rest : Bytes) : cString (s ++ 0 :: rest) = s := by
  have hs : ∀ c ∈ s, (c != 0) = true := fun c hc => by
    simpa using fun hzero : c = 0 => h (hzero ▸ hc)
  rw [cString, List.takeWhile_append_of_pos hs]
  simp

/-- Another NUL can only make a string shorter. -/
theorem cString_set_isPrefix (s : Bytes) (i : Nat) : cString (s.set i 0) <+: cString s := by
  induction s generalizing i with
  | nil => exact List.prefix_rfl
  | cons c s ih =>
      cases i with
      | zero => exact List.nil_prefix
      | succ i =>
          rw [List.set_cons_succ, cString, cString, List.takeWhile_cons, List.takeWhile_cons]
          split
          · exact (List.prefix_cons_inj c).mpr (ih i)
          · exact List.prefix_rfl

theorem cString_drop_set_isPrefix (memory : Bytes) (i str : Nat) :
    cString ((memory.set i 0).drop str) <+: cString (memory.drop str) := by
  rw [List.drop_set]
  split
  · exact List.prefix_rfl
  · exact cString_set_isPrefix _ _

/-- The string in front of a NUL ends there at the latest. -/
theorem cString_isPrefix_take {s : Bytes} {i : Nat} (h : s[i]? = some 0) :
    cString s <+: s.take i := by
  induction s generalizing i with
  | nil => exact List.prefix_rfl.trans (by simp)
  | cons c s ih =>
      cases i with
      | zero =>
          obtain rfl : c = 0 := by simpa using h
          exact List.nil_prefix
      | succ i =>
          rw [cString, List.takeWhile_cons, List.take_succ_cons]
          split
          · exact (List.prefix_cons_inj c).mpr (ih (by simpa using h))
          · exact List.nil_prefix

/-- A NUL behind the first byte of a string that is not empty leaves it so. -/
theorem cString_drop_set_ne_nil {memory : Bytes} {i str : Nat} (h : cString (memory.drop str) ≠ [])
    (hbehind : str < i) : cString ((memory.set i 0).drop str) ≠ [] := by
  rw [List.drop_set, if_neg (Nat.not_lt.mpr hbehind.le)]
  obtain ⟨j, hj⟩ : ∃ j, i - str = j + 1 := ⟨i - str - 1, by omega⟩
  cases hmemory : memory.drop str with
  | nil =>
      rw [hmemory] at h
      exact absurd rfl h
  | cons c rest =>
      rw [hmemory, cString, List.takeWhile_cons] at h
      rw [hj, List.set_cons_succ, cString, List.takeWhile_cons]
      split_ifs at h ⊢ with hc
      · exact List.cons_ne_nil _ _
      · exact absurd rfl h

namespace RequestParser

open Program

variable {memory : Bytes}

/-! ### What values and request URIs cannot hold -/

/-- No throw matters here. -/
def Anyhow (_ : Stop) (_ : Bytes) : Prop := True

theorem scanTo_ends (stop : UInt8 → Bool) (ptr : Nat) :
    Ends (scanTo stop ptr) memory (fun found memory' => memory = memory' ∧
      ∃ offset, (memory.drop ptr).findIdx? stop = some offset ∧ found = ptr + offset) Anyhow := by
  rw [scanTo, ends_bind, ends_get]
  cases hfind : (memory.drop ptr).findIdx? stop with
  | none => exact trivial
  | some offset => exact ⟨rfl, offset, rfl, rfl⟩

theorem stringAt_ends (str : Nat) :
    Ends (stringAt str) memory (fun text memory' => memory = memory' ∧ text = cString (memory.drop str))
      Anyhow := by
  rw [stringAt, ends_bind]
  refine (scanTo_ends _ _).mono (fun _ memory' h => ?_) fun _ _ => id
  rw [ends_bind, ends_get, ← h.1]
  exact ⟨rfl, rfl⟩

theorem load_ends (ptr : Nat) :
    Ends (load ptr) memory (fun byte memory' => memory = memory' ∧ memory[ptr]? = some byte) Anyhow := by
  rw [load, ends_bind, ends_get]
  cases hbyte : memory[ptr]? with
  | none => exact trivial
  | some byte => exact ⟨rfl, rfl⟩

theorem storeNul_ends (ptr : Nat) :
    Ends (storeNul ptr) memory (fun _ memory' => memory' = memory.set ptr 0) Anyhow := by
  rw [storeNul, ends_bind, ends_get, ends_ite]
  exact ⟨fun _ => rfl, fun _ => trivial⟩

/-- A string without blanks, now and after more NULs have been written. -/
def Solid (memory : Bytes) (str : Nat) : Prop := ∀ c ∈ cString (memory.drop str), isspace c = false

theorem Solid.set {str : Nat} (h : Solid memory str) (i : Nat) : Solid (memory.set i 0) str :=
  fun c hc => h c ((cString_drop_set_isPrefix memory i str).subset hc)

theorem solid_of_findIdx {s : Bytes} {offset : Nat}
    (h : s.findIdx? (fun c => c == 0 || isspace c) = some offset) :
    ∀ c ∈ cString (s.set offset 0), isspace c = false := by
  induction s generalizing offset with
  | nil => simp at h
  | cons c s ih =>
      rw [List.findIdx?_cons] at h
      split_ifs at h with hstop
      · injection h with h
        rw [← h, List.set_cons_zero]
        simp [cString]
      · obtain ⟨offset', hoffset, rfl⟩ := Option.map_eq_some_iff.mp h
        have hword : c ≠ 0 ∧ isspace c = false := by simpa using hstop
        rw [List.set_cons_succ, cString, List.takeWhile_cons, if_pos (by simpa using hword.1)]
        exact List.forall_mem_cons.mpr ⟨hword.2, ih hoffset⟩

/-- A word is not empty and has no blanks in it, and words found before stay so. -/
theorem shift_ends (str : Nat) :
    Ends (shift str) memory (fun result memory' =>
      (∀ word, result.1 = some word →
        Solid memory' word ∧ str ≤ word ∧ word < result.2 ∧ cString (memory'.drop word) ≠ []) ∧
        str ≤ result.2 ∧ ∃ i, memory' = memory.set i 0 ∧ str ≤ i) Anyhow := by
  have hnothing : ∃ i, memory = memory.set i 0 ∧ str ≤ i :=
    ⟨max str memory.length, (List.set_eq_of_length_le (Nat.le_max_right _ _)).symm,
      Nat.le_max_left _ _⟩
  rw [shift, ends_bind]
  refine (scanTo_ends _ _).mono ?_ fun _ _ => id
  rintro startOfWord memory₁ ⟨rfl, offset, hstart, rfl⟩
  rw [ends_bind]
  refine (load_ends _).mono ?_ fun _ _ => id
  rintro first memory₂ ⟨rfl, hfirst⟩
  rw [ends_ite]
  refine ⟨fun _ => ⟨(fun _ hword => by cases hword), Nat.le_add_right _ _, hnothing⟩, fun hword => ?_⟩
  rw [ends_bind]
  refine (scanTo_ends _ _).mono ?_ fun _ _ => id
  rintro endOfWord memory₃ ⟨rfl, offset', hend, rfl⟩
  have hlonger : 0 < offset' := by
    obtain ⟨hbound, hstop, -⟩ := List.findIdx?_eq_some_iff_getElem.mp hstart
    obtain ⟨hbound', hstop', -⟩ := List.findIdx?_eq_some_iff_getElem.mp hend
    rw [List.length_drop] at hbound hbound'
    rw [List.getElem?_eq_getElem (by omega)] at hfirst
    injection hfirst with hfirst
    rw [List.getElem_drop] at hstop hstop'
    rcases Nat.eq_zero_or_pos offset' with hzero | hpos
    · subst hzero
      simp only [Nat.add_zero] at hstop'
      rw [hfirst] at hstop hstop'
      simp [hword] at hstop'
      simp [hstop'] at hstop
    · exact hpos
  have hsolid : Solid (memory.set (str + offset + offset') 0) (str + offset) := by
    rw [Solid, List.drop_set, if_neg (by omega), Nat.add_sub_cancel_left]
    exact solid_of_findIdx hend
  have hsome : cString (memory.drop (str + offset)) ≠ [] := by
    obtain ⟨hbound, hvalue⟩ := List.getElem?_eq_some_iff.mp hfirst
    rw [List.drop_eq_getElem_cons hbound, hvalue, cString, List.takeWhile_cons, if_pos (by simpa using hword)]
    exact List.cons_ne_nil _ _
  have hstill := cString_drop_set_ne_nil (i := str + offset + offset') hsome (by omega)
  rw [ends_bind]
  refine (load_ends _).mono ?_ fun _ _ => id
  rintro last memory₄ ⟨rfl, hlast⟩
  rw [ends_ite]
  refine ⟨fun hnul => ?_, fun _ => ?_⟩
  · have hsame : memory.set (str + offset + offset') 0 = memory := by
      rw [hnul] at hlast
      obtain ⟨hbound, hvalue⟩ := List.getElem?_eq_some_iff.mp hlast
      rw [← hvalue, List.set_getElem_self]
    rw [hsame] at hsolid
    refine ⟨fun word hword => ?_, Nat.le_trans (Nat.le_add_right _ _) (Nat.le_add_right _ _), hnothing⟩
    injection hword with hword
    subst hword
    exact ⟨hsolid, Nat.le_add_right _ _, by dsimp only; omega, hsome⟩
  · rw [ends_bind]
    refine (storeNul_ends _).mono ?_ fun _ _ => id
    rintro _ _ rfl
    refine ⟨fun word hword => ?_, by dsimp only; omega, _, rfl, by omega⟩
    injection hword with hword
    subst hword
    exact ⟨hsolid, Nat.le_add_right _ _, by dsimp only; omega, hstill⟩

theorem length_cString_drop (memory : Bytes) (str : Nat) :
    (cString (memory.drop str)).length ≤ memory.length - str := by
  rw [← List.length_drop]
  exact (List.takeWhile_prefix _).length_le

/-- A request URI is not empty and holds no blanks, and a request line with the version in it is not
short. -/
theorem requestLine_ends (line : Nat) :
    Ends (requestLine line) memory (fun result memory' =>
      (∀ c ∈ result.2, isspace c = false) ∧ 8 < memory'.length ∧ result.2 ≠ []) Anyhow := by
  rw [requestLine, ends_bind]
  refine (shift_ends _).mono ?_ fun _ _ => id
  rintro ⟨verbText, next⟩ memory₁ ⟨hverb, -, -⟩
  cases verbText with
  | none => exact trivial
  | some verbText =>
  dsimp only
  rw [ends_bind]
  refine (stringAt_ends _).mono ?_ fun _ _ => id
  rintro text _ ⟨rfl, -⟩
  rw [ends_ite]
  refine ⟨fun _ => trivial, fun _ => ?_⟩
  rw [ends_bind]
  refine (shift_ends _).mono ?_ fun _ _ => id
  rintro ⟨requestUri, next'⟩ memory₂ ⟨huri, hnext, -⟩
  cases requestUri with
  | none => exact trivial
  | some requestUri =>
  dsimp only
  rw [ends_bind]
  refine (shift_ends _).mono ?_ fun _ _ => id
  rintro ⟨httpVersion, next''⟩ memory₃ ⟨hversion, -, i, rfl, hbehind⟩
  cases httpVersion with
  | none => exact trivial
  | some httpVersion =>
  dsimp only
  rw [ends_bind]
  refine (stringAt_ends _).mono ?_ fun _ _ => id
  rintro version _ ⟨rfl, hstring⟩
  rw [ends_ite]
  refine ⟨fun _ => trivial, fun hsupported => ?_⟩
  rw [ends_bind]
  refine (load_ends _).mono ?_ fun _ _ => id
  rintro last _ ⟨rfl, -⟩
  rw [ends_ite]
  refine ⟨fun _ => trivial, fun _ => ?_⟩
  rw [ends_bind]
  refine (stringAt_ends _).mono ?_ fun _ _ => id
  rintro uri _ ⟨rfl, rfl⟩
  obtain ⟨hsolid, -, hlast, hsome⟩ := huri requestUri rfl
  refine ⟨hsolid.set i, ?_, cString_drop_set_ne_nil hsome (Nat.lt_of_lt_of_le hlast hbehind)⟩
  have hlength := length_cString_drop (memory₂.set i 0) httpVersion
  rw [← hstring, not_not.mp hsupported] at hlength
  have hfirst := (hverb verbText rfl).2.2.1
  have hthird := (hversion httpVersion rfl).2.1
  have height : (ascii "HTTP/1.1").length = 8 := rfl
  omega

/-- A line of the block as it was before its end was overwritten. -/
theorem extractLine_ends (first : Nat) :
    Ends (extractLine first) memory (fun result memory' => ∀ line, result = some line →
      ∃ offset, find crlf (memory.drop first) = some offset ∧ memory' = memory.set (first + offset) 0 ∧
        line.result = first ∧ line.first = first + offset + 2 ∧
        ∀ colonPos, line.colon = some colonPos → first ≤ colonPos ∧ colonPos < first + offset)
      Anyhow := by
  rw [extractLine, ends_bind, ends_get]
  cases hfind : find crlf (memory.drop first) with
  | none => exact fun _ hline => by cases hline
  | some offset =>
      dsimp only
      rw [ends_bind]
      refine (storeNul_ends _).mono ?_ fun _ _ => id
      rintro _ _ rfl line hline
      injection hline with hline
      subst hline
      refine ⟨offset, rfl, rfl, rfl, rfl, fun colonPos hcolon => ?_⟩
      obtain ⟨k, hk, rfl⟩ := Option.map_eq_some_iff.mp hcolon
      obtain ⟨hbound, -⟩ := List.findIdx?_eq_some_iff_getElem.mp hk
      rw [List.length_take] at hbound
      omega

/-- A value is part of a line. -/
theorem value_isInfix {first offset colonPos value : Nat}
    (hfind : find crlf (memory.drop first) = some offset) (hfirst : first ≤ colonPos)
    (hcolon : colonPos < first + offset)
    (hvalue : (((memory.set (first + offset) 0).set colonPos 0).drop (colonPos + 1)).findIdx?
      (fun c => !isspace c) = some value) :
    cString (((memory.set (first + offset) 0).set colonPos 0).drop (colonPos + 1 + value)) <:+:
      (memory.drop first).take offset := by
  have hlength := length_of_find hfind (List.cons_ne_nil _ _)
  rw [List.length_drop, show crlf.length = 2 from rfl] at hlength
  have hend : ((memory.set (first + offset) 0).set colonPos 0)[first + offset]? = some 0 := by
    rw [List.getElem?_set_ne (by omega), List.getElem?_set_self (by omega)]
  have hle : colonPos + 1 + value ≤ first + offset := by
    by_contra hbehind
    obtain ⟨hbound, -, hbefore⟩ := List.findIdx?_eq_some_iff_getElem.mp hvalue
    have hblank := hbefore (first + offset - (colonPos + 1)) (by omega)
    obtain ⟨_, hzero⟩ := List.getElem?_eq_some_iff.mp hend
    rw [List.getElem_drop] at hblank
    simp only [show colonPos + 1 + (first + offset - (colonPos + 1)) = first + offset by omega,
      hzero] at hblank
    exact absurd hblank (by decide)
  have hstop : (((memory.set (first + offset) 0).set colonPos 0).drop
      (colonPos + 1 + value))[first + offset - (colonPos + 1 + value)]? = some 0 := by
    rw [List.getElem?_drop, Nat.add_sub_cancel' hle, hend]
  refine (cString_isPrefix_take hstop).isInfix.trans ?_
  have hsame : (((memory.set (first + offset) 0).set colonPos 0).drop
      (colonPos + 1 + value)).take (first + offset - (colonPos + 1 + value)) =
      ((memory.drop first).take offset).drop (colonPos + 1 + value - first) := by
    rw [List.drop_set_of_lt (by omega), List.drop_set, if_neg (by omega), List.take_set_of_le (by omega),
      List.drop_take, List.drop_drop]
    congr 1
    · omega
    · congr 1
      omega
  rw [hsame]
  exact (List.drop_suffix _ _).isInfix

/-- A header whose value holds no line end. -/
def OneLine (headers : HeaderMap) : Prop := ∀ entry ∈ headers.entries, find crlf entry.2 = none

theorem OneLine.emplace {headers : HeaderMap} {name value : Bytes} (h : OneLine headers)
    (hvalue : find crlf value = none) : OneLine (headers.emplace name value) := by
  rw [HeaderMap.emplace]
  split
  · intro entry hentry
    rcases List.mem_append.mp hentry with hentry | hentry
    · exact h entry hentry
    · rw [List.mem_singleton.mp hentry]
      exact hvalue
  · exact h

theorem headerLines_ends (fuel first : Nat) {headers : HeaderMap} (hheaders : OneLine headers) :
    Ends (headerLines fuel first headers) memory (fun result _ => OneLine result) Anyhow := by
  induction fuel generalizing first headers memory with
  | zero => exact hheaders
  | succ fuel ih =>
      rw [headerLines, ends_bind, ends_get, ends_ite]
      refine ⟨fun _ => ?_, fun _ => hheaders⟩
      rw [ends_bind]
      refine (extractLine_ends _).mono (fun result memory₁ hline => ?_) fun _ _ => id
      cases result with
      | none => exact trivial
      | some line =>
          obtain ⟨offset, hfind, rfl, -, -, hcolon⟩ := hline line rfl
          dsimp only
          cases hpos : line.colon with
          | none => exact trivial
          | some colonPos =>
              obtain ⟨hfirst, hlast⟩ := hcolon colonPos hpos
              dsimp only
              rw [ends_bind]
              refine (storeNul_ends _).mono ?_ fun _ _ => id
              rintro _ _ rfl
              rw [ends_bind]
              refine (stringAt_ends _).mono ?_ fun _ _ => id
              rintro key _ ⟨rfl, -⟩
              rw [ends_bind]
              refine (scanTo_ends _ _).mono ?_ fun _ _ => id
              rintro start _ ⟨rfl, value, hvalue, rfl⟩
              rw [ends_bind]
              refine (stringAt_ends _).mono ?_ fun _ _ => id
              rintro text _ ⟨rfl, rfl⟩
              refine ih _ (hheaders.emplace (find_eq_none_iff.mpr fun hsub => ?_))
              have hnone := find_take hfind (List.cons_ne_nil _ _)
              exact find_eq_none_iff.mp hnone (hsub.trans (value_isInfix hfind hfirst hlast hvalue))

/-- Whatever a header block is, no value in it holds a line end, and the request URI is not empty and
holds no blank. -/
theorem block_ends (memory : Bytes) :
    Ends block memory (fun result _ => (∀ c ∈ result.2.1, isspace c = false) ∧
      OneLine result.2.2 ∧ 8 < memory.length ∧ result.2.1 ≠ []) Anyhow := by
  rw [block, ends_bind]
  refine (extractLine_ends _).mono (fun result memory₁ hline => ?_) fun _ _ => id
  cases result with
  | none => exact trivial
  | some line =>
      obtain ⟨offset, -, rfl, -⟩ := hline line rfl
      dsimp only
      rw [ends_bind]
      refine ((requestLine_ends _).and (requestLine_steps _)).mono ?_ fun _ _ _ => trivial
      rintro ⟨verb, requestUri⟩ memory₂ ⟨⟨huri, hlength, hsome⟩, hsteps⟩
      rw [length_eq_of_steps hsteps, List.length_set] at hlength
      dsimp only
      rw [ends_bind, ends_get, ends_bind]
      have hempty : OneLine HeaderMap.empty := fun entry hentry => by cases hentry
      refine (headerLines_ends _ _ hempty).mono (fun _ _ hheaders => ?_) fun _ _ => id
      exact ⟨huri, hheaders, hlength, hsome⟩

end RequestParser

/-! ### Lines -/

/-- Lines as they are sent. -/
def renderLines (lines : List Bytes) : Bytes := lines.flatMap fun line => line ++ crlf

@[simp]
theorem renderLines_nil : renderLines [] = [] := rfl

@[simp]
theorem renderLines_cons (line : Bytes) (lines : List Bytes) :
    renderLines (line :: lines) = line ++ (cr :: lf :: renderLines lines) := by
  simp [renderLines, crlf]

@[simp]
theorem renderLines_append (lines lines' : List Bytes) :
    renderLines (lines ++ lines') = renderLines lines ++ renderLines lines' := List.flatMap_append

theorem find_skip {needle line : Bytes} (hneedle : needle.head? = some cr) (hline : cr ∉ line)
    (s : Bytes) : find needle (line ++ s) = (find needle s).map (line.length + ·) := by
  induction line with
  | nil =>
      cases hfind : find needle s <;> simp [hfind]
  | cons c line ih =>
      rw [List.mem_cons, not_or] at hline
      have hfirst : ¬ needle.isPrefixOf (c :: (line ++ s)) = true := by
        cases needle with
        | nil => cases hneedle
        | cons d needle =>
            obtain rfl : d = cr := by simpa using hneedle
            simp [List.isPrefixOf, hline.1]
      rw [List.cons_append, find, if_neg hfirst, ih hline.2]
      cases find needle s with
      | none => rfl
      | some i =>
          simp only [Option.map_some, List.length_cons]
          congr 1
          omega

/-- The blank line behind lines that are not blank. -/
theorem find_blank {lines : List Bytes} (hnonempty : lines ≠ [])
    (hlines : ∀ line ∈ lines, line ≠ [] ∧ cr ∉ line) (rest : Bytes) :
    find (crlf ++ crlf) (renderLines lines ++ (cr :: lf :: rest)) =
      some ((renderLines lines).length - 2) := by
  induction lines with
  | nil => exact absurd rfl hnonempty
  | cons line lines ih =>
      rw [List.forall_mem_cons] at hlines
      rw [renderLines_cons, List.append_assoc, find_skip rfl hlines.1.2]
      cases lines with
      | nil =>
          simp [find, crlf, List.isPrefixOf]
      | cons next lines =>
          have hrest := ih (List.cons_ne_nil _ _) hlines.2
          obtain ⟨⟨hnext, hcr⟩, -⟩ := List.forall_mem_cons.mp hlines.2
          obtain ⟨c, next, rfl⟩ := List.exists_cons_of_ne_nil hnext
          have hfirst : cr ≠ c := fun h => hcr (h ▸ List.mem_cons_self)
          rw [renderLines_cons, List.cons_append, List.cons_append] at hrest
          have hpair : ¬ (crlf ++ crlf).isPrefixOf (cr :: lf :: c :: (next ++ cr :: lf ::
              renderLines lines ++ (cr :: lf :: rest))) = true := by
            simp [crlf, List.isPrefixOf, hfirst]
          have hlf : ¬ (crlf ++ crlf).isPrefixOf (lf :: c :: (next ++ cr :: lf ::
              renderLines lines ++ (cr :: lf :: rest))) = true := by
            simp [crlf, List.isPrefixOf, cr, lf]
          rw [renderLines_cons, List.cons_append, List.cons_append, List.cons_append, List.cons_append,
            find, if_neg hpair, find, if_neg hlf, hrest]
          simp only [Option.map_some, List.length_append, List.length_cons]
          congr 1

/-! ### Well-formed header blocks -/

/-- A header field that is read as it was written. -/
structure PlainField (field : Bytes × Bytes) : Prop where
  name : 0 ∉ field.1 ∧ cr ∉ field.1 ∧ 58 ∉ field.1
  value : 0 ∉ field.2 ∧ cr ∉ field.2
  start : ∀ c ∈ field.2.head?, isspace c = false

def fieldLine (field : Bytes × Bytes) : Bytes := field.1 ++ (58 :: 32 :: field.2)

/-- The lines of a request. -/
def blockLines (verbText requestUri : Bytes) (fields : List (Bytes × Bytes)) : List Bytes :=
  (verbText ++ 32 :: (requestUri ++ ascii " HTTP/1.1")) :: fields.map fieldLine

/-- The lines of a GET request. -/
def requestLines (requestUri : Bytes) (fields : List (Bytes × Bytes)) : List Bytes :=
  (ascii "GET " ++ (requestUri ++ ascii " HTTP/1.1")) :: fields.map fieldLine

/-- The headers of some fields: of two with the same name, the first. -/
def headersOf (headers : HeaderMap) (fields : List (Bytes × Bytes)) : HeaderMap :=
  fields.foldl (fun headers field => headers.emplace field.1 field.2) headers

/-- What is the same as a name is the same as whatever the name is. -/
theorem caseInsensitiveSame_congr {a b : Bytes} (h : caseInsensitiveSame a b = true) (name : Bytes) :
    caseInsensitiveSame a name = caseInsensitiveSame b name := by
  rw [Bool.eq_iff_iff, caseInsensitiveSame_iff, caseInsensitiveSame_iff,
    caseInsensitiveSame_iff.mp h]

theorem HeaderMap.find_emplace (headers : HeaderMap) (name value key : Bytes) :
    (headers.emplace name value).find key =
      (headers.find key).or (if caseInsensitiveSame name key then some value else none) := by
  rw [HeaderMap.emplace]
  have hlast : [(name, value)].find? (fun entry => caseInsensitiveSame entry.1 key) =
      if caseInsensitiveSame name key then some (name, value) else none := by
    rw [List.find?_singleton]
  split_ifs with hall hsame hsame
  · rw [HeaderMap.find, List.find?_append, Option.map_or, hlast, if_pos hsame]
    rfl
  · rw [HeaderMap.find, List.find?_append, Option.map_or, hlast, if_neg hsame]
    rfl
  · obtain ⟨entry, hentry, hname⟩ : ∃ entry ∈ headers.entries,
        caseInsensitiveSame entry.1 name = true := by
      simpa using hall
    have hfound : (headers.find key).isSome = true := by
      rw [HeaderMap.find, Option.isSome_map, List.find?_isSome]
      exact ⟨entry, hentry, (caseInsensitiveSame_congr hname key).trans hsame⟩
    rw [Option.or_of_isSome hfound]
  · rw [Option.or_none]

/-- Of the fields of one name, the first one is kept. -/
theorem find_headersOf_eq (headers : HeaderMap) (fields : List (Bytes × Bytes)) (key : Bytes) :
    (headersOf headers fields).find key = (headers.find key).or
      ((fields.find? fun field => caseInsensitiveSame field.1 key).map (·.2)) := by
  induction fields generalizing headers with
  | nil => exact (Option.or_none).symm
  | cons field fields ih =>
      have hfirst : headersOf headers (field :: fields) =
          headersOf (headers.emplace field.1 field.2) fields := rfl
      rw [hfirst, ih, HeaderMap.find_emplace, Option.or_assoc, List.find?_cons]
      cases caseInsensitiveSame field.1 key with
      | true => rfl
      | false => simp

theorem PlainField.cr_not_mem {field : Bytes × Bytes} (h : PlainField field) :
    cr ∉ fieldLine field := by
  rw [fieldLine, List.mem_append, List.mem_cons, List.mem_cons]
  rintro (hname | hcolon | hblank | hvalue)
  · exact h.name.2.1 hname
  · exact absurd hcolon (by decide)
  · exact absurd hblank (by decide)
  · exact h.value.2 hvalue

namespace RequestParser

variable {memory : Bytes} {ptr : Nat}

theorem scanTo_run (stop : UInt8 → Bool) (done skipped : Bytes) (c : UInt8) (rest : Bytes)
    (hmemory : memory = done ++ (skipped ++ c :: rest)) (hptr : ptr = done.length)
    (hskipped : ∀ c ∈ skipped, stop c = false) (hstop : stop c = true) :
    (scanTo stop ptr).run memory = .ok (ptr + skipped.length) memory := by
  have hfind : (memory.drop ptr).findIdx? stop = some skipped.length := by
    rw [hmemory, hptr, List.drop_left, List.findIdx?_append,
      List.findIdx?_eq_none_iff.mpr hskipped, List.findIdx?_cons, if_pos hstop]
    simp
  rw [scanTo, EStateM.run_bind, EStateM.run_get]
  dsimp only
  rw [hfind]
  rfl

theorem stringAt_run (done text rest : Bytes) (hmemory : memory = done ++ (text ++ 0 :: rest))
    (hptr : ptr = done.length) (htext : 0 ∉ text) :
    (stringAt ptr).run memory = .ok text memory := by
  have hscan := scanTo_run (· == 0) done text 0 rest hmemory hptr
    (fun c hc => beq_false_of_ne fun hzero => htext (hzero ▸ hc)) rfl
  rw [stringAt, EStateM.run_bind, hscan]
  dsimp only
  rw [EStateM.run_bind, EStateM.run_get]
  dsimp only
  rw [hmemory, hptr, List.drop_left, cString_append htext]
  rfl

theorem load_run (done : Bytes) (c : UInt8) (rest : Bytes) (hmemory : memory = done ++ c :: rest)
    (hptr : ptr = done.length) : (load ptr).run memory = .ok c memory := by
  rw [load, EStateM.run_bind, EStateM.run_get]
  dsimp only
  rw [hmemory, hptr, List.getElem?_append_right (Nat.le_refl _), Nat.sub_self]
  rfl

theorem set_length (done : Bytes) (c d : UInt8) (rest : Bytes) :
    (done ++ c :: rest).set done.length d = done ++ d :: rest := by
  rw [List.set_append_right _ _ (Nat.le_refl _), Nat.sub_self, List.set_cons_zero]

/-- A word of the request line. -/
structure Word (word : Bytes) : Prop where
  nonempty : word ≠ []
  solid : ∀ c ∈ word, (c == 0 || isspace c) = false

theorem Word.cr_not_mem_line {verbText requestUri : Bytes} (hverb : Word verbText)
    (h : Word requestUri) : cr ∉ verbText ++ 32 :: (requestUri ++ ascii " HTTP/1.1") := by
  intro hmem
  rcases List.mem_append.mp hmem with hmem | hmem
  · exact absurd (hverb.solid cr hmem) (by decide)
  · rcases List.mem_cons.mp hmem with hmem | hmem
    · exact absurd hmem (by decide)
    · rcases List.mem_append.mp hmem with hmem | hmem
      · exact absurd (h.solid cr hmem) (by decide)
      · exact absurd hmem (by decide)

theorem word_get : Word (ascii "GET") := by constructor <;> decide +kernel

theorem Word.cr_not_mem {requestUri : Bytes} (h : Word requestUri) :
    cr ∉ ascii "GET " ++ (requestUri ++ ascii " HTTP/1.1") :=
  word_get.cr_not_mem_line h

theorem Word.zero_not_mem {word : Bytes} (h : Word word) : 0 ∉ word := fun hzero => by
  have := h.solid 0 hzero
  simp at this

/-- A word up to a blank, which is overwritten, or up to a NUL. -/
theorem shift_run (done word : Bytes) (c : UInt8) (rest : Bytes)
    (hmemory : memory = done ++ (word ++ c :: rest)) (hptr : ptr = done.length) (hword : Word word)
    (hc : (c == 0 || isspace c) = true) :
    (shift ptr).run memory =
      .ok (some ptr, ptr + word.length + if c = 0 then 0 else 1) (done ++ (word ++ 0 :: rest)) := by
  obtain ⟨first, word', hfirst⟩ := List.exists_cons_of_ne_nil hword.nonempty
  have hsolid := hword.solid first (hfirst ▸ List.mem_cons_self)
  rw [Bool.or_eq_false_iff, beq_eq_false_iff_ne] at hsolid
  have hstart : memory = done ++ ([] ++ first :: (word' ++ c :: rest)) := by
    rw [hmemory, hfirst]
    rfl
  have hend : memory = (done ++ word) ++ c :: rest := by rw [hmemory, List.append_assoc]
  have hlength : ptr + word.length = (done ++ word).length := by rw [hptr, List.length_append]
  have hskip := scanTo_run (fun c => !isspace c) done [] first _ hstart hptr
    (fun _ h => by cases h) (by simp [hsolid.2])
  have hscan := scanTo_run (fun c => c == 0 || isspace c) done word c rest hmemory hptr
    hword.solid hc
  rw [shift, skipWhitespace, EStateM.run_bind, hskip]
  dsimp only
  rw [List.length_nil, Nat.add_zero, EStateM.run_bind, load_run done first _ hstart hptr]
  dsimp only
  rw [if_neg hsolid.1, skipNonWhitespace, EStateM.run_bind, hscan]
  dsimp only
  rw [EStateM.run_bind, load_run (done ++ word) c rest hend hlength]
  dsimp only
  by_cases hnul : c = 0
  · rw [if_pos hnul, if_pos hnul, hmemory, hnul]
    rfl
  · have hinside : ptr + word.length < memory.length := by
      rw [hlength, hend]
      simp only [List.length_append, List.length_cons]
      omega
    rw [if_neg hnul, if_neg hnul, EStateM.run_bind, storeNul_run hinside]
    dsimp only
    rw [hlength, hend, set_length, List.append_assoc]
    rfl

theorem extractLine_run (done line rest : Bytes) (hmemory : memory = done ++ (line ++ cr :: lf :: rest))
    (hptr : ptr = done.length) (hline : cr ∉ line) :
    (extractLine ptr).run memory =
      .ok (some ⟨ptr, (line.idxOf? 58).map (ptr + ·), ptr + line.length + 2⟩)
        (done ++ (line ++ 0 :: lf :: rest)) := by
  have hdrop : memory.drop ptr = line ++ cr :: lf :: rest := by
    rw [hmemory, hptr, List.drop_left]
  have hset : memory.set (ptr + line.length) 0 = done ++ (line ++ 0 :: lf :: rest) := by
    rw [hmemory, hptr, ← List.length_append, ← List.append_assoc, set_length, List.append_assoc]
  rw [extractLine, EStateM.run_bind, EStateM.run_get]
  dsimp only
  rw [hdrop, find_crlf hline]
  have hinside : ptr + line.length < memory.length := by
    rw [hmemory, hptr]
    simp only [List.length_append, List.length_cons]
    omega
  dsimp only
  rw [EStateM.run_bind, storeNul_run hinside]
  dsimp only
  rw [hset, List.take_left]
  rfl

theorem headerLines_run {fields : List (Bytes × Bytes)} (hfields : ∀ field ∈ fields, PlainField field)
    {fuel : Nat} (hfuel : fields.length ≤ fuel) (headers : HeaderMap) (done : Bytes) :
    ∃ memory', (headerLines fuel done.length headers).run (done ++ renderLines (fields.map fieldLine)) =
      .ok (headersOf headers fields) memory' := by
  induction fields generalizing fuel headers done with
  | nil =>
      cases fuel with
      | zero => exact ⟨_, rfl⟩
      | succ fuel =>
          refine ⟨done, ?_⟩
          rw [List.map_nil, renderLines_nil, List.append_nil, headerLines, EStateM.run_bind,
            EStateM.run_get]
          dsimp only
          rw [if_neg (Nat.lt_irrefl _)]
          rfl
  | cons field fields ih =>
      obtain ⟨name, value⟩ := field
      rw [List.forall_mem_cons] at hfields
      obtain ⟨hplain, hfields⟩ := hfields
      obtain ⟨fuel, rfl⟩ : ∃ fuel', fuel = fuel' + 1 := ⟨fuel - 1, by simp at hfuel; omega⟩
      have hcolon : (fieldLine (name, value)).idxOf? 58 = some name.length := by
        have hname : name.findIdx? (· == 58) = none :=
          List.findIdx?_eq_none_iff.mpr fun c hc =>
            beq_false_of_ne fun h => hplain.name.2.2 (h ▸ hc)
        rw [fieldLine, List.idxOf?, List.findIdx?_append, hname, List.findIdx?_cons]
        simp
      rw [List.map_cons, renderLines_cons]
      generalize hrest : renderLines (fields.map fieldLine) = rest at ih ⊢
      have hlong : done.length < (done ++ (fieldLine (name, value) ++ cr :: lf :: rest)).length := by
        simp only [List.length_append, List.length_cons]
        omega
      -- the line with its end and its colon overwritten
      have hset : (done ++ (fieldLine (name, value) ++ 0 :: lf :: rest)).set
          (done.length + name.length) 0 = done ++ (name ++ 0 :: 32 :: (value ++ 0 :: lf :: rest)) := by
        rw [fieldLine, ← List.length_append]
        simp only [List.append_assoc, List.cons_append]
        rw [← List.append_assoc, set_length, List.append_assoc]
      have hinside : done.length + name.length <
          (done ++ (fieldLine (name, value) ++ 0 :: lf :: rest)).length := by
        simp only [fieldLine, List.length_append, List.length_cons]
        omega
      have hkey := stringAt_run done name (32 :: (value ++ 0 :: lf :: rest)) rfl rfl hplain.name.1
      have hskip : (skipWhitespace (done.length + name.length + 1)).run
          (done ++ (name ++ 0 :: 32 :: (value ++ 0 :: lf :: rest))) =
          .ok (done.length + name.length + 2) (done ++ (name ++ 0 :: 32 :: (value ++ 0 :: lf :: rest))) := by
        have hptr : done.length + name.length + 1 = (done ++ name ++ [0]).length := by
          simp only [List.length_append, List.length_cons, List.length_nil]
        cases hvalue : value with
        | nil =>
            exact scanTo_run _ (done ++ name ++ [0]) [32] 0 (lf :: rest) (by simp) hptr
              (by simp [isspace]) rfl
        | cons c value =>
            have hc := hplain.start c (by simp [hvalue])
            exact scanTo_run _ (done ++ name ++ [0]) [32] c (value ++ 0 :: lf :: rest) (by simp) hptr
              (by simp [isspace]) (by simp [hc])
      have htext : (stringAt (done.length + name.length + 2)).run
          (done ++ (name ++ 0 :: 32 :: (value ++ 0 :: lf :: rest))) =
          .ok value (done ++ (name ++ 0 :: 32 :: (value ++ 0 :: lf :: rest))) :=
        stringAt_run (done ++ name ++ [0, 32]) value (lf :: rest) (by simp)
          (by simp only [List.length_append, List.length_cons, List.length_nil]) hplain.value.1
      obtain ⟨memory', hmemory⟩ := ih hfields (by simpa using hfuel) (headers.emplace name value)
        (done ++ (name ++ 0 :: 32 :: (value ++ [0, lf])))
      refine ⟨memory', ?_⟩
      rw [headerLines, EStateM.run_bind, EStateM.run_get]
      dsimp only
      rw [if_pos hlong, EStateM.run_bind,
        extractLine_run done (fieldLine (name, value)) rest rfl rfl hplain.cr_not_mem]
      dsimp only
      rw [hcolon, Option.map_some]
      dsimp only
      rw [EStateM.run_bind, storeNul_run hinside]
      dsimp only
      rw [hset, EStateM.run_bind, hkey]
      dsimp only
      rw [EStateM.run_bind, hskip]
      dsimp only
      rw [EStateM.run_bind, htext]
      dsimp only
      have hnext : done.length + (fieldLine (name, value)).length + 2 =
          (done ++ (name ++ 0 :: 32 :: (value ++ [0, lf]))).length := by
        simp only [fieldLine, List.length_append, List.length_cons, List.length_nil]
        omega
      have hsame : done ++ (name ++ 0 :: 32 :: (value ++ 0 :: lf :: rest)) =
          done ++ (name ++ 0 :: 32 :: (value ++ [0, lf])) ++ rest := by simp
      rw [hnext, hsame, hmemory]
      rfl

/-- The verbs there are words. -/
theorem word_of_ofText {verbText : Bytes} (h : Verb.ofText verbText ≠ .invalid) : Word verbText := by
  rw [Verb.ofText] at h
  split_ifs at h with hget hput hpost hdelete hhead hoptions
  · exact hget ▸ word_get
  · subst hput
    constructor <;> decide +kernel
  · subst hpost
    constructor <;> decide +kernel
  · subst hdelete
    constructor <;> decide +kernel
  · subst hhead
    constructor <;> decide +kernel
  · subst hoptions
    constructor <;> decide +kernel
  · exact absurd rfl h

theorem requestLine_run {verbText requestUri : Bytes} (hverb : Verb.ofText verbText ≠ .invalid)
    (huri : Word requestUri) (rest : Bytes) :
    (requestLine 0).run (verbText ++ 32 :: (requestUri ++ (ascii " HTTP/1.1" ++ 0 :: rest))) =
      .ok (Verb.ofText verbText, requestUri)
        (verbText ++ 0 :: (requestUri ++ 0 :: (ascii "HTTP/1.1" ++ 0 :: rest))) := by
  have hword := word_of_ofText hverb
  have hhttp : Word (ascii "HTTP/1.1") := by constructor <;> decide +kernel
  have hstart : verbText.length + 1 = (verbText ++ [0]).length := by simp
  have hlength : verbText.length + 1 + requestUri.length + 1 =
      (verbText ++ [0] ++ (requestUri ++ [0])).length := by
    simp only [List.length_append, List.length_cons, List.length_nil]
    omega
  -- the memory behind each of the three words
  let behind₁ := requestUri ++ (ascii " HTTP/1.1" ++ 0 :: rest)
  let behind₂ := ascii "HTTP/1.1" ++ 0 :: rest
  let memory := verbText ++ 0 :: (requestUri ++ 0 :: behind₂)
  have hsplit : memory = verbText ++ [0] ++ (requestUri ++ [0]) ++ (ascii "HTTP/1.1" ++ 0 :: rest) := by
    simp [memory, behind₂]
  have hfirst : (shift 0).run (verbText ++ 32 :: behind₁) =
      .ok (some 0, verbText.length + 1) (verbText ++ 0 :: behind₁) := by
    have hrun := shift_run [] verbText 32 behind₁ rfl rfl hword rfl
    rw [if_neg (by decide), List.length_nil, Nat.zero_add] at hrun
    exact hrun
  have hverbText : (stringAt 0).run (verbText ++ 0 :: behind₁) =
      .ok verbText (verbText ++ 0 :: behind₁) :=
    stringAt_run [] verbText behind₁ rfl rfl hword.zero_not_mem
  have hsecond : (shift (verbText.length + 1)).run (verbText ++ 0 :: behind₁) =
      .ok (some (verbText.length + 1), verbText.length + 1 + requestUri.length + 1) memory := by
    have hrun : (shift (verbText.length + 1)).run (verbText ++ 0 :: (requestUri ++ 32 :: behind₂)) = _ :=
      shift_run (verbText ++ [0]) requestUri 32 behind₂ (by simp) hstart huri rfl
    rw [if_neg (by decide), List.append_assoc] at hrun
    exact hrun
  have hthird : (shift (verbText.length + 1 + requestUri.length + 1)).run memory =
      .ok (some (verbText.length + 1 + requestUri.length + 1),
        verbText.length + 1 + requestUri.length + 1 + 8) memory := by
    have hrun := shift_run _ _ 0 rest hsplit hlength hhttp rfl
    rw [← hsplit] at hrun
    exact hrun
  have hversion : (stringAt (verbText.length + 1 + requestUri.length + 1)).run memory =
      .ok (ascii "HTTP/1.1") memory :=
    stringAt_run _ _ rest hsplit hlength hhttp.zero_not_mem
  have hlast : (load (verbText.length + 1 + requestUri.length + 1 + 8)).run memory = .ok 0 memory := by
    refine load_run (verbText ++ [0] ++ (requestUri ++ [0]) ++ ascii "HTTP/1.1") 0 rest ?_ ?_
    · rw [hsplit, List.append_assoc _ (ascii "HTTP/1.1")]
    · rw [List.length_append, ← hlength]
      rfl
  have huriText : (stringAt (verbText.length + 1)).run memory = .ok requestUri memory :=
    stringAt_run (verbText ++ [0]) requestUri behind₂ (by simp [memory]) hstart huri.zero_not_mem
  rw [requestLine, EStateM.run_bind, hfirst]
  dsimp only
  rw [EStateM.run_bind, hverbText]
  dsimp only
  rw [if_neg hverb, EStateM.run_bind, hsecond]
  dsimp only
  rw [EStateM.run_bind, hthird]
  dsimp only
  rw [EStateM.run_bind, hversion]
  dsimp only
  rw [if_neg (by decide), EStateM.run_bind, hlast]
  dsimp only
  rw [if_neg (by decide), EStateM.run_bind, huriText]
  rfl

/-- A well-formed block is read as it was written. -/
theorem blockLines_run {verbText requestUri : Bytes} {fields : List (Bytes × Bytes)}
    (hverb : Verb.ofText verbText ≠ .invalid) (huri : Word requestUri)
    (hfields : ∀ field ∈ fields, PlainField field) :
    ∃ memory', block.run (renderLines (blockLines verbText requestUri fields)) =
      .ok (Verb.ofText verbText, requestUri, headersOf HeaderMap.empty fields) memory' := by
  let line := verbText ++ 32 :: (requestUri ++ ascii " HTTP/1.1")
  let rest := renderLines (fields.map fieldLine)
  have hline : cr ∉ line := (word_of_ofText hverb).cr_not_mem_line huri
  have hextract : (extractLine 0).run ([] ++ (line ++ cr :: lf :: rest)) = _ :=
    extractLine_run [] line rest rfl rfl hline
  have hrequest := requestLine_run hverb huri (lf :: rest)
  have hstart : [] ++ (line ++ 0 :: lf :: rest) =
      verbText ++ 32 :: (requestUri ++ (ascii " HTTP/1.1" ++ 0 :: lf :: rest)) := by
    simp only [line, List.nil_append, List.append_assoc, List.cons_append]
  let done := verbText ++ 0 :: (requestUri ++ 0 :: (ascii "HTTP/1.1" ++ [0, lf]))
  have hdone : verbText ++ 0 :: (requestUri ++ 0 :: (ascii "HTTP/1.1" ++ 0 :: lf :: rest)) =
      done ++ rest := by simp [done]
  have hnext : 0 + line.length + 2 = done.length := by
    simp only [line, done, List.length_append, List.length_cons, List.length_nil]
    have h₁ : (ascii " HTTP/1.1").length = 9 := rfl
    have h₂ : (ascii "HTTP/1.1").length = 8 := rfl
    omega
  have hmany : fields.length ≤ (done ++ rest).length := by
    have hlines : ∀ fields : List (Bytes × Bytes),
        fields.length ≤ (renderLines (fields.map fieldLine)).length := by
      intro fields
      induction fields with
      | nil => exact Nat.zero_le _
      | cons field fields ih =>
          rw [List.map_cons, renderLines_cons, List.length_append, List.length_cons, List.length_cons,
            List.length_cons]
          omega
    rw [List.length_append]
    exact (hlines fields).trans (Nat.le_add_left _ _)
  obtain ⟨memory', hheaders⟩ := headerLines_run hfields hmany HeaderMap.empty done
  refine ⟨memory', ?_⟩
  change block.run (line ++ crlf ++ rest) = _
  rw [show line ++ crlf ++ rest = [] ++ (line ++ cr :: lf :: rest) by simp [crlf], block,
    EStateM.run_bind, hextract]
  dsimp only
  rw [hstart, EStateM.run_bind, hrequest]
  dsimp only
  rw [hdone, EStateM.run_bind, EStateM.run_get]
  dsimp only
  rw [EStateM.run_bind, hnext, hheaders]
  rfl

theorem block_run {requestUri : Bytes} {fields : List (Bytes × Bytes)} (huri : Word requestUri)
    (hfields : ∀ field ∈ fields, PlainField field) :
    ∃ memory', block.run (renderLines (requestLines requestUri fields)) =
      .ok (.get, requestUri, headersOf HeaderMap.empty fields) memory' :=
  @blockLines_run (ascii "GET") _ _ (by decide) huri hfields

end RequestParser

end Seasocks
