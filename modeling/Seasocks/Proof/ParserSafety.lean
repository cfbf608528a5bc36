import Seasocks.Proof.HeaderBlocks

/-!
# Safety of the request parser

Neither assertion of the parser fails, no pointer leaves the header block, and a block that is accepted is
read to its end, whatever bytes there are in it.
-/

namespace Seasocks.RequestParser

open Program

variable {memory behind : Bytes} {nul ptr : Nat}

/-! ### The loop with its pointer -/

/-- `headerLines`, with where `first` is at the end. -/
def tracedHeaderLines : Nat → Nat → HeaderMap → ParserM (HeaderMap × Nat)
  | 0, first, headers => return (headers, first)
  | fuel + 1, first, headers => do
      let memory ← get
      if first < memory.length then
        match ← extractLine first with
        | none => throw (.fault .assertion)
        | some headerLine =>
            match headerLine.colon with
            | none => badRequest "Malformed header"
            | some colonPos =>
                storeNul colonPos
                let key ← stringAt headerLine.result
                let value ← stringAt (← skipWhitespace (colonPos + 1))
                tracedHeaderLines fuel headerLine.first (headers.emplace key value)
      else
        return (headers, first)

def tracedBlock : ParserM ((Verb × Bytes × HeaderMap) × Nat) := do
  match ← extractLine 0 with
  | none => throw (.fault .assertion)
  | some line =>
      let (verb, requestUri) ← requestLine line.result
      let memory ← get
      let (headers, first) ← tracedHeaderLines memory.length line.first HeaderMap.empty
      return ((verb, requestUri, headers), first)

theorem tracedHeaderLines_fst (fuel first : Nat) (headers : HeaderMap) :
    Prod.fst <$> tracedHeaderLines fuel first headers = headerLines fuel first headers := by
  induction fuel generalizing first headers with
  | zero => rfl
  | succ fuel ih =>
      rw [tracedHeaderLines, headerLines, map_bind]
      apply bind_congr
      intro memory
      split_ifs
      · rw [map_bind]
        apply bind_congr
        intro line
        cases line with
        | none => rfl
        | some headerLine =>
            cases hcolon : headerLine.colon with
            | none => simp only [hcolon]; rfl
            | some colonPos =>
                simp only [hcolon, map_bind, ih]
      · rw [map_pure]

theorem tracedBlock_fst : Prod.fst <$> tracedBlock = block := by
  rw [tracedBlock, block, map_bind]
  apply bind_congr
  intro line
  cases line with
  | none => rfl
  | some line =>
      simp only [map_bind, map_pure, ← tracedHeaderLines_fst, bind_map_left]

/-! ### Pointers in a line -/

/-- The only stops there are: error pages. -/
def Rejects (stop : Stop) (_ : Bytes) : Prop :=
  ∃ responseCode reason, stop = .reject responseCode reason

/-- A line whose end is overwritten with a NUL, with `behind` behind it. -/
def Fenced (nul : Nat) (behind memory : Bytes) : Prop :=
  ∃ line, memory = line ++ 0 :: behind ∧ line.length = nul

theorem Fenced.zero (h : Fenced nul behind memory) : memory[nul]? = some 0 := by
  obtain ⟨line, rfl, rfl⟩ := h
  rw [List.getElem?_append_right (Nat.le_refl _), Nat.sub_self]
  rfl

theorem Fenced.lt_length (h : Fenced nul behind memory) : nul < memory.length := by
  obtain ⟨line, rfl, rfl⟩ := h
  rw [List.length_append, List.length_cons]
  omega

theorem Fenced.length (h : Fenced nul behind memory) : memory.length = nul + 1 + behind.length := by
  obtain ⟨line, rfl, rfl⟩ := h
  rw [List.length_append, List.length_cons]
  omega

theorem Fenced.drop {c : UInt8} (h : Fenced nul (c :: behind) memory) :
    memory.drop (nul + 2) = behind := by
  obtain ⟨line, rfl, rfl⟩ := h
  rw [← List.drop_drop, List.drop_left]
  rfl

theorem Fenced.set (h : Fenced nul behind memory) (hptr : ptr < nul) :
    Fenced nul behind (memory.set ptr 0) := by
  obtain ⟨line, rfl, rfl⟩ := h
  exact ⟨line.set ptr 0, List.set_append_left _ _ hptr, List.length_set⟩

/-- A scan that stops at a NUL stops at the end of the line at the latest. -/
theorem scanTo_safe {stop : UInt8 → Bool} (hnul : stop 0 = true) (hmemory : Fenced nul behind memory)
    (hptr : ptr ≤ nul) :
    Ends (scanTo stop ptr) memory (fun found memory' => memory' = memory ∧ ptr ≤ found ∧ found ≤ nul)
      Rejects := by
  rw [scanTo, ends_bind, ends_get]
  have hzero : (memory.drop ptr)[nul - ptr]? = some 0 := by
    rw [List.getElem?_drop, Nat.add_sub_cancel' hptr, hmemory.zero]
  cases hfind : (memory.drop ptr).findIdx? stop with
  | none =>
      have hnever := List.findIdx?_eq_none_iff.mp hfind 0 (List.mem_of_getElem? hzero)
      rw [hnul] at hnever
      cases hnever
  | some offset =>
      refine ⟨rfl, Nat.le_add_right _ _, ?_⟩
      obtain ⟨hbound, -, hbefore⟩ := List.findIdx?_eq_some_iff_getElem.mp hfind
      by_contra hlate
      obtain ⟨hinside, hvalue⟩ := List.getElem?_eq_some_iff.mp hzero
      have := hbefore (nul - ptr) (by omega)
      rw [hvalue] at this
      exact this hnul

theorem load_safe (hmemory : Fenced nul behind memory) (hptr : ptr ≤ nul) :
    Ends (load ptr) memory (fun byte memory' => memory' = memory ∧ (byte ≠ 0 → ptr < nul)) Rejects := by
  have hinside : ptr < memory.length := hptr.trans_lt hmemory.lt_length
  rw [load, ends_bind, ends_get, List.getElem?_eq_getElem hinside]
  refine ⟨rfl, fun hbyte => lt_of_le_of_ne hptr ?_⟩
  rintro rfl
  have hzero := hmemory.zero
  rw [List.getElem?_eq_getElem hinside] at hzero
  injection hzero with hzero
  exact hbyte hzero

theorem storeNul_safe (hmemory : Fenced nul behind memory) (hptr : ptr < nul) :
    Ends (storeNul ptr) memory (fun _ memory' => Fenced nul behind memory') Rejects := by
  rw [Ends, storeNul_run (hptr.trans hmemory.lt_length)]
  exact hmemory.set hptr

theorem stringAt_safe (hmemory : Fenced nul behind memory) (hptr : ptr ≤ nul) :
    Ends (stringAt ptr) memory (fun _ memory' => memory' = memory) Rejects := by
  rw [stringAt, ends_bind]
  refine (scanTo_safe rfl hmemory hptr).mono ?_ fun _ _ => id
  rintro _ _ ⟨rfl, -, -⟩
  rw [ends_bind, ends_get]
  exact rfl

theorem shift_safe (hmemory : Fenced nul behind memory) (hptr : ptr ≤ nul) :
    Ends (shift ptr) memory (fun result memory' => Fenced nul behind memory' ∧ result.2 ≤ nul ∧
      ∀ word ∈ result.1, word ≤ nul) Rejects := by
  rw [shift, skipWhitespace, ends_bind]
  refine (scanTo_safe rfl hmemory hptr).mono ?_ fun _ _ => id
  rintro startOfWord _ ⟨rfl, -, hstart⟩
  rw [ends_bind]
  refine (load_safe hmemory hstart).mono ?_ fun _ _ => id
  rintro first _ ⟨rfl, -⟩
  rw [ends_ite]
  refine ⟨fun _ => ⟨hmemory, hstart, fun _ hword => by cases hword⟩, fun _ => ?_⟩
  rw [skipNonWhitespace, ends_bind]
  refine (scanTo_safe rfl hmemory hstart).mono ?_ fun _ _ => id
  rintro endOfWord _ ⟨rfl, -, hend⟩
  have hword : ∀ word ∈ some startOfWord, word ≤ nul := by
    rintro word hword
    injection hword with hword
    exact hword ▸ hstart
  rw [ends_bind]
  refine (load_safe hmemory hend).mono ?_ fun _ _ => id
  rintro last _ ⟨rfl, hlast⟩
  rw [ends_ite]
  refine ⟨fun _ => ⟨hmemory, hend, hword⟩, fun hblank => ?_⟩
  rw [ends_bind]
  refine (storeNul_safe hmemory (hlast hblank)).mono (fun _ _ hstored => ?_) fun _ _ => id
  exact ⟨hstored, hlast hblank, hword⟩

theorem badRequest_safe {α : Type} (reason : String) {post : α → Bytes → Prop} :
    Ends (badRequest reason) memory post Rejects := ⟨_, _, rfl⟩

theorem requestLine_safe (hmemory : Fenced nul behind memory) (hptr : ptr ≤ nul) :
    Ends (requestLine ptr) memory (fun _ memory' => Fenced nul behind memory') Rejects := by
  rw [requestLine, ends_bind]
  refine (shift_safe hmemory hptr).mono ?_ fun _ _ => id
  rintro ⟨verbText, next⟩ memory₁ ⟨h₁, hnext, hverb⟩
  cases verbText with
  | none => exact badRequest_safe _
  | some verbText =>
  dsimp only
  rw [ends_bind]
  refine (stringAt_safe h₁ (hverb _ rfl)).mono ?_ fun _ _ => id
  rintro text _ rfl
  rw [ends_ite]
  refine ⟨fun _ => badRequest_safe _, fun _ => ?_⟩
  rw [ends_bind]
  refine (shift_safe h₁ hnext).mono ?_ fun _ _ => id
  rintro ⟨requestUri, next'⟩ memory₂ ⟨h₂, hnext', huri⟩
  cases requestUri with
  | none => exact badRequest_safe _
  | some requestUri =>
  dsimp only
  rw [ends_bind]
  refine (shift_safe h₂ hnext').mono ?_ fun _ _ => id
  rintro ⟨httpVersion, next''⟩ memory₃ ⟨h₃, hnext'', hversion⟩
  cases httpVersion with
  | none => exact badRequest_safe _
  | some httpVersion =>
  dsimp only
  rw [ends_bind]
  refine (stringAt_safe h₃ (hversion _ rfl)).mono ?_ fun _ _ => id
  rintro version _ rfl
  rw [ends_ite]
  refine ⟨fun _ => ⟨_, _, rfl⟩, fun _ => ?_⟩
  rw [ends_bind]
  refine (load_safe h₃ hnext'').mono ?_ fun _ _ => id
  rintro last _ ⟨rfl, -⟩
  rw [ends_ite]
  refine ⟨fun _ => badRequest_safe _, fun _ => ?_⟩
  rw [ends_bind]
  refine (stringAt_safe h₃ (huri _ rfl)).mono ?_ fun _ _ => id
  rintro uri _ rfl
  exact h₃

/-! ### Lines in a block -/

/-- Whole lines, or nothing. -/
def EndsLine (rest : Bytes) : Prop := rest = [] ∨ ∃ lines, rest = lines ++ crlf

/-- Behind the first line there are whole lines again: the first line end does not overlap with the last
one. -/
theorem endsLine_drop {lines : Bytes} {offset : Nat} (h : find crlf (lines ++ crlf) = some offset) :
    EndsLine ((lines ++ crlf).drop (offset + 2)) := by
  have hlength : crlf.length = 2 := rfl
  have hle : offset ≤ lines.length := by
    apply find_le_of_isPrefix h _ (by simp)
    exact ⟨[], by rw [List.append_nil, List.drop_left]⟩
  rcases Nat.lt_trichotomy (offset + 1) lines.length with hlt | heq | hgt
  · refine Or.inr ⟨lines.drop (offset + 2), ?_⟩
    rw [List.drop_append_of_le_length (by omega)]
  · obtain ⟨lines, b, rfl⟩ : ∃ before b, lines = before ++ [b] :=
      ⟨_, _, (List.dropLast_concat_getLast (by rintro rfl; simp at heq)).symm⟩
    have hoffset : offset = lines.length := by simpa using heq
    have hbegins := isPrefixOf_of_find h
    rw [hoffset, List.append_assoc, List.drop_left] at hbegins
    simp [crlf, List.isPrefixOf, cr, lf] at hbegins
  · have hall : offset + 2 = (lines ++ crlf).length := by
      rw [List.length_append, hlength]
      omega
    rw [hall, List.drop_length]
    exact Or.inl rfl

theorem extractLine_safe {first : Nat} (hfirst : first < memory.length)
    (hends : EndsLine (memory.drop first)) :
    Ends (extractLine first) memory (fun result memory' => ∃ line nul behind, result = some line ∧
      Fenced nul (lf :: behind) memory' ∧ memory'.length = memory.length ∧ EndsLine behind ∧
      line.result = first ∧ first ≤ nul ∧ line.first = nul + 2 ∧ ∀ colonPos ∈ line.colon, first ≤ colonPos ∧ colonPos < nul) Rejects := by
  rcases hends with hnone | ⟨lines, hlines⟩
  · rw [List.drop_eq_nil_iff] at hnone
    omega
  have hat : crlf <+: (lines ++ crlf).drop lines.length :=
    ⟨[], by rw [List.append_nil, List.drop_left]⟩
  obtain ⟨offset, hfind⟩ := exists_find_of_isPrefix hat (by simp)
  have hbound := length_of_find hfind (List.cons_ne_nil _ _)
  rw [← hlines, List.length_drop, show crlf.length = 2 from rfl] at hbound
  have hinside : first + offset < memory.length := by omega
  have hbehind : memory.drop (first + offset + 1) = lf :: (lines ++ crlf).drop (offset + 2) := by
    obtain ⟨more, hmore⟩ := List.isPrefixOf_iff_prefix.mp (isPrefixOf_of_find hfind)
    rw [← List.drop_drop, ← List.drop_drop, hlines, ← List.drop_drop, ← hmore]
    rfl
  rw [extractLine, ends_bind, ends_get, hlines, hfind]
  dsimp only
  rw [ends_bind, Ends, storeNul_run hinside]
  refine ⟨_, first + offset, (lines ++ crlf).drop (offset + 2), rfl, ?_, List.length_set,
    endsLine_drop hfind, rfl, Nat.le_add_right _ _, rfl, fun colonPos hcolon => ?_⟩
  · refine ⟨memory.take (first + offset), ?_, ?_⟩
    · rw [List.set_eq_take_append_cons_drop, if_pos hinside, hbehind]
    · rw [List.length_take]
      omega
  · obtain ⟨k, hk, rfl⟩ := Option.map_eq_some_iff.mp hcolon
    obtain ⟨hk', -⟩ := List.findIdx?_eq_some_iff_getElem.mp hk
    rw [List.length_take] at hk'
    omega

/-- Behind the line that is read there are whole lines; writing into the line leaves them alone. -/
theorem tracedHeaderLines_safe {fuel first : Nat} {headers : HeaderMap}
    (hfirst : first ≤ memory.length) (hends : EndsLine (memory.drop first))
    (hfuel : memory.length ≤ first + fuel) :
    Ends (tracedHeaderLines fuel first headers) memory
      (fun result memory' => result.2 = memory'.length) Rejects := by
  induction fuel generalizing first headers memory with
  | zero => exact Nat.le_antisymm hfirst hfuel
  | succ fuel ih =>
      rw [tracedHeaderLines, ends_bind, ends_get, ends_ite]
      refine ⟨fun hmore => ?_, fun hdone => ?_⟩
      · rw [ends_bind]
        refine (extractLine_safe hmore hends).mono ?_ fun _ _ => id
        rintro _ memory₁ ⟨line, nul, behind, rfl, h₁, hlength, hbehind, hresult, hnul, hnext, hcolon⟩
        dsimp only
        cases hpos : line.colon with
        | none => exact badRequest_safe _
        | some colonPos =>
            obtain ⟨-, hbefore⟩ := hcolon colonPos hpos
            dsimp only
            rw [ends_bind]
            refine (storeNul_safe h₁ hbefore).mono (fun _ memory₂ h₂ => ?_) fun _ _ => id
            rw [ends_bind]
            refine (stringAt_safe h₂ (hresult ▸ hnul)).mono ?_ fun _ _ => id
            rintro key _ rfl
            rw [skipWhitespace, ends_bind]
            refine (scanTo_safe rfl h₂ hbefore).mono ?_ fun _ _ => id
            rintro value _ ⟨rfl, -, hvalue⟩
            rw [ends_bind]
            refine (stringAt_safe h₂ hvalue).mono ?_ fun _ _ => id
            rintro text _ rfl
            have hsize := h₁.length
            have hsize' := h₂.length
            rw [List.length_cons] at hsize hsize'
            refine ih (by omega) ?_ (by omega)
            rw [hnext, h₂.drop]
            exact hbehind
      · exact Nat.le_antisymm hfirst (Nat.le_of_not_lt hdone)

theorem tracedBlock_safe (lines : Bytes) :
    Ends tracedBlock (lines ++ crlf) (fun result memory' => result.2 = memory'.length) Rejects := by
  rw [tracedBlock, ends_bind]
  have hpos : 0 < (lines ++ crlf).length := by simp [crlf]
  refine (extractLine_safe hpos (Or.inr ⟨lines, rfl⟩)).mono ?_ fun _ _ => id
  rintro _ memory₁ ⟨line, nul, behind, rfl, h₁, -, hbehind, hresult, hnul, hnext, -⟩
  dsimp only
  rw [ends_bind, hresult]
  refine (requestLine_safe h₁ hnul).mono (fun result memory₂ h₂ => ?_) fun _ _ => id
  obtain ⟨verb, requestUri⟩ := result
  have hsize := h₂.length
  rw [List.length_cons] at hsize
  dsimp only
  rw [ends_bind, ends_get, ends_bind]
  refine (tracedHeaderLines_safe (by omega) ?_ (by omega)).mono (fun _ _ => id) fun _ _ => id
  rw [hnext, h₂.drop]
  exact hbehind

/-- **Safety of the parser.** On the bytes up to the first blank line no assertion fails and no pointer
leaves the block; if there is no error the header loop ends at the end of the block. -/
theorem block_safe {inBuf : Bytes} {i : Nat} (h : find (crlf ++ crlf) inBuf = some i) :
    Prod.fst <$> tracedBlock = block ∧
      (∀ fault memory, block.run (inBuf.take (i + 2)) ≠ .error (.fault fault) memory) ∧
      ∀ result first memory, tracedBlock.run (inBuf.take (i + 2)) = .ok (result, first) memory →
        first = memory.length := by
  have hblock : inBuf.take (i + 2) = inBuf.take i ++ crlf := by
    obtain ⟨more, hmore⟩ := List.isPrefixOf_iff_prefix.mp (isPrefixOf_of_find h)
    rw [List.take_add, ← hmore]
    rfl
  have hsafe := tracedBlock_safe (inBuf.take i)
  rw [← hblock] at hsafe
  refine ⟨tracedBlock_fst, fun fault memory hfault => ?_, fun result first memory hrun => ?_⟩
  · have hrejects : Ends block (inBuf.take (i + 2)) (fun _ _ => True) Rejects := by
      rw [← tracedBlock_fst, ends_map]
      exact hsafe.mono (fun _ _ _ => trivial) fun _ _ => id
    rw [Ends, hfault] at hrejects
    obtain ⟨_, _, hreject⟩ := hrejects
    cases hreject
  · rw [Ends, hrun] at hsafe
    exact hsafe

/-- A block with stray NULs, line feeds, carriage returns and colons. -/
theorem block_safe_stray :
    let inBuf := ascii "GET /" ++ [0, 13, 32, 58, 10] ++ ascii " HTTP/1.1\r\n:\r:\r\n\r\n"
    Prod.fst <$> tracedBlock = block ∧
      (∀ fault memory, block.run (inBuf.take 26) ≠ .error (.fault fault) memory) ∧
      ∀ result first memory, tracedBlock.run (inBuf.take 26) = .ok (result, first) memory →
        first = memory.length := by
  intro inBuf
  have hfind : find (crlf ++ crlf) inBuf = some 24 := by decide +kernel
  exact block_safe hfind

end Seasocks.RequestParser
