import Mathlib.Data.List.GetD
import Mathlib.Tactic.IntervalCases
import Seasocks.Library.Fips180
import Seasocks.Sha1

/-!
# The SHA-1 of the handshake

A `SHA1` object is the hash function of FIPS 180-1 behind an interface that takes a message in any
pieces: it keeps either the message so far, or the one it has computed the digest of, or the fact that
it was misused.
-/

namespace Seasocks

namespace Sha1

open BlockHash

/-! ### One block -/

def Words.registers (w : Words) : Fips180.Registers := ⟨w.a, w.b, w.c, w.d, w.e⟩

theorem and_mask (x : UInt32) : x &&& 0xFFFFFFFF = x := by
  have hmask : (0xFFFFFFFF : UInt32) = -1 := by decide
  rw [hmask, UInt32.and_neg_one]

theorem circularShift_eq (bits word : UInt32) :
    circularShift bits word = Fips180.rotateLeft bits word := by
  rw [circularShift, and_mask, and_mask]
  rfl

/-- Bytes that are shifted beside each other are the digits of a number. -/
theorem or_bytes {b0 b1 b2 b3 : ℕ} (h1 : b1 < 2 ^ 8) (h2 : b2 < 2 ^ 8) (h3 : b3 < 2 ^ 8) :
    b0 <<< 24 ||| b1 <<< 16 ||| b2 <<< 8 ||| b3
      = 2 ^ 24 * b0 + 2 ^ 16 * b1 + 2 ^ 8 * b2 + b3 := by
  have hlow : b2 <<< 8 + b3 < 2 ^ 16 := by
    rw [Nat.shiftLeft_eq]
    omega
  have hmiddle : b1 <<< 16 + (b2 <<< 8 + b3) < 2 ^ 24 := by
    rw [Nat.shiftLeft_eq]
    omega
  rw [Nat.or_assoc, Nat.or_assoc, ← Nat.shiftLeft_add_eq_or_of_lt h3, ← Nat.shiftLeft_add_eq_or_of_lt hlow,
    ← Nat.shiftLeft_add_eq_or_of_lt hmiddle, Nat.shiftLeft_eq, Nat.shiftLeft_eq, Nat.shiftLeft_eq]
  omega

theorem blockWords_eq (block : Bytes) :
    blockWords block = (List.range 16).map (Fips180.schedule block) := by
  have hbyte : ∀ b : UInt8, b.toNat < 2 ^ 8 := UInt8.toNat_lt
  apply List.map_congr_left
  intro t ht
  rw [Fips180.schedule, if_pos (List.mem_range.mp ht), Fips180.word, Nat.mul_comm 4 t]
  have h0 := hbyte (block.getD (t * 4) 0)
  have h1 := hbyte (block.getD (t * 4 + 1) 0)
  have h2 := hbyte (block.getD (t * 4 + 2) 0)
  have h3 := hbyte (block.getD (t * 4 + 3) 0)
  have hshift : ∀ (b : UInt8) (n : UInt32), n.toNat ≤ 24 →
      (b.toUInt32 <<< n).toNat = b.toNat <<< n.toNat := by
    intro b n hn
    have hlt : b.toNat * 2 ^ n.toNat < 2 ^ 32 := by
      calc b.toNat * 2 ^ n.toNat ≤ b.toNat * 2 ^ 24 :=
            Nat.mul_le_mul_left _ (Nat.pow_le_pow_right (by decide) hn)
        _ < 2 ^ 32 := by
            have hb := hbyte b
            omega
    have hmod : n.toNat % 32 = n.toNat := Nat.mod_eq_of_lt (by omega)
    rw [UInt32.toNat_shiftLeft, hmod, UInt8.toNat_toUInt32, Nat.shiftLeft_eq, Nat.mod_eq_of_lt hlt]
  apply UInt32.toNat_inj.mp
  rw [UInt32.toNat_or, UInt32.toNat_or, UInt32.toNat_or, hshift _ _ (by decide), hshift _ _ (by decide),
    hshift _ _ (by decide), UInt8.toNat_toUInt32, UInt32.toNat_ofNat', Nat.mod_eq_of_lt (by omega)]
  exact or_bytes h1 h2 h3

/-- The loop that extends `W` follows the schedule. -/
theorem foldl_extend (block : Bytes) (n : ℕ) :
    (List.range' 16 n).foldl extend (blockWords block)
      = (List.range (16 + n)).map (Fips180.schedule block) := by
  induction n with
  | zero => exact blockWords_eq block
  | succ n ih =>
      have hword : ∀ i, i < 16 + n →
          ((List.range (16 + n)).map (Fips180.schedule block)).getD i 0 = Fips180.schedule block i := by
        intro i hi
        rw [List.getD_eq_getElem _ _ (by rwa [List.length_map, List.length_range]), List.getElem_map,
          List.getElem_range]
      have hnext : Fips180.schedule block (16 + n)
          = Fips180.rotateLeft 1 (Fips180.schedule block (16 + n - 3) ^^^ Fips180.schedule block (16 + n - 8)
              ^^^ Fips180.schedule block (16 + n - 14) ^^^ Fips180.schedule block (16 + n - 16)) := by
        rw [Fips180.schedule, if_neg (by omega)]
      rw [List.range'_concat, List.foldl_append, ih, List.foldl_cons, List.foldl_nil, Nat.one_mul, extend,
        hword _ (by omega), hword _ (by omega), hword _ (by omega), hword _ (by omega), circularShift_eq,
        ← hnext, ← Nat.add_assoc, List.range_succ, List.map_append, List.map_singleton]

theorem wordSequence_eq (block : Bytes) :
    wordSequence block = (List.range 80).map (Fips180.schedule block) :=
  foldl_extend block 64

theorem turn_eq {f : UInt32 → UInt32 → UInt32 → UInt32} {K : UInt32} {t : ℕ} (ht : t < 80)
    (hf : Fips180.logical t = f) (hK : Fips180.constant t = K) (block : Bytes) (w : Words) :
    (turn f K (wordSequence block) w t).registers = Fips180.step block w.registers t := by
  have hword : (wordSequence block).getD t 0 = Fips180.schedule block t := by
    rw [wordSequence_eq, List.getD_eq_getElem _ _ (by rwa [List.length_map, List.length_range]),
      List.getElem_map, List.getElem_range]
  subst hf hK
  simp only [turn, Fips180.step, hword, and_mask, circularShift_eq, Words.registers]

/-- A loop whose turns are steps of the standard. -/
theorem foldl_turn {f : UInt32 → UInt32 → UInt32 → UInt32} {K : UInt32} {ts : List ℕ}
    (hts : ∀ t ∈ ts, t < 80 ∧ Fips180.logical t = f ∧ Fips180.constant t = K) (block : Bytes)
    (w : Words) :
    (ts.foldl (turn f K (wordSequence block)) w).registers
      = ts.foldl (Fips180.step block) w.registers := by
  induction ts generalizing w with
  | nil => rfl
  | cons t ts ih =>
      obtain ⟨ht, hf, hK⟩ := hts t List.mem_cons_self
      rw [List.foldl_cons, List.foldl_cons, ← turn_eq ht hf hK block w]
      exact ih (fun t ht => hts t (List.mem_cons_of_mem _ ht)) _

/-- The turns of one loop have the same function and constant. -/
theorem stage_eq {t stage : ℕ} (ht : t ∈ List.range' (20 * stage) 20) :
    Fips180.logical t = Fips180.logical (20 * stage) ∧ Fips180.constant t = Fips180.constant (20 * stage) := by
  have hbounds := List.mem_range'_1.mp ht
  have hdiv : t / 20 = 20 * stage / 20 := by omega
  constructor
  · funext b c d
    rw [Fips180.logical, Fips180.logical, hdiv]
  · rw [Fips180.constant, Fips180.constant, hdiv]

theorem loop_eq {stage : ℕ} (hstage : stage < 4) {f : UInt32 → UInt32 → UInt32 → UInt32} {K : UInt32}
    (hf : Fips180.logical (20 * stage) = f) (hK : Fips180.constant (20 * stage) = K) (block : Bytes)
    (w : Words) :
    ((List.range' (20 * stage) 20).foldl (turn f K (wordSequence block)) w).registers
      = (List.range' (20 * stage) 20).foldl (Fips180.step block) w.registers := by
  apply foldl_turn
  intro t ht
  obtain ⟨hlogical, hconstant⟩ := stage_eq ht
  have hbounds := List.mem_range'_1.mp ht
  exact ⟨by omega, hlogical.trans hf, hconstant.trans hK⟩

theorem processMessageBlock_h (s : Sha1) :
    (processMessageBlock s).h.registers = Fips180.compress s.h.registers s.messageBlock := by
  have hrange : List.range 80
      = List.range' 0 20 ++ List.range' 20 20 ++ List.range' 40 20 ++ List.range' 60 20 := by decide
  set W := wordSequence s.messageBlock with hW
  have h1 : (loop1 W s.h).registers
      = (List.range' 0 20).foldl (Fips180.step s.messageBlock) s.h.registers :=
    loop_eq (by decide : 0 < 4) rfl rfl s.messageBlock s.h
  have h2 : (loop2 W (loop1 W s.h)).registers
      = (List.range' 20 20).foldl (Fips180.step s.messageBlock) (loop1 W s.h).registers :=
    loop_eq (by decide : 1 < 4) rfl rfl s.messageBlock _
  have h3 : (loop3 W (loop2 W (loop1 W s.h))).registers
      = (List.range' 40 20).foldl (Fips180.step s.messageBlock) (loop2 W (loop1 W s.h)).registers :=
    loop_eq (by decide : 2 < 4) rfl rfl s.messageBlock _
  have h4 : (loop4 W (loop3 W (loop2 W (loop1 W s.h)))).registers
      = (List.range' 60 20).foldl (Fips180.step s.messageBlock)
          (loop3 W (loop2 W (loop1 W s.h))).registers :=
    loop_eq (by decide : 3 < 4) rfl rfl s.messageBlock _
  have hloops : (List.range 80).foldl (Fips180.step s.messageBlock) s.h.registers
      = (loop4 W (loop3 W (loop2 W (loop1 W s.h)))).registers := by
    rw [hrange, List.foldl_append, List.foldl_append, List.foldl_append, ← h1, ← h2, ← h3, ← h4]
  rw [Fips180.compress, hloops]
  simp only [processMessageBlock, and_mask, ← hW]
  rfl

theorem sha1_compress : Fips180.sha1.compress = Fips180.compress := rfl

/-! ### Counting and writing bytes -/

/-- The number of bits counted. -/
def bits (s : Sha1) : ℕ := s.lengthLow.toNat + 2 ^ 32 * s.lengthHigh.toNat

theorem bits_processMessageBlock (s : Sha1) : (processMessageBlock s).bits = s.bits := by
  simp only [bits, processMessageBlock]

theorem processMessageBlock_frame (s : Sha1) :
    (processMessageBlock s).messageBlock = s.messageBlock
      ∧ (processMessageBlock s).messageBlockIndex = 0
      ∧ (processMessageBlock s).computed = s.computed
      ∧ (processMessageBlock s).corrupted = s.corrupted := by
  simp only [processMessageBlock, and_self]

theorem bits_count {s : Sha1} (hbits : 8 ∣ s.bits) (hshort : s.bits + 8 < 2 ^ 64) :
    (count s).bits = s.bits + 8 ∧ (count s).corrupted = s.corrupted := by
  have hlow := s.lengthLow.toNat_lt
  have hhigh := s.lengthHigh.toNat_lt
  have hzero : ∀ x : UInt32, x = 0 ↔ x.toNat = 0 := fun x => UInt32.toNat_inj.symm
  simp only [bits] at hbits hshort ⊢
  simp only [count, and_mask, hzero, UInt32.toNat_add, UInt32.reduceToNat]
  split
  · split
    · omega
    · simp only [UInt32.toNat_add, UInt32.reduceToNat, and_true]
      omega
  · simp only [UInt32.toNat_add, UInt32.reduceToNat, and_true]
    omega

/-- The message is as long as it may not be. -/
theorem corrupted_count {s : Sha1} (hbits : 8 ∣ s.bits) (hlong : 2 ^ 64 ≤ s.bits + 8) :
    (count s).corrupted = true := by
  have hlow := s.lengthLow.toNat_lt
  have hhigh := s.lengthHigh.toNat_lt
  have hzero : ∀ x : UInt32, x = 0 ↔ x.toNat = 0 := fun x => UInt32.toNat_inj.symm
  simp only [bits] at hbits hlong
  simp only [count, and_mask, hzero, UInt32.toNat_add, UInt32.reduceToNat]
  rw [if_pos (by omega), if_pos (by omega)]

theorem count_frame (s : Sha1) :
    (count s).h = s.h ∧ (count s).messageBlock = s.messageBlock
      ∧ (count s).messageBlockIndex = s.messageBlockIndex ∧ (count s).computed = s.computed := by
  simp only [count]
  split
  · split <;> exact ⟨rfl, rfl, rfl, rfl⟩
  · exact ⟨rfl, rfl, rfl, rfl⟩

theorem bits_push (byte : UInt8) (s : Sha1) : (push byte s).bits = s.bits := by
  rw [bits, bits]
  rfl

theorem length_push (byte : UInt8) (s : Sha1) :
    (push byte s).messageBlock.length = s.messageBlock.length := List.length_set ..

theorem take_push {s : Sha1} (h : s.messageBlockIndex < s.messageBlock.length) (byte : UInt8) :
    (push byte s).messageBlock.take (s.messageBlockIndex + 1)
      = s.messageBlock.take s.messageBlockIndex ++ [byte] := by
  rw [push, List.take_add_one, List.take_set_of_le (Nat.le_refl _), List.getElem?_set_self h]
  rfl

/-- What `zeroUntil` writes. -/
theorem zeroUntil_spec {last : ℕ} (s : Sha1) (hlast : last ≤ s.messageBlock.length)
    (hindex : s.messageBlockIndex ≤ last) :
    (zeroUntil last s).messageBlock.take last
        = s.messageBlock.take s.messageBlockIndex ++ List.replicate (last - s.messageBlockIndex) 0
      ∧ (zeroUntil last s).messageBlock.length = s.messageBlock.length
      ∧ (zeroUntil last s).h = s.h ∧ (zeroUntil last s).bits = s.bits := by
  fun_induction zeroUntil last s with
  | case1 s hlt ih =>
      obtain ⟨htake, hlength, hh, hbits⟩ := ih ((length_push 0 s).symm ▸ hlast) hlt
      have hnext : last - s.messageBlockIndex = last - (s.messageBlockIndex + 1) + 1 := by omega
      refine ⟨?_, hlength.trans (length_push 0 s), hh, hbits⟩
      calc (zeroUntil last (push 0 s)).messageBlock.take last
          = (push 0 s).messageBlock.take (s.messageBlockIndex + 1)
              ++ List.replicate (last - (s.messageBlockIndex + 1)) 0 := htake
        _ = s.messageBlock.take s.messageBlockIndex
              ++ ([0] ++ List.replicate (last - (s.messageBlockIndex + 1)) 0) := by
            rw [take_push (hlt.trans_le hlast), List.append_assoc]
        _ = s.messageBlock.take s.messageBlockIndex ++ List.replicate (last - s.messageBlockIndex) 0 := by
            rw [hnext, List.replicate_succ]
            rfl
  | case2 s hge =>
      have heq : s.messageBlockIndex = last := by omega
      rw [heq, Nat.sub_self, List.replicate_zero, List.append_nil]
      exact ⟨rfl, rfl, rfl, rfl⟩

theorem corrupted_zeroUntil (last : ℕ) (s : Sha1) : (zeroUntil last s).corrupted = s.corrupted := by
  fun_induction zeroUntil last s with
  | case1 s hlt ih => exact ih
  | case2 s hge => rfl

theorem corrupted_padMessage (s : Sha1) : (padMessage s).corrupted = s.corrupted := by
  have hstore : ∀ s : Sha1, (processMessageBlock (storeLength s)).corrupted = s.corrupted :=
    fun s => (processMessageBlock_frame _).2.2.2
  rw [padMessage]
  split
  · rw [hstore, corrupted_zeroUntil, (processMessageBlock_frame _).2.2.2, corrupted_zeroUntil]
    rfl
  · rw [hstore, corrupted_zeroUntil]
    rfl

/-! ### Reading -/

/-- What an object is while it reads a message. -/
structure Reads (s : Sha1) (message : Bytes) : Prop where
  bits : s.bits = 8 * message.length
  short : 8 * message.length < 2 ^ 64
  length_messageBlock : s.messageBlock.length = 64
  index : s.messageBlockIndex = message.length % 64
  progress : (s.h.registers, s.messageBlock.take s.messageBlockIndex) = Fips180.sha1.after message
  computed : s.computed = false
  corrupted : s.corrupted = false

theorem reads_reset {s : Sha1} (h : s.messageBlock.length = 64) : (reset s).Reads [] :=
  ⟨rfl, by decide, h, rfl, rfl, rfl, rfl⟩

variable {s : Sha1} {message : Bytes}

/-- The next byte of a message that stays short enough. -/
theorem Reads.inputByte (h : s.Reads message) (byte : UInt8)
    (hshort : 8 * (message.length + 1) < 2 ^ 64) : (inputByte byte s).Reads (message ++ [byte]) := by
  have hmod : message.length % 64 < 64 := Nat.mod_lt _ (by decide)
  have hbits : (push byte s).bits = 8 * message.length := (bits_push byte s).trans h.bits
  have hdvd : 8 ∣ (push byte s).bits := by
    rw [hbits]
    exact Nat.dvd_mul_right 8 _
  have hroom : (push byte s).bits + 8 < 2 ^ 64 := by
    rw [hbits, ← Nat.mul_add_one]
    exact hshort
  have hin : s.messageBlockIndex < s.messageBlock.length := by
    rw [h.index, h.length_messageBlock]
    exact hmod
  obtain ⟨hcounted, hcorrupted⟩ := bits_count hdvd hroom
  obtain ⟨hh, hblock, hindex, hcomputed⟩ := count_frame (push byte s)
  have hh' : (count (push byte s)).h = s.h := hh
  have hpushed : (push byte s).messageBlockIndex = message.length % 64 + 1 := by
    rw [← h.index]
    rfl
  have htake := take_push hin byte
  have hlength : (count (push byte s)).messageBlock.length = 64 := by
    rw [hblock, length_push, h.length_messageBlock]
  have hnext : (message ++ [byte]).length = message.length + 1 := by
    rw [List.length_append, List.length_singleton]
  have hkept : (s.messageBlock.take s.messageBlockIndex).length = message.length % 64 := by
    rw [List.length_take, h.length_messageBlock, h.index]
    omega
  have hafter : Fips180.sha1.after (message ++ [byte])
      = Fips180.sha1.absorbSymbol (s.h.registers, s.messageBlock.take s.messageBlockIndex) byte := by
    rw [after_append, ← h.progress]
    rfl
  rw [Sha1.inputByte]
  by_cases hfull : message.length % 64 + 1 = 64
  · obtain ⟨hblock', hindex', hcomputed', hcorrupted'⟩ := processMessageBlock_frame (count (push byte s))
    rw [if_pos (by rw [hindex, hpushed, hfull])]
    constructor
    · rw [bits_processMessageBlock, hcounted, hbits, hnext, Nat.mul_add_one]
    · exact hnext ▸ hshort
    · rw [hblock', hlength]
    · rw [hindex', hnext]
      omega
    · have hwhole : (count (push byte s)).messageBlock
          = s.messageBlock.take s.messageBlockIndex ++ [byte] := by
        rw [← htake, h.index, hfull, ← hblock, List.take_of_length_le hlength.le]
      rw [hafter, absorbSymbol, if_pos (by rw [hkept]; exact hfull), processMessageBlock_h, hh', hwhole,
        hindex', List.take_zero, sha1_compress]
    · rw [hcomputed', hcomputed, ← h.computed]
      rfl
    · rw [hcorrupted', hcorrupted, ← h.corrupted]
      rfl
  · rw [if_neg (by rw [hindex, hpushed]; exact hfull)]
    constructor
    · rw [hcounted, hbits, hnext, Nat.mul_add_one]
    · exact hnext ▸ hshort
    · exact hlength
    · rw [hindex, hpushed, hnext]
      omega
    · rw [hafter, absorbSymbol, if_neg (by rw [hkept]; exact hfull), hh', hblock, hindex, ← htake]
      rfl
    · rw [hcomputed, ← h.computed]
      rfl
    · rw [hcorrupted, ← h.corrupted]
      rfl

/-- The byte that makes the message too long. -/
theorem Reads.corrupted_inputByte (h : s.Reads message) (byte : UInt8)
    (hlong : 2 ^ 64 ≤ 8 * (message.length + 1)) : (Sha1.inputByte byte s).corrupted = true := by
  have hbits : (push byte s).bits = 8 * message.length := (bits_push byte s).trans h.bits
  have hdvd : 8 ∣ (push byte s).bits := by
    rw [hbits]
    exact Nat.dvd_mul_right 8 _
  have hcorrupted := corrupted_count hdvd (by rwa [hbits, ← Nat.mul_add_one])
  rw [Sha1.inputByte]
  split
  · rw [(processMessageBlock_frame _).2.2.2]
    exact hcorrupted
  · exact hcorrupted

theorem length_inputByte (byte : UInt8) (s : Sha1) :
    (Sha1.inputByte byte s).messageBlock.length = s.messageBlock.length := by
  have hcount : (count (push byte s)).messageBlock.length = s.messageBlock.length := by
    rw [(count_frame _).2.1, length_push]
  rw [Sha1.inputByte]
  split
  · rw [(processMessageBlock_frame _).1]
    exact hcount
  · exact hcount

theorem length_inputLoop (bytes : Bytes) (s : Sha1) :
    (inputLoop bytes s).messageBlock.length = s.messageBlock.length := by
  induction bytes generalizing s with
  | nil => rfl
  | cons byte bytes ih =>
      rw [inputLoop]
      split
      · rfl
      · rw [ih, length_inputByte]

theorem inputLoop_of_corrupted (bytes : Bytes) (h : s.corrupted = true) : inputLoop bytes s = s := by
  cases bytes with
  | nil => rfl
  | cons byte bytes => rw [inputLoop, if_pos h]

/-- A message is read to its end, or it becomes too long on the way. -/
theorem Reads.inputLoop (h : s.Reads message) (bytes : Bytes) :
    if 8 * (message ++ bytes).length < 2 ^ 64 then (inputLoop bytes s).Reads (message ++ bytes)
      else (inputLoop bytes s).corrupted = true := by
  induction bytes generalizing s message with
  | nil =>
      rw [List.append_nil, if_pos h.short]
      exact h
  | cons byte bytes ih =>
      have hassoc : message ++ byte :: bytes = message ++ [byte] ++ bytes := List.append_cons ..
      have hopen : ¬s.corrupted = true := by
        rw [h.corrupted]
        decide
      rw [Sha1.inputLoop, if_neg hopen]
      by_cases hshort : 8 * (message.length + 1) < 2 ^ 64
      · rw [hassoc]
        exact ih (h.inputByte byte hshort)
      · have hcorrupted := h.corrupted_inputByte byte (Nat.le_of_not_lt hshort)
        have hlength : message.length + 1 ≤ (message ++ byte :: bytes).length := by
          rw [List.length_append, List.length_cons]
          omega
        have hlong : ¬8 * (message ++ byte :: bytes).length < 2 ^ 64 := by omega
        rw [if_neg hlong, inputLoop_of_corrupted bytes hcorrupted]
        exact hcorrupted

/-! ### The padding -/

theorem toUInt8_shiftRight (x : UInt32) {n : UInt32} {i : ℕ} (hn : n.toNat = 8 * i) (hi : i < 4) :
    ((x >>> n) &&& 0xFF).toUInt8 = UInt8.ofNat (x.toNat / 256 ^ i) := by
  have hand := Nat.and_two_pow_sub_one_eq_mod (x.toNat / 256 ^ i) 8
  have hmod : n.toNat % 32 = 8 * i := by omega
  apply UInt8.toNat_inj.mp
  rw [UInt32.toNat_toUInt8, UInt32.toNat_and, UInt32.toNat_shiftRight, hmod, Nat.shiftRight_eq_div_pow,
    pow_mul, UInt8.toNat_ofNat']
  simp only [UInt32.reduceToNat, Nat.reducePow, Nat.reduceSub] at hand ⊢
  rw [hand, Nat.mod_mod]

/-- The bytes of a word as they are shifted out of it. -/
theorem shifted_eq (x : UInt32) :
    [((x >>> 24) &&& 0xFF).toUInt8, ((x >>> 16) &&& 0xFF).toUInt8, ((x >>> 8) &&& 0xFF).toUInt8,
      (x &&& 0xFF).toUInt8] = Fips180.wordBytes x := by
  have h0 := toUInt8_shiftRight x (n := 0) (i := 0) rfl (by decide)
  rw [UInt32.shiftRight_zero] at h0
  rw [toUInt8_shiftRight x (i := 3) rfl (by decide), toUInt8_shiftRight x (i := 2) rfl (by decide),
    toUInt8_shiftRight x (i := 1) rfl (by decide), h0]
  rfl

/-- The length goes into the last two words of the block. -/
theorem storeLength_messageBlock {s : Sha1} {length : ℕ} (hbits : s.bits = 8 * length) :
    (storeLength s).messageBlock = s.messageBlock.take 56 ++ Fips180.lengthBytes length := by
  have hlow := s.lengthLow.toNat_lt
  have hbytes : Fips180.wordBytes s.lengthHigh ++ Fips180.wordBytes s.lengthLow
      = Fips180.lengthBytes length := by
    rw [Fips180.lengthBytes, ← hbits, show 8 = 4 + 4 from rfl, List.range_add, List.map_append,
      List.map_map, Fips180.wordBytes, Fips180.wordBytes]
    congr 1
    · apply List.map_congr_left
      intro i hi
      have hi := List.mem_range.mp hi
      have hhigh : s.bits / 2 ^ 32 = s.lengthHigh.toNat := by
        rw [bits]
        omega
      rw [show 4 + 4 - 1 - i = 4 + (3 - i) by omega, pow_add, ← Nat.div_div_eq_div_mul,
        show 256 ^ 4 = 2 ^ 32 from rfl, hhigh]
    · apply List.map_congr_left
      intro i hi
      have hi := List.mem_range.mp hi
      apply UInt8.toNat_inj.mp
      rw [Function.comp_apply, UInt8.toNat_ofNat', UInt8.toNat_ofNat', bits]
      interval_cases i <;> simp only [Nat.reduceAdd, Nat.reduceSub, Nat.reducePow] <;> omega
  rw [← hbytes, ← shifted_eq, ← shifted_eq]
  rfl

theorem storeLength_h (s : Sha1) : (storeLength s).h = s.h := rfl

/-- The mark and the zeros behind it. -/
theorem Reads.zeroUntil_push (h : s.Reads message) {last : ℕ} (hindex : s.messageBlockIndex < last)
    (hlast : last ≤ 64) :
    (zeroUntil last (push 0x80 s)).messageBlock.take last
        = s.messageBlock.take s.messageBlockIndex
          ++ 0x80 :: List.replicate (last - (s.messageBlockIndex + 1)) 0
      ∧ (zeroUntil last (push 0x80 s)).messageBlock.length = 64
      ∧ (zeroUntil last (push 0x80 s)).h = s.h
      ∧ (zeroUntil last (push 0x80 s)).bits = 8 * message.length := by
  have hlength : (push 0x80 s).messageBlock.length = 64 := by
    rw [length_push, h.length_messageBlock]
  have hin : s.messageBlockIndex < s.messageBlock.length := by
    rw [h.length_messageBlock]
    exact hindex.trans_le hlast
  obtain ⟨htake, hsame, hh, hbits⟩ := zeroUntil_spec (push 0x80 s)
    (show last ≤ (push 0x80 s).messageBlock.length from hlength ▸ hlast) hindex
  refine ⟨?_, hsame.trans hlength, hh, ?_⟩
  · have hpushed := take_push hin 0x80
    rw [htake]
    change (push 0x80 s).messageBlock.take (s.messageBlockIndex + 1) ++ _ = _
    rw [hpushed, List.append_assoc]
    rfl
  · rw [hbits, bits_push, h.bits]

theorem Reads.length_kept (h : s.Reads message) :
    (s.messageBlock.take s.messageBlockIndex).length = message.length % 64 := by
  rw [List.length_take, h.length_messageBlock, h.index]
  omega

theorem Reads.padMessage (h : s.Reads message) :
    (padMessage s).h.registers = Fips180.sha1.hash message
      ∧ (padMessage s).messageBlock.length = 64 := by
  have hindex : s.messageBlockIndex < 64 := by
    rw [h.index]
    exact Nat.mod_lt _ (by decide)
  have hkept := h.length_kept
  rw [← h.index] at hkept
  have hzeros : Fips180.padding.zeros message.length = (64 - (message.length + 1 + 8) % 64) % 64 := rfl
  have hmod := h.index
  have habsorb : Fips180.sha1.absorb (s.h.registers, s.messageBlock.take s.messageBlockIndex)
      (Fips180.padding.padding message.length) = (Fips180.sha1.hash message, []) := by
    rw [h.progress]
    exact absorb_padding message
  have hencode : (Fips180.lengthBytes message.length).length = 8 :=
    Fips180.padding.length_encode message.length
  rw [Sha1.padMessage]
  by_cases hlate : s.messageBlockIndex > 55
  · -- The mark and the length do not fit into one block.
    obtain ⟨htake, hlength, hh, hbits⟩ := h.zeroUntil_push hindex (Nat.le_refl 64)
    rw [if_pos hlate]
    set z := zeroUntil 64 (push 0x80 s)
    obtain ⟨hblock, hrestart, -, -⟩ := processMessageBlock_frame z
    have hroom : 56 ≤ (processMessageBlock z).messageBlock.length := by
      rw [hblock, hlength]
      decide
    obtain ⟨htake', hlength', hh', hbits'⟩ := zeroUntil_spec (processMessageBlock z) hroom
      (by rw [hrestart]; decide)
    set y := zeroUntil 56 (processMessageBlock z)
    have hstored := storeLength_messageBlock (hbits'.trans ((bits_processMessageBlock z).trans hbits))
    rw [htake', hrestart, List.take_zero, List.nil_append] at hstored
    rw [List.take_of_length_le hlength.le] at htake
    have hcount : Fips180.padding.zeros message.length = 64 - (s.messageBlockIndex + 1) + 56 := by
      rw [hzeros]
      omega
    have hfirst : (s.messageBlock.take s.messageBlockIndex).length
        + (0x80 :: List.replicate (64 - (s.messageBlockIndex + 1)) (0 : UInt8)).length
          = Fips180.sha1.size := by
      rw [hkept, List.length_cons, List.length_replicate]
      change _ = 64
      omega
    have hsecond : (List.replicate 56 0 ++ Fips180.lengthBytes message.length).length
        = Fips180.sha1.size := by
      rw [List.length_append, List.length_replicate, hencode]
      rfl
    have hpadding : Fips180.padding.padding message.length
        = (0x80 :: List.replicate (64 - (s.messageBlockIndex + 1)) 0)
          ++ (List.replicate 56 0 ++ Fips180.lengthBytes message.length) := by
      rw [LengthPadding.padding, hcount, List.replicate_add, List.cons_append, List.cons_append,
        List.append_assoc]
      rfl
    rw [hpadding, absorb_append, absorb_of_eq (List.cons_ne_nil _ _) hfirst, absorb_block hsecond,
      sha1_compress] at habsorb
    constructor
    · rw [processMessageBlock_h, hstored, storeLength_h, hh', processMessageBlock_h, hh, htake]
      exact (Prod.mk.inj habsorb).1
    · rw [(processMessageBlock_frame _).1, hstored]
      exact hsecond
  · obtain ⟨htake, hlength, hh, hbits⟩ := h.zeroUntil_push (Nat.lt_of_not_le hlate) (by decide)
    rw [if_neg hlate]
    set z := zeroUntil 56 (push 0x80 s)
    have hstored := storeLength_messageBlock hbits
    have hcount : Fips180.padding.zeros message.length = 56 - (s.messageBlockIndex + 1) := by
      rw [hzeros]
      omega
    have hpadding : Fips180.padding.padding message.length
        = 0x80 :: List.replicate (56 - (s.messageBlockIndex + 1)) 0
          ++ Fips180.lengthBytes message.length := by
      rw [LengthPadding.padding, hcount]
      rfl
    have hwhole : (s.messageBlock.take s.messageBlockIndex).length
        + (Fips180.padding.padding message.length).length = Fips180.sha1.size := by
      rw [hkept, hpadding, List.length_append, List.length_cons, List.length_replicate, hencode]
      change _ = 64
      omega
    have hne : Fips180.padding.padding message.length ≠ [] := by
      rw [hpadding]
      exact List.cons_ne_nil _ _
    rw [htake, List.append_assoc, ← hpadding] at hstored
    rw [absorb_of_eq hne hwhole, sha1_compress] at habsorb
    constructor
    · rw [processMessageBlock_h, hstored, storeLength_h, hh]
      exact (Prod.mk.inj habsorb).1
    · rw [(processMessageBlock_frame _).1, hstored, List.length_append]
      exact hwhole

/-! ### The interface -/

/-- What an object stands for: a message it is reading, a message whose digest it has computed, or
nothing, when it has been given too much or been given more after that. -/
inductive Meaning where
  | reading (message : Bytes)
  | computed (message : Bytes)
  | corrupted
deriving DecidableEq, Repr

namespace Meaning

def input (bytes : Bytes) : Meaning → Meaning
  | .reading message =>
      if 8 * (message ++ bytes).length < 2 ^ 64 then .reading (message ++ bytes) else .corrupted
  | .computed message => if bytes = [] then .computed message else .corrupted
  | .corrupted => .corrupted

/-- What a call returns and means. -/
def perform : Op → Meaning → List (Option Fips180.Registers) × Meaning
  | .reset, _ => ([], .reading [])
  | .input messageArray, meaning => ([], meaning.input messageArray)
  | .shiftLeft messageArray, meaning => ([], meaning.input (cString messageArray))
  | .result, .reading message | .result, .computed message =>
      ([some (Fips180.sha1.hash message)], .computed message)
  | .result, .corrupted => ([none], .corrupted)

def run : List Op → Meaning → List (Option Fips180.Registers)
  | [], _ => []
  | op :: ops, meaning => (meaning.perform op).1 ++ run ops (meaning.perform op).2

end Meaning

def Means (s : Sha1) : Meaning → Prop
  | .reading message => s.Reads message
  | .computed message =>
      s.computed = true ∧ s.corrupted = false ∧ s.h.registers = Fips180.sha1.hash message
        ∧ s.messageBlock.length = 64
  | .corrupted => s.corrupted = true ∧ s.messageBlock.length = 64

variable {meaning : Meaning}

theorem Means.length_messageBlock (h : s.Means meaning) : s.messageBlock.length = 64 := by
  cases meaning with
  | reading message => exact Reads.length_messageBlock h
  | computed message => exact h.2.2.2
  | corrupted => exact h.2

theorem Means.input (h : s.Means meaning) (bytes : Bytes) :
    (Sha1.input bytes s).Means (meaning.input bytes) := by
  have hlength := h.length_messageBlock
  rw [Sha1.input]
  cases meaning with
  | reading message =>
      have hreads : s.Reads message := h
      have hloop := hreads.inputLoop bytes
      have hclosed : (s.computed || s.corrupted) = false := by
        rw [hreads.computed, hreads.corrupted]
        rfl
      by_cases hnil : bytes = []
      · rw [if_pos hnil, Meaning.input, hnil, List.append_nil, if_pos hreads.short]
        exact hreads
      · rw [if_neg hnil, if_neg (by rw [hclosed]; decide), Meaning.input]
        split at hloop
        · rename_i hshort
          rw [if_pos hshort]
          exact hloop
        · rename_i hlong
          rw [if_neg hlong]
          exact ⟨hloop, (length_inputLoop bytes s).trans hlength⟩
  | computed message =>
      rw [Meaning.input]
      by_cases hnil : bytes = []
      · rw [if_pos hnil, if_pos hnil]
        exact h
      · rw [if_neg hnil, if_neg hnil, if_pos (by rw [h.1]; rfl)]
        exact ⟨rfl, hlength⟩
  | corrupted =>
      by_cases hnil : bytes = []
      · rw [if_pos hnil]
        exact h
      · rw [if_neg hnil, if_pos (by rw [h.1, Bool.or_true])]
        exact ⟨rfl, hlength⟩

theorem Meaning.input_append (xs ys : Bytes) (meaning : Meaning) :
    (meaning.input xs).input ys = meaning.input (xs ++ ys) := by
  cases meaning with
  | reading message =>
      rw [Meaning.input, Meaning.input]
      by_cases hshort : 8 * (message ++ xs).length < 2 ^ 64
      · rw [if_pos hshort, Meaning.input, List.append_assoc]
      · have hlong : ¬8 * (message ++ (xs ++ ys)).length < 2 ^ 64 := by
          rw [← List.append_assoc, List.length_append]
          omega
        rw [if_neg hshort, if_neg hlong, Meaning.input]
  | computed message =>
      cases xs with
      | nil => rfl
      | cons x xs => rfl
  | corrupted => rfl

theorem Means.foldl_input (h : s.Means meaning) (bytes : Bytes) :
    (bytes.foldl (fun s c => Sha1.input [c] s) s).Means (meaning.input bytes) := by
  induction bytes generalizing s meaning with
  | nil =>
      have hnil := h.input []
      exact hnil
  | cons c bytes ih =>
      have hnext := ih (h.input [c])
      rw [Meaning.input_append] at hnext
      exact hnext

theorem Means.result (h : s.Means meaning) :
    [(Sha1.result s).1.map Words.registers] = (meaning.perform .result).1
      ∧ (Sha1.result s).2.Means (meaning.perform .result).2 := by
  rw [Sha1.result]
  cases meaning with
  | reading message =>
      have hreads : s.Reads message := h
      obtain ⟨hhash, hlength⟩ := hreads.padMessage
      rw [if_neg (by rw [hreads.corrupted]; decide), if_neg (by rw [hreads.computed]; decide)]
      have hcorrupted := (corrupted_padMessage s).trans hreads.corrupted
      exact ⟨congrArg (fun r => [some r]) hhash, rfl, hcorrupted, hhash, hlength⟩
  | computed message =>
      obtain ⟨hcomputed, hcorrupted, hhash, hlength⟩ := h
      rw [if_neg (by rw [hcorrupted]; decide), if_pos hcomputed]
      exact ⟨congrArg (fun r => [some r]) hhash, hcomputed, hcorrupted, hhash, hlength⟩
  | corrupted =>
      rw [if_pos h.1]
      exact ⟨rfl, h⟩

/-- One call, whatever it is. -/
theorem Means.perform (h : s.Means meaning) (op : Op) :
    (Sha1.perform op s).1.map (Option.map Words.registers) = (meaning.perform op).1
      ∧ (Sha1.perform op s).2.Means (meaning.perform op).2 := by
  cases op with
  | reset => exact ⟨rfl, reads_reset h.length_messageBlock⟩
  | input messageArray => exact ⟨rfl, h.input messageArray⟩
  | shiftLeft messageArray => exact ⟨rfl, h.foldl_input (cString messageArray)⟩
  | result => exact h.result

theorem Means.run (h : s.Means meaning) (ops : List Op) :
    (Sha1.run ops s).map (Option.map Words.registers) = Meaning.run ops meaning := by
  induction ops generalizing s meaning with
  | nil => rfl
  | cons op ops ih =>
      obtain ⟨hreturned, hnext⟩ := h.perform op
      rw [Sha1.run, Meaning.run, List.map_append, hreturned, ih hnext]

/-- Whatever is called on an object, and in whatever order, every `Result` returns the digest of what
was input since the last `Reset`, unless that is too long or came after another `Result`. -/
theorem run_reset (s : Sha1) (hblock : s.messageBlock.length = 64) (ops : List Op) :
    (Sha1.run ops (reset s)).map (Option.map Words.registers) = Meaning.run ops (.reading []) :=
  Means.run (show (reset s).Means (.reading []) from reads_reset hblock) ops

/-- A digest, and what comes after it. -/
theorem run_reset_late :
    (Sha1.run [.input (ascii "a"), .shiftLeft (ascii "bc"), .result, .input (ascii "d"), .result]
        (reset ⟨0, 0, List.replicate 64 0, 0, false, false, ⟨0, 0, 0, 0, 0⟩⟩)).map
          (Option.map Words.registers)
      = Meaning.run [.input (ascii "a"), .shiftLeft (ascii "bc"), .result, .input (ascii "d"), .result]
          (.reading []) :=
  run_reset _ (List.length_replicate ..) _

end Sha1

end Seasocks
