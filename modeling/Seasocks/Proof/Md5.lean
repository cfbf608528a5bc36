import Mathlib.Tactic.IntervalCases
import Seasocks.Library.Rfc1321
import Seasocks.Md5

/-!
# The MD5 of the Hixie handshake

The sixty-four unrolled operations of `md5_process` are the steps of RFC 1321, and a digest built up by
`md5_append` is the digest of everything that was appended, however it was cut.
-/

namespace Seasocks

open BlockHash

namespace Md5

/-! ### The table -/

theorem rounds_constants : ∀ i : Fin 64, WholeSines.Rounds (i + 1) (T (i + 1)).toNat := by
  decide +kernel

/-- The constants of the source are those the RFC defines by sines. -/
theorem T_eq {i : ℕ} (hi : i < 64) : T (i + 1) = Rfc1321.T (i + 1) := by
  have hfloor := WholeSines.floor_eq (Nat.succ_le_of_lt hi) (rounds_constants ⟨i, hi⟩)
  rw [Rfc1321.T, hfloor, Int.toNat_natCast, UInt32.ofNat_toNat]

/-! ### Rounds -/

def Words.registers (w : Words) : Rfc1321.Registers := ⟨w.a, w.b, w.c, w.d⟩

/-- Four operations assign to each register once, which turns the registers back. -/
theorem turns_eq (f : UInt32 → UInt32 → UInt32 → UInt32) (X : ℕ → UInt32) (k₁ k₂ k₃ k₄ : ℕ)
    (s₁ s₂ s₃ s₄ t₁ t₂ t₃ t₄ : UInt32) (w : Words) :
    (setB f X k₄ s₄ t₄ (setC f X k₃ s₃ t₃ (setD f X k₂ s₂ t₂ (setA f X k₁ s₁ t₁ w)))).registers
      = Rfc1321.turn f (X k₄) s₄ t₄ (Rfc1321.turn f (X k₃) s₃ t₃
          (Rfc1321.turn f (X k₂) s₂ t₂ (Rfc1321.turn f (X k₁) s₁ t₁ w.registers))) := by
  have hset : ∀ a b c d k s t, set f X a b c d k s t
      = b + Rfc1321.rotateLeft (a + f b c d + X k + t) s := by
    intro a b c d k s t
    rw [UInt32.add_comm]
    rfl
  simp only [setA, setB, setC, setD, hset]
  rfl

theorem X_eq (data : Bytes) : X data = Rfc1321.word data := by
  funext k
  have hbyte : ∀ b : UInt8, b.toNat < 256 := UInt8.toNat_lt
  apply UInt32.toNat_inj.mp
  have h0 := hbyte (data.getD (4 * k) 0)
  have h1 := hbyte (data.getD (4 * k + 1) 0)
  have h2 := hbyte (data.getD (4 * k + 2) 0)
  have h3 := hbyte (data.getD (4 * k + 3) 0)
  rw [X, Rfc1321.word, UInt32.toNat_ofNat']
  simp only [UInt32.toNat_add, UInt32.toNat_shiftLeft, UInt8.toNat_toUInt32, UInt32.reduceToNat,
    Nat.shiftLeft_eq, Nat.reduceMod, Nat.reducePow]
  omega

/-- A step of the RFC, with the table of the source. -/
def step (data : Bytes) (r : Rfc1321.Registers) (i : ℕ) : Rfc1321.Registers :=
  Rfc1321.turn (Rfc1321.auxiliary i) (X data (Rfc1321.wordIndex i)) (Rfc1321.shift i) (T (i + 1)) r

theorem round1_eq (data : Bytes) (w : Words) :
    (round1 (X data) w).registers = (List.range' 0 16).foldl (step data) w.registers := by
  rw [round1, turns_eq, turns_eq, turns_eq, turns_eq]
  rfl

theorem round2_eq (data : Bytes) (w : Words) :
    (round2 (X data) w).registers = (List.range' 16 16).foldl (step data) w.registers := by
  rw [round2, turns_eq, turns_eq, turns_eq, turns_eq]
  rfl

theorem round3_eq (data : Bytes) (w : Words) :
    (round3 (X data) w).registers = (List.range' 32 16).foldl (step data) w.registers := by
  rw [round3, turns_eq, turns_eq, turns_eq, turns_eq]
  rfl

theorem round4_eq (data : Bytes) (w : Words) :
    (round4 (X data) w).registers = (List.range' 48 16).foldl (step data) w.registers := by
  rw [round4, turns_eq, turns_eq, turns_eq, turns_eq]
  rfl

theorem foldl_step (data : Bytes) (r : Rfc1321.Registers) :
    (List.range 64).foldl (step data) r = (List.range 64).foldl (Rfc1321.step data) r := by
  apply List.foldl_ext
  intro r i hi
  rw [step, Rfc1321.step, X_eq, T_eq (List.mem_range.mp hi)]

end Md5

open Md5

theorem md5Process_eq (abcd : Words) (data : Bytes) :
    (md5Process abcd data).registers = Rfc1321.compress abcd.registers data := by
  have hrange : List.range 64
      = List.range' 0 16 ++ List.range' 16 16 ++ List.range' 32 16 ++ List.range' 48 16 := by decide
  have hrounds : (round4 (X data) (round3 (X data) (round2 (X data) (round1 (X data) abcd)))).registers
      = (List.range 64).foldl (Rfc1321.step data) abcd.registers := by
    rw [round4_eq, round3_eq, round2_eq, round1_eq, ← List.foldl_append, ← List.foldl_append,
      ← List.foldl_append, ← List.append_assoc, ← List.append_assoc, ← hrange, foldl_step]
  rw [Rfc1321.compress, ← hrounds]
  rfl

/-! ### The buffer -/

theorem length_memcpy {buf data : Bytes} {offset : ℕ} (h : offset + data.length ≤ buf.length) :
    (memcpy buf offset data).length = buf.length := by
  rw [memcpy, List.length_append, List.length_append, List.length_take, List.length_drop]
  omega

theorem take_memcpy {buf data : Bytes} {offset : ℕ} (h : offset ≤ buf.length) :
    (memcpy buf offset data).take (offset + data.length) = buf.take offset ++ data := by
  have hlength : (buf.take offset ++ data).length = offset + data.length := by
    rw [List.length_append, List.length_take_of_le h]
  rw [memcpy, ← hlength, List.take_left']
  rfl

namespace Md5State

/-- The blocks and what is left of them, when nothing was left before. -/
theorem appendBlocks (pms : Md5State) (p : Bytes) (hbuf : pms.buf.length = 64) :
    (md5AppendBlocks pms p).count0 = pms.count0 ∧ (md5AppendBlocks pms p).count1 = pms.count1
      ∧ (md5AppendBlocks pms p).buf.length = 64
      ∧ ((md5AppendBlocks pms p).abcd.registers, (md5AppendBlocks pms p).buf.take (p.length % 64))
        = Rfc1321.md5.absorb (pms.abcd.registers, []) p := by
  fun_induction md5AppendBlocks pms p with
  | case1 pms p hfull ih =>
      obtain ⟨hcount0, hcount1, hlength, hprogress⟩ := ih hbuf
      have hblock : (p.take 64).length = Rfc1321.md5.size := List.length_take_of_le hfull
      have hmod : (p.drop 64).length % 64 = p.length % 64 := by
        rw [List.length_drop]
        omega
      have hsplit := congrArg (Rfc1321.md5.absorb (pms.abcd.registers, [])) (List.take_append_drop 64 p)
      rw [absorb_append, absorb_block hblock] at hsplit
      rw [hmod, md5Process_eq] at hprogress
      exact ⟨hcount0, hcount1, hlength, hprogress.trans hsplit⟩
  | case2 pms p hfits hne =>
      have hlt : ([] : Bytes).length + p.length < Rfc1321.md5.size := by
        rw [List.length_nil, Nat.zero_add]
        exact Nat.lt_of_not_le hfits
      have htake : (memcpy pms.buf 0 p).take (0 + p.length) = pms.buf.take 0 ++ p :=
        take_memcpy (Nat.zero_le pms.buf.length)
      rw [Nat.zero_add] at htake
      refine ⟨rfl, rfl, ?_, ?_⟩
      · rw [length_memcpy (by omega), hbuf]
      · rw [absorb_of_lt hlt, Nat.mod_eq_of_lt (by omega), htake]
        rfl
  | case3 pms p hfits hnil =>
      rw [not_not] at hnil
      subst hnil
      exact ⟨rfl, rfl, hbuf, rfl⟩

/-- What a state is when a message has been appended to it. -/
structure Reads (pms : Md5State) (message : Bytes) : Prop where
  count : pms.count0.toNat + 2 ^ 32 * pms.count1.toNat = 8 * message.length % 2 ^ 64
  length_buf : pms.buf.length = 64
  progress : (pms.abcd.registers, pms.buf.take (message.length % 64)) = Rfc1321.md5.after message

theorem reads_init {pms : Md5State} (h : pms.buf.length = 64) : (md5Init pms).Reads [] :=
  ⟨rfl, h, rfl⟩

variable {pms : Md5State} {message : Bytes}

theorem Reads.offset (h : pms.Reads message) :
    ((pms.count0 >>> 3) &&& 63).toNat = message.length % 64 := by
  have hcount := h.count
  have hand := Nat.and_two_pow_sub_one_eq_mod (pms.count0.toNat / 8) 6
  rw [UInt32.toNat_and, UInt32.toNat_shiftRight, Nat.shiftRight_eq_div_pow]
  simp only [UInt32.reduceToNat, Nat.reduceMod, Nat.reducePow] at hand ⊢
  rw [hand]
  omega

/-- The count of the bits, with the carry between its words. -/
theorem count_updateCount (pms : Md5State) (nbytes : ℕ) :
    (updateCount pms nbytes).count0.toNat + 2 ^ 32 * (updateCount pms nbytes).count1.toNat
      = (pms.count0.toNat + 2 ^ 32 * pms.count1.toNat + 8 * nbytes) % 2 ^ 64 := by
  have h0 := pms.count0.toNat_lt
  have h1 := pms.count1.toNat_lt
  simp only [updateCount, UInt32.lt_iff_toNat_lt, UInt32.toNat_add, UInt32.toNat_ofNat',
    Nat.shiftLeft_eq, Nat.shiftRight_eq_div_pow, Nat.reducePow]
  split
  · simp only [UInt32.toNat_add, UInt32.toNat_ofNat', Nat.reducePow, UInt32.reduceToNat]
    omega
  · simp only [UInt32.toNat_add, UInt32.toNat_ofNat', Nat.reducePow]
    omega

theorem Reads.count_append (h : pms.Reads message) (data : Bytes) :
    (updateCount pms data.length).count0.toNat + 2 ^ 32 * (updateCount pms data.length).count1.toNat
      = 8 * (message ++ data).length % 2 ^ 64 := by
  rw [count_updateCount, h.count, Nat.mod_add_mod, ← Nat.mul_add, List.length_append]

/-- Nothing is left of an earlier block. -/
theorem Reads.append_blocks (h : pms.Reads message) (hempty : message.length % 64 = 0) (data : Bytes) :
    (md5AppendBlocks (updateCount pms data.length) data).Reads (message ++ data) := by
  obtain ⟨h0, h1, hlength, hprogress⟩ := appendBlocks (updateCount pms data.length) data h.length_buf
  have hstart := h.progress
  rw [hempty, List.take_zero] at hstart
  refine ⟨?_, hlength, ?_⟩
  · rw [h0, h1, h.count_append]
  · rw [after_append, ← hstart, List.length_append, Nat.add_mod, hempty, Nat.zero_add, Nat.mod_mod]
    exact hprogress

/-- What the buffer holds, and bytes that fit behind it. -/
theorem Reads.take_memcpy (h : pms.Reads message) {data : Bytes}
    (hfits : message.length % 64 + data.length ≤ 64) :
    (memcpy pms.buf (message.length % 64) data).length = 64 ∧
      (memcpy pms.buf (message.length % 64) data).take (message.length % 64 + data.length) =
        pms.buf.take (message.length % 64) ++ data := by
  have hbuf := h.length_buf
  refine ⟨?_, Seasocks.take_memcpy (by omega)⟩
  rw [length_memcpy, hbuf]
  omega

theorem Reads.length_take (h : pms.Reads message) :
    (pms.buf.take (message.length % 64)).length = message.length % 64 := by
  have hmod : message.length % 64 < 64 := Nat.mod_lt _ (by decide)
  exact List.length_take_of_le (hmod.le.trans h.length_buf.ge)

/-- The data does not complete the block. -/
theorem Reads.append_within (h : pms.Reads message) {data : Bytes}
    (hfits : message.length % 64 + data.length < 64) :
    Reads { updateCount pms data.length with
      buf := memcpy pms.buf (message.length % 64) data } (message ++ data) := by
  obtain ⟨hlength, htake⟩ := h.take_memcpy hfits.le
  have hlt : (pms.buf.take (message.length % 64)).length + data.length < Rfc1321.md5.size := by
    rw [h.length_take]
    exact hfits
  have hnext : (message ++ data).length % 64 = message.length % 64 + data.length := by
    rw [List.length_append]
    omega
  refine ⟨h.count_append data, hlength, ?_⟩
  rw [after_append, ← h.progress, absorb_of_lt hlt, hnext]
  exact Prod.ext rfl htake

/-- The block is completed, and what follows it starts with an empty one. -/
theorem Reads.append_full (h : pms.Reads message) {data : Bytes} {copy : ℕ} (hcopy : copy ≤ data.length)
    (hpositive : 0 < copy) (hfull : message.length % 64 + copy = 64) :
    (md5AppendBlocks { updateCount pms data.length with
        abcd := md5Process pms.abcd (memcpy pms.buf (message.length % 64) (data.take copy))
        buf := memcpy pms.buf (message.length % 64) (data.take copy) } (data.drop copy)).Reads
      (message ++ data) := by
  have hcopied : (data.take copy).length = copy := List.length_take_of_le hcopy
  obtain ⟨hlength, htake⟩ := h.take_memcpy (hcopied ▸ hfull.le)
  have hblock : (pms.buf.take (message.length % 64)).length + (data.take copy).length
      = Rfc1321.md5.size := by
    rw [h.length_take, hcopied]
    exact hfull
  have hsome : data.take copy ≠ [] := List.ne_nil_of_length_pos (by omega)
  have hwhole : memcpy pms.buf (message.length % 64) (data.take copy)
      = pms.buf.take (message.length % 64) ++ data.take copy := by
    rw [← htake, hcopied, hfull, List.take_of_length_le hlength.le]
  have hnext : (message ++ data).length % 64 = (data.drop copy).length % 64 := by
    rw [List.length_append, List.length_drop]
    omega
  have hsplit := congrArg (Rfc1321.md5.absorb (Rfc1321.md5.after message))
    (List.take_append_drop copy data)
  obtain ⟨h0, h1, hlength', hprogress⟩ := appendBlocks
    { updateCount pms data.length with
      abcd := md5Process pms.abcd (memcpy pms.buf (message.length % 64) (data.take copy))
      buf := memcpy pms.buf (message.length % 64) (data.take copy) } (data.drop copy) hlength
  refine ⟨?_, hlength', ?_⟩
  · rw [← h.count_append data]
    exact congrArg₂ (fun count0 count1 : UInt32 => count0.toNat + 2 ^ 32 * count1.toNat) h0 h1
  · rw [absorb_append, ← h.progress, absorb_of_eq hsome hblock, ← hwhole] at hsplit
    rw [md5Process_eq] at hprogress
    rw [hnext, after_append, ← h.progress, ← hsplit]
    exact hprogress

/-- Appending to a state, however much of a block it has. -/
theorem Reads.append (h : pms.Reads message) (data : Bytes) :
    (md5Append pms data).Reads (message ++ data) := by
  by_cases hdata : data = []
  · subst hdata
    rw [List.append_nil]
    exact h
  have hne : data.length ≠ 0 := fun hlength => hdata (List.length_eq_zero_iff.mp hlength)
  have hmod : message.length % 64 < 64 := Nat.mod_lt _ (by decide)
  rw [md5Append]
  simp only [h.offset, if_neg hne]
  by_cases hempty : message.length % 64 = 0
  · rw [if_neg (not_not.mpr hempty)]
    exact h.append_blocks hempty data
  rw [if_pos hempty]
  by_cases hlong : message.length % 64 + data.length > 64
  · have hfull : message.length % 64 + (64 - message.length % 64) = 64 := by omega
    rw [if_pos hlong, if_neg (by omega)]
    exact h.append_full (by omega) (by omega) hfull
  · rw [if_neg hlong]
    by_cases hfits : message.length % 64 + data.length < 64
    · rw [if_pos hfits, List.take_length]
      exact h.append_within hfits
    · rw [if_neg hfits]
      exact h.append_full le_rfl (by omega) (by omega)

theorem Reads.append_all (h : pms.Reads message) (pieces : List Bytes) :
    (pieces.foldl md5Append pms).Reads (message ++ pieces.flatten) := by
  induction pieces generalizing pms message with
  | nil =>
      rw [List.flatten_nil, List.append_nil]
      exact h
  | cons piece pieces ih =>
      rw [List.foldl_cons, List.flatten_cons, ← List.append_assoc]
      exact ih (h.append piece)

/-! ### The padding -/

theorem wordBytes_eq (x : UInt32) : wordBytes x = Rfc1321.wordBytes x := by
  have hbyte : ∀ i, i < 4 → (x >>> (8 * UInt32.ofNat i)).toUInt8 = UInt8.ofNat (x.toNat / 256 ^ i) := by
    intro i hi
    apply UInt8.toNat_inj.mp
    rw [UInt32.toNat_toUInt8, UInt32.toNat_shiftRight, Nat.shiftRight_eq_div_pow, UInt8.toNat_ofNat']
    interval_cases i <;> rfl
  have h := List.map_congr_left (l := List.range 4) fun i hi => hbyte i (List.mem_range.mp hi)
  rw [Rfc1321.wordBytes, ← h]
  rfl

/-- The bytes of a number of two words. -/
theorem lengthBytes_eq {count0 count1 : UInt32} {length : ℕ}
    (h : count0.toNat + 2 ^ 32 * count1.toNat = 8 * length % 2 ^ 64) :
    wordBytes count0 ++ wordBytes count1 = Rfc1321.lengthBytes length := by
  have h0 := count0.toNat_lt
  rw [wordBytes_eq, wordBytes_eq, Rfc1321.lengthBytes, ← h, show 8 = 4 + 4 from rfl, List.range_add,
    List.map_append, List.map_map, Rfc1321.wordBytes, Rfc1321.wordBytes]
  congr 1
  · apply List.map_congr_left
    intro i hi
    have hi := List.mem_range.mp hi
    apply UInt8.toNat_inj.mp
    rw [UInt8.toNat_ofNat', UInt8.toNat_ofNat']
    interval_cases i <;> omega
  · apply List.map_congr_left
    intro i _
    have hhigh : (count0.toNat + 2 ^ 32 * count1.toNat) / 2 ^ 32 = count1.toNat := by omega
    rw [Function.comp_apply, pow_add, ← Nat.div_div_eq_div_mul, show 256 ^ 4 = 2 ^ 32 from rfl, hhigh]

/-- The pad and the saved length are the padding of the RFC. -/
theorem Reads.padding (h : pms.Reads message) :
    md5Pad.take ((((55 : UInt32) - (pms.count0 >>> 3)) &&& 63) + 1).toNat
        ++ (wordBytes pms.count0 ++ wordBytes pms.count1)
      = Rfc1321.padding.padding message.length := by
  have hcount := h.count
  have h0 := pms.count0.toNat_lt
  have hzeros : ((((55 : UInt32) - (pms.count0 >>> 3)) &&& 63) + 1).toNat
      = Rfc1321.padding.zeros message.length + 1 := by
    have hand := Nat.and_two_pow_sub_one_eq_mod ((55 : UInt32) - (pms.count0 >>> 3)).toNat 6
    rw [UInt32.toNat_add, UInt32.toNat_and]
    simp only [UInt32.toNat_sub, UInt32.toNat_shiftRight, Nat.shiftRight_eq_div_pow, UInt32.reduceToNat,
      Nat.reduceMod, Nat.reducePow, Nat.reduceSub] at hand ⊢
    rw [hand, LengthPadding.zeros]
    change _ = (64 - (message.length + 1 + 8) % 64) % 64 + 1
    omega
  have hmark : md5Pad.take (Rfc1321.padding.zeros message.length + 1)
      = 0x80 :: List.replicate (Rfc1321.padding.zeros message.length) 0 := by
    have hfew : Rfc1321.padding.zeros message.length < 64 := Nat.mod_lt _ (by decide)
    rw [md5Pad, List.take_succ_cons, List.take_replicate, min_eq_left (by omega)]
  rw [hzeros, hmark, lengthBytes_eq hcount]
  rfl

theorem Reads.finish (h : pms.Reads message) : md5Finish pms = Rfc1321.digest message := by
  have hpad := h.append (md5Pad.take ((((55 : UInt32) - (pms.count0 >>> 3)) &&& 63) + 1).toNat)
  have hpadded := hpad.append (wordBytes pms.count0 ++ wordBytes pms.count1)
  have hprogress := hpadded.progress
  rw [List.append_assoc, h.padding] at hprogress
  obtain ⟨hhash, -⟩ := Prod.mk.inj (hprogress.trans (after_padded message))
  rw [Rfc1321.digest, Rfc1321.output, ← hhash, ← wordBytes_eq, ← wordBytes_eq, ← wordBytes_eq,
    ← wordBytes_eq]
  rfl

end Md5State

theorem Md5State.intsFit_of_lt (pms : Md5State) {data : Bytes} (hdata : data.length < 2 ^ 28) :
    pms.IntsFit data := by
  have hoffset : ((pms.count0 >>> 3) &&& 63).toNat ≤ 63 := by
    rw [UInt32.toNat_and]
    exact Nat.and_le_right
  rw [Md5State.IntsFit, Nat.shiftLeft_eq]
  omega

/-- Whatever the state held before, a message appended in any pieces has the digest of the RFC. The
pieces are short enough for the `int`s of every call. -/
theorem md5_digest (pms : Md5State) (hbuf : pms.buf.length = 64) (pieces : List Bytes)
    (hpieces : ∀ piece ∈ pieces, piece.length < 2 ^ 28) :
    (∀ before piece, before ++ [piece] <+: pieces →
      (before.foldl md5Append (md5Init pms)).IntsFit piece) ∧
    md5Finish (pieces.foldl md5Append (md5Init pms)) = Rfc1321.digest pieces.flatten := by
  refine ⟨fun before piece hbegins => ?_, ((Md5State.reads_init hbuf).append_all pieces).finish⟩
  have hpiece : piece ∈ pieces :=
    hbegins.subset (List.mem_append_right _ (List.mem_singleton.mpr rfl))
  exact Md5State.intsFit_of_lt _ (hpieces piece hpiece)

theorem md5_digest_abc :
    (∀ before piece, before ++ [piece] <+: [ascii "a", ascii "bc"] →
      (before.foldl md5Append (md5Init ⟨0, 0, ⟨0, 0, 0, 0⟩, List.replicate 64 0⟩)).IntsFit piece) ∧
    md5Finish ([ascii "a", ascii "bc"].foldl md5Append
        (md5Init ⟨0, 0, ⟨0, 0, 0, 0⟩, List.replicate 64 0⟩))
      = Rfc1321.digest (ascii "abc") :=
  md5_digest _ (List.length_replicate ..) [ascii "a", ascii "bc"] (by decide)

end Seasocks
