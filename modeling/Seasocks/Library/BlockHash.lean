import Mathlib.Algebra.Order.Group.Nat
import Mathlib.Data.List.Induction
import Mathlib.Data.Nat.ModEq

/-!
# Iterated hash functions

A hash function folds a compression function over the blocks of its padded message. A program that is
given the message in pieces keeps the state of the fold and what lies behind the last full block.
-/

variable {State Symbol : Type}

/-- An iterated hash function. The padding depends on the length of the message alone and completes its
last block. -/
structure BlockHash (State Symbol : Type) where
  size : Nat
  initial : State
  compress : State → List Symbol → State
  padding : Nat → List Symbol
  size_pos : 0 < size
  size_dvd : ∀ length, size ∣ length + (padding length).length

namespace BlockHash

variable (h : BlockHash State Symbol)

/-- The block of a message with a given number. -/
def block (message : List Symbol) (i : Nat) : List Symbol := (message.drop (h.size * i)).take h.size

/-- The state behind the first blocks of a message. -/
def chain (message : List Symbol) : Nat → State
  | 0 => h.initial
  | i + 1 => h.compress (chain message i) (h.block message i)

def padded (message : List Symbol) : List Symbol := message ++ h.padding message.length

/-- The state behind the last block of the padded message. -/
def hash (message : List Symbol) : State :=
  h.chain (h.padded message) ((h.padded message).length / h.size)

/-! ### Absorbing a message symbol by symbol -/

/-- The state behind the blocks that are complete, and the block that is not. -/
abbrev Progress (State Symbol : Type) : Type := State × List Symbol

def absorbSymbol (p : Progress State Symbol) (symbol : Symbol) : Progress State Symbol :=
  if p.2.length + 1 = h.size then (h.compress p.1 (p.2 ++ [symbol]), []) else (p.1, p.2 ++ [symbol])

def absorb (p : Progress State Symbol) (symbols : List Symbol) : Progress State Symbol :=
  symbols.foldl h.absorbSymbol p

/-- The progress when a message has been read. -/
def after (message : List Symbol) : Progress State Symbol := h.absorb (h.initial, []) message

variable {h}

@[simp]
theorem absorb_nil (p : Progress State Symbol) : h.absorb p [] = p := rfl

theorem absorb_cons (p : Progress State Symbol) (symbol : Symbol) (symbols : List Symbol) :
    h.absorb p (symbol :: symbols) = h.absorb (h.absorbSymbol p symbol) symbols := rfl

theorem absorb_append (p : Progress State Symbol) (xs ys : List Symbol) :
    h.absorb p (xs ++ ys) = h.absorb (h.absorb p xs) ys := by
  rw [absorb, List.foldl_append]
  rfl

theorem after_append (xs ys : List Symbol) : h.after (xs ++ ys) = h.absorb (h.after xs) ys :=
  absorb_append _ xs ys

/-- What does not complete the block is kept. -/
theorem absorb_of_lt {state : State} {buffer symbols : List Symbol}
    (hlt : buffer.length + symbols.length < h.size) :
    h.absorb (state, buffer) symbols = (state, buffer ++ symbols) := by
  induction symbols generalizing buffer with
  | nil => rw [absorb_nil, List.append_nil]
  | cons symbol symbols ih =>
      rw [List.length_cons] at hlt
      have hpartial : buffer.length + 1 ≠ h.size := by omega
      have hlt' : (buffer ++ [symbol]).length + symbols.length < h.size := by
        rw [List.length_append, List.length_singleton]
        omega
      rw [absorb_cons, absorbSymbol, if_neg hpartial, ih hlt', List.append_assoc, List.singleton_append]

/-- What completes the block is compressed with it. -/
theorem absorb_of_eq {state : State} {buffer symbols : List Symbol} (hsymbols : symbols ≠ [])
    (heq : buffer.length + symbols.length = h.size) :
    h.absorb (state, buffer) symbols = (h.compress state (buffer ++ symbols), []) := by
  have hlength := congrArg List.length (List.dropLast_concat_getLast hsymbols)
  rw [List.length_append, List.length_singleton] at hlength
  have hlt : buffer.length + symbols.dropLast.length < h.size := by omega
  have hfull : (buffer ++ symbols.dropLast).length + 1 = h.size := by
    rw [List.length_append]
    omega
  rw [← List.dropLast_concat_getLast hsymbols, absorb_append, absorb_of_lt hlt, absorb_cons, absorb_nil,
    absorbSymbol, if_pos hfull, List.append_assoc]

theorem absorb_block {state : State} {symbols : List Symbol} (hlength : symbols.length = h.size) :
    h.absorb (state, []) symbols = (h.compress state symbols, []) := by
  have hne : symbols ≠ [] := List.ne_nil_of_length_pos (hlength ▸ h.size_pos)
  have heq : ([] : List Symbol).length + symbols.length = h.size := by
    rw [List.length_nil, hlength, Nat.zero_add]
  rw [absorb_of_eq hne heq, List.nil_append]

/-! ### What has been absorbed -/

theorem block_append {xs ys : List Symbol} {i : Nat} (hi : h.size * (i + 1) ≤ xs.length) :
    h.block (xs ++ ys) i = h.block xs i := by
  rw [Nat.mul_add_one] at hi
  have hrest : h.size ≤ (xs.drop (h.size * i)).length := by
    rw [List.length_drop]
    omega
  rw [block, block, List.drop_append_of_le_length (by omega), List.take_append_of_le_length hrest]

theorem chain_append {xs ys : List Symbol} {n : Nat} (hn : h.size * n ≤ xs.length) :
    h.chain (xs ++ ys) n = h.chain xs n := by
  induction n with
  | zero => rfl
  | succ n ih =>
      have hle : h.size * n ≤ xs.length := by
        rw [Nat.mul_add_one] at hn
        omega
      rw [chain, chain, ih hle, block_append hn]

/-- The blocks read so far are in the state, and the buffer holds what lies behind them. -/
theorem after_eq (message : List Symbol) :
    h.after message
      = (h.chain message (message.length / h.size),
          message.drop (h.size * (message.length / h.size))) := by
  induction message using List.reverseRecOn with
  | nil =>
      rw [List.length_nil, Nat.zero_div, List.drop_nil]
      rfl
  | append_singleton message symbol ih =>
      set n := message.length / h.size with hn
      have hsplit := Nat.div_add_mod message.length h.size
      have hmod := Nat.mod_lt message.length h.size_pos
      rw [← hn] at hsplit
      have hle : h.size * n ≤ message.length := by omega
      have hrest : (message.drop (h.size * n)).length = message.length % h.size := by
        rw [List.length_drop]
        omega
      rw [after_append, ih, absorb_cons, absorb_nil, absorbSymbol, List.length_append,
        List.length_singleton, hrest]
      by_cases hfull : message.length % h.size + 1 = h.size
      · have hnext : (message.length + 1) / h.size = n + 1 := by
          rw [← hsplit, Nat.add_assoc, hfull, ← Nat.mul_add_one, Nat.mul_div_cancel_left _ h.size_pos]
        have hblock : h.block (message ++ [symbol]) n = message.drop (h.size * n) ++ [symbol] := by
          rw [block, List.drop_append_of_le_length hle, List.take_of_length_le]
          rw [List.length_append, hrest, List.length_singleton, hfull]
        have hnil : (message ++ [symbol]).drop (h.size * (n + 1)) = [] := by
          rw [List.drop_eq_nil_iff, List.length_append, List.length_singleton, Nat.mul_add_one]
          omega
        rw [if_pos hfull, hnext, chain, chain_append hle, hblock, hnil]
      · have hsame : (message.length + 1) / h.size = n := by
          rw [← hsplit, Nat.add_assoc, Nat.mul_add_div h.size_pos,
            Nat.div_eq_of_lt (by omega), Nat.add_zero]
        rw [if_neg hfull, hsame, chain_append hle, List.drop_append_of_le_length hle]

/-- The padded message leaves nothing behind its last block, so absorbing the padding gives the hash. -/
theorem after_padded (message : List Symbol) : h.after (h.padded message) = (h.hash message, []) := by
  have hdvd : h.size * ((h.padded message).length / h.size) = (h.padded message).length := by
    apply Nat.mul_div_cancel'
    rw [padded, List.length_append]
    exact h.size_dvd message.length
  rw [after_eq, hdvd, List.drop_length]
  rfl

theorem absorb_padding (message : List Symbol) :
    h.absorb (h.after message) (h.padding message.length) = (h.hash message, []) := by
  rw [← after_padded, padded, after_append]

end BlockHash

/-! ### Padding with the length -/

/-- A mark, as few zeros as it takes, and the encoded length. -/
structure LengthPadding (Symbol : Type) where
  size : Nat
  mark : Symbol
  zero : Symbol
  encode : Nat → List Symbol
  encoded : Nat
  size_pos : 0 < size
  length_encode : ∀ length, (encode length).length = encoded

namespace LengthPadding

variable (p : LengthPadding Symbol)

/-- How many zeros there are behind a message and its mark. -/
def zeros (length : Nat) : Nat := (p.size - (length + 1 + p.encoded) % p.size) % p.size

def padding (length : Nat) : List Symbol :=
  p.mark :: List.replicate (p.zeros length) p.zero ++ p.encode length

theorem size_dvd (length : Nat) : p.size ∣ length + (p.padding length).length := by
  have hmod := Nat.mod_lt (length + 1 + p.encoded) p.size_pos
  have hsum : length + (p.padding length).length = length + 1 + p.encoded + p.zeros length := by
    rw [padding, List.length_append, List.length_cons, List.length_replicate, p.length_encode]
    omega
  rw [hsum, zeros, Nat.dvd_iff_mod_eq_zero, Nat.add_mod_mod, ← Nat.mod_add_mod,
    Nat.add_sub_cancel' hmod.le, Nat.mod_self]

end LengthPadding
