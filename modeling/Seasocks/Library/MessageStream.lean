import Mathlib.Data.List.TakeWhile

/-!
# Messages of a stream that arrives in pieces

A decoder takes messages from the beginning of a stream. A receiver keeps what it cannot decode yet, and
gives up when that is more than a limit. What such a receiver accepts is compared with what a limit on
the messages themselves would accept, whatever the pieces.
-/

namespace MessageStream

variable {β σ ι : Type}

/-! ### Decoders -/

/-- What a decoder finds at the beginning of a stream: nothing complete; the part of a message that must
not be left for later; what ends the stream; or a message with its size, and the state behind it. -/
inductive Found (σ ι : Type) where
  | waits
  | torn
  | closes
  | item (item : ι) (state : σ) (size : Nat)

def Found.item? : Found σ ι → Option ι
  | .item found _ _ => some found
  | .waits | .torn | .closes => none

/-- A decoder that sticks to what it has found when more of the stream arrives. -/
structure Decoder (β σ ι : Type) where
  next : σ → List β → Found σ ι
  size : ∀ {state stream item state' size}, next state stream = .item item state' size →
    0 < size ∧ size ≤ stream.length
  item_append : ∀ {state stream item state' size}, next state stream = .item item state' size →
    ∀ more, next state (stream ++ more) = .item item state' size
  closes_append : ∀ {state stream}, next state stream = .closes →
    ∀ more, next state (stream ++ more) = .closes

namespace Decoder

variable (d : Decoder β σ ι)

/-- The messages at the beginning of a stream, and what is left behind them, `none` where the stream
ends. -/
def decodeFrom : Nat → σ → List β → List ι × Option (σ × List β)
  | 0, state, stream => ([], some (state, stream))
  | fuel + 1, state, stream =>
      match d.next state stream with
      | .waits | .torn => ([], some (state, stream))
      | .closes => ([], none)
      | .item item state' size =>
          let behind := decodeFrom fuel state' (stream.drop size)
          (item :: behind.1, behind.2)

/-- One turn for each element of the stream is enough, as every message takes some of it. -/
def decode (state : σ) (stream : List β) : List ι × Option (σ × List β) :=
  d.decodeFrom (stream.length + 1) state stream

variable {d}

theorem decodeFrom_fuel {fuel fuel' : Nat} {state : σ} {stream : List β} (h : stream.length < fuel)
    (h' : stream.length < fuel') : d.decodeFrom fuel state stream = d.decodeFrom fuel' state stream := by
  induction fuel generalizing fuel' state stream with
  | zero => omega
  | succ fuel ih =>
      obtain ⟨fuel', rfl⟩ : ∃ before, fuel' = before + 1 := ⟨fuel' - 1, by omega⟩
      rw [decodeFrom, decodeFrom]
      cases hnext : d.next state stream with
      | waits | torn | closes => rfl
      | item item state' size =>
          have hsize := d.size hnext
          have hrest : d.decodeFrom fuel state' (stream.drop size) =
              d.decodeFrom fuel' state' (stream.drop size) := by
            apply ih <;> rw [List.length_drop] <;> omega
          dsimp only
          rw [hrest]

theorem decode_waits {state : σ} {stream : List β} (h : d.next state stream = .waits) :
    d.decode state stream = ([], some (state, stream)) := by
  rw [decode, decodeFrom, h]

theorem decode_torn {state : σ} {stream : List β} (h : d.next state stream = .torn) :
    d.decode state stream = ([], some (state, stream)) := by
  rw [decode, decodeFrom, h]

theorem decode_closes {state : σ} {stream : List β} (h : d.next state stream = .closes) :
    d.decode state stream = ([], none) := by
  rw [decode, decodeFrom, h]

theorem decode_item {state state' : σ} {stream : List β} {item : ι} {size : Nat}
    (h : d.next state stream = .item item state' size) :
    d.decode state stream =
      (item :: (d.decode state' (stream.drop size)).1, (d.decode state' (stream.drop size)).2) := by
  have hsize := d.size h
  have hfuel : d.decodeFrom stream.length state' (stream.drop size) =
      d.decode state' (stream.drop size) := by
    apply decodeFrom_fuel <;> rw [List.length_drop] <;> omega
  rw [decode, decodeFrom, h]
  dsimp only
  rw [hfuel]

/-- An induction along the messages of a stream. -/
theorem decode_induction {motive : σ → List β → Prop}
    (waits : ∀ state stream, d.next state stream = .waits → motive state stream)
    (torn : ∀ state stream, d.next state stream = .torn → motive state stream)
    (closes : ∀ state stream, d.next state stream = .closes → motive state stream)
    (item : ∀ state stream item state' size, d.next state stream = .item item state' size →
      motive state' (stream.drop size) → motive state stream)
    (state : σ) (stream : List β) : motive state stream := by
  induction hlength : stream.length using Nat.strongRecOn generalizing state stream with
  | ind length ih =>
      cases hnext : d.next state stream with
      | waits => exact waits state stream hnext
      | torn => exact torn state stream hnext
      | closes => exact closes state stream hnext
      | item found state' size =>
          have hsize := d.size hnext
          refine item state stream found state' size hnext (ih _ ?_ state' _ rfl)
          rw [List.length_drop]
          omega

/-- Decoding goes on behind what was left. -/
theorem decode_append (state : σ) (stream more : List β) :
    d.decode state (stream ++ more) =
      match (d.decode state stream).2 with
      | none => ((d.decode state stream).1, none)
      | some (state', left) =>
          ((d.decode state stream).1 ++ (d.decode state' (left ++ more)).1,
            (d.decode state' (left ++ more)).2) := by
  induction state, stream using decode_induction (d := d) with
  | waits state stream hnext => rw [decode_waits hnext]; rfl
  | torn state stream hnext => rw [decode_torn hnext]; rfl
  | closes state stream hnext => rw [decode_closes hnext, decode_closes (d.closes_append hnext more)]
  | item state stream item state' size hnext ih =>
      have hsize := d.size hnext
      rw [decode_item hnext, decode_item (d.item_append hnext more),
        List.drop_append_of_le_length hsize.2, ih]
      cases (d.decode state' (stream.drop size)).2 with
      | none => rfl
      | some left => rfl

end Decoder

/-! ### A limit on the messages -/

section Limit

variable (d : Decoder β σ ι) (limit : Nat) (long : ι → Bool)

/-- What a limit on the messages makes of a stream: the messages before the first that is too long, and
whether the stream ends there, or where it is not one of messages, or with more than the limit of a
message that is not complete. -/
def receive (state : σ) (stream : List β) : List ι × Bool :=
  ((d.decode state stream).1.takeWhile fun item => !long item,
    (d.decode state stream).1.any long ||
      ((d.decode state stream).2.map fun behind => decide (limit < behind.2.length)).getD true)

/-- A message of the stream is too long. -/
inductive HasLong : σ → List β → Prop
  | here {state state' : σ} {stream : List β} {item : ι} {size : Nat}
      (hnext : d.next state stream = .item item state' size) (hlong : long item = true) :
      HasLong state stream
  | later {state state' : σ} {stream : List β} {item : ι} {size : Nat}
      (hnext : d.next state stream = .item item state' size) (h : HasLong state' (stream.drop size)) :
      HasLong state stream

variable {d limit long}

theorem not_long_of_receive {state : σ} {stream : List β} {item : ι}
    (h : item ∈ (receive d limit long state stream).1) : long item = false := by
  have hshort := List.mem_takeWhile_imp h
  simpa using hshort

theorem receive_of_hasLong {state : σ} {stream : List β} (h : HasLong d long state stream) :
    (receive d limit long state stream).2 = true := by
  have hany : (d.decode state stream).1.any long = true := by
    induction h with
    | here hnext hlong => rw [Decoder.decode_item hnext, List.any_cons, hlong, Bool.true_or]
    | later hnext h ih => rw [Decoder.decode_item hnext, List.any_cons, ih, Bool.or_true]
  dsimp only [receive]
  rw [hany, Bool.true_or]

/-- Messages that are not too long, and what is received behind them. -/
theorem receive_append {state state' : σ} {stream left : List β} (more : List β)
    (hshort : ∀ item ∈ (d.decode state stream).1, long item = false)
    (hrest : (d.decode state stream).2 = some (state', left)) :
    receive d limit long state (stream ++ more) =
      ((d.decode state stream).1 ++ (receive d limit long state' (left ++ more)).1,
        (receive d limit long state' (left ++ more)).2) := by
  have hany : (d.decode state stream).1.any long = false := by
    simpa using hshort
  have hall : ∀ item ∈ (d.decode state stream).1, (!long item) = true := by
    simpa using hshort
  have hdecode := Decoder.decode_append (d := d) state stream more
  rw [hrest] at hdecode
  dsimp only at hdecode
  rw [receive, hdecode, List.takeWhile_append_of_pos hall, List.any_append, hany, Bool.false_or]
  rfl

theorem receive_closes {state : σ} {stream : List β} (more : List β)
    (hshort : ∀ item ∈ (d.decode state stream).1, long item = false)
    (hrest : (d.decode state stream).2 = none) :
    receive d limit long state (stream ++ more) = ((d.decode state stream).1, true) := by
  have hall : ∀ item ∈ (d.decode state stream).1, (!long item) = true := by
    simpa using hshort
  have hdecode := Decoder.decode_append (d := d) state stream more
  rw [hrest] at hdecode
  dsimp only at hdecode
  rw [receive, hdecode, List.takeWhile_eq_self_iff.mpr hall, Option.map_none, Option.getD_none,
    Bool.or_true]

/-- A stream that does not begin with a message of the right size. -/
theorem receive_stops {state : σ} {stream : List β} (hlength : limit < stream.length)
    (h : ∀ item ∈ (d.next state stream).item?, long item = true) :
    receive d limit long state stream = ([], true) := by
  cases hnext : d.next state stream with
  | waits => simp [receive, Decoder.decode_waits hnext, hlength]
  | torn => simp [receive, Decoder.decode_torn hnext, hlength]
  | closes => simp [receive, Decoder.decode_closes hnext]
  | item found state' size =>
      have hlong : long found = true := by
        apply h
        rw [hnext]
        rfl
      simp [receive, Decoder.decode_item hnext, hlong]

/-- A stream of which all has been decoded that is complete. -/
theorem receive_waits {state : σ} {stream : List β} (hlength : ¬ limit < stream.length)
    (h : d.next state stream = .waits) : receive d limit long state stream = ([], false) := by
  simp [receive, Decoder.decode_waits h, hlength]

/-! ### A limit on what is left -/

variable (d limit)

/-- What a receiver makes of a stream that arrives in pieces, when it only looks at how much it has not
decoded yet: the messages, and whether it has given up. -/
def feed : σ → List β → List (List β) → List ι × Bool
  | _, _, [] => ([], false)
  | state, left, piece :: pieces =>
      match (d.decode state (left ++ piece)).2 with
      | none => ((d.decode state (left ++ piece)).1, true)
      | some (state', left') =>
          if limit < left'.length then ((d.decode state (left ++ piece)).1, true)
          else
            ((d.decode state (left ++ piece)).1 ++ (feed state' left' pieces).1,
              (feed state' left' pieces).2)

/-- No piece ends where it must not. -/
def Whole : σ → List β → List (List β) → Prop
  | _, _, [] => True
  | state, left, piece :: pieces =>
      ∀ behind ∈ (d.decode state (left ++ piece)).2,
        d.next behind.1 behind.2 = .waits ∧
          (¬ limit < behind.2.length → Whole behind.1 behind.2 pieces)

variable (long)

/-- Where the limit is exceeded by what is left, it is by the message as well, and no message that
exceeds it is complete in what is decoded together; no piece ends where it must not. -/
def Checked : σ → List β → List (List β) → Prop
  | _, _, [] => True
  | state, left, piece :: pieces =>
      (∀ item ∈ (d.decode state (left ++ piece)).1, long item = false) ∧
        ∀ behind ∈ (d.decode state (left ++ piece)).2,
          d.next behind.1 behind.2 = .waits ∧
            if limit < behind.2.length then
              ∀ item ∈ (d.next behind.1 (behind.2 ++ pieces.flatten)).item?, long item = true
            else Checked behind.1 behind.2 pieces

instance (found : Found σ ι) : Decidable (found = .waits) :=
  match found with
  | .waits => isTrue rfl
  | .torn | .closes | .item _ _ _ => isFalse nofun

instance Checked.decidable : ∀ (pieces : List (List β)) (state : σ) (left : List β),
    Decidable (Checked d limit long state left pieces)
  | [], _, _ => isTrue trivial
  | piece :: pieces, state, left =>
      have := Checked.decidable pieces
      inferInstanceAs (Decidable ((∀ item ∈ (d.decode state (left ++ piece)).1, long item = false) ∧
        ∀ behind ∈ (d.decode state (left ++ piece)).2,
          d.next behind.1 behind.2 = .waits ∧
            if limit < behind.2.length then
              ∀ item ∈ (d.next behind.1 (behind.2 ++ pieces.flatten)).item?, long item = true
            else Checked d limit long behind.1 behind.2 pieces))

variable {d limit long}

theorem Checked.whole {state : σ} {left : List β} {pieces : List (List β)}
    (h : Checked d limit long state left pieces) : Whole d limit state left pieces := by
  induction pieces generalizing state left with
  | nil => trivial
  | cons piece pieces ih =>
      obtain ⟨-, hrest⟩ := h
      intro behind hbehind
      obtain ⟨hwaits, hcheck⟩ := hrest behind hbehind
      refine ⟨hwaits, fun hlength => ih ?_⟩
      rwa [if_neg hlength] at hcheck

/-- **The limit on what is left.** In pieces for which it checks the messages, it does what a limit on the
messages would do with the whole stream. -/
theorem feed_eq_receive {state : σ} {left : List β} {pieces : List (List β)}
    (h : Checked d limit long state left pieces)
    (hleft : pieces = [] → d.next state left = .waits ∧ ¬ limit < left.length) :
    feed d limit state left pieces = receive d limit long state (left ++ pieces.flatten) := by
  induction pieces generalizing state left with
  | nil =>
      obtain ⟨hwaits, hlength⟩ := hleft rfl
      rw [List.flatten_nil, List.append_nil, receive_waits hlength hwaits, feed]
  | cons piece pieces ih =>
      obtain ⟨hshort, hrest⟩ := h
      rw [List.flatten_cons, ← List.append_assoc, feed]
      cases hdecode : (d.decode state (left ++ piece)).2 with
      | none => exact (receive_closes _ hshort hdecode).symm
      | some behind =>
          obtain ⟨state', left'⟩ := behind
          obtain ⟨hwaits, hcheck⟩ := hrest _ hdecode
          dsimp only at hwaits hcheck ⊢
          rw [receive_append _ hshort hdecode]
          split_ifs at hcheck ⊢ with hlength
          · have hlonger : limit < (left' ++ pieces.flatten).length := by
              rw [List.length_append]
              omega
            rw [receive_stops hlonger hcheck, List.append_nil]
          · rw [ih hcheck fun _ => ⟨hwaits, hlength⟩]

end Limit

end MessageStream
