import Mathlib.Data.List.Basic
import Mathlib.Tactic.Ring

/-!
# WebSocket framing

The base framing protocol of RFC 6455, section 5.2, on lists of bytes: what the bits of the two
leading bytes mean, how long a frame is, and which frames a stream starts with. Nothing here refers
to a particular decoder.
-/

namespace WebSocketFrame

/-! ### The fields of a header -/

def fin (b0 : UInt8) : Bool := b0 &&& 0x80 != 0

def rsv1 (b0 : UInt8) : Bool := b0 &&& 0x40 != 0

def rsv23 (b0 : UInt8) : Bool := b0 &&& 0x30 != 0

def opcode (b0 : UInt8) : UInt8 := b0 &&& 0x0f

def masked (b1 : UInt8) : Bool := b1 &&& 0x80 != 0

def length7 (b1 : UInt8) : Nat := (b1 &&& 0x7f).toNat

/-- The size of the extended payload length that follows the two leading bytes. -/
def extendedSize (b1 : UInt8) : Nat :=
  if length7 b1 = 126 then 2 else if length7 b1 = 127 then 8 else 0

def keySize (b1 : UInt8) : Nat := if masked b1 then 4 else 0

def headerSize (b1 : UInt8) : Nat := 2 + extendedSize b1 + keySize b1

/-- A number in network byte order. -/
def bigEndian (bytes : List UInt8) : Nat :=
  bytes.foldl (fun value byte => value * 256 + byte.toNat) 0

/-- The payload length a header declares; `rest` is what follows the two leading bytes. -/
def payloadLength (b1 : UInt8) (rest : List UInt8) : Nat :=
  if extendedSize b1 = 0 then length7 b1 else bigEndian (rest.take (extendedSize b1))

/-- Masking, which is its own inverse: byte `i` is combined with key byte `i mod 4`. -/
def applyKey (key : List UInt8) (data : List UInt8) : List UInt8 :=
  data.mapIdx fun i byte => byte ^^^ key.getD (i % 4) 0

/-- The payload behind a complete header and its key. -/
def payload (b1 : UInt8) (rest : List UInt8) : List UInt8 :=
  let data := (rest.drop (extendedSize b1 + keySize b1)).take (payloadLength b1 rest)
  if masked b1 then applyKey ((rest.drop (extendedSize b1)).take (keySize b1)) data else data

/-- An unfragmented frame with the second and third reserved bits clear. -/
structure Frame where
  compressed : Bool
  opcode : UInt8
  payload : List UInt8
deriving DecidableEq, Repr

/-! ### Reading one frame -/

/-- What a stream starts with. -/
inductive Scan where
  /-- More bytes are needed to tell, or to complete the frame. -/
  | incomplete
  /-- A fragment, or a frame with an unassigned reserved bit. -/
  | invalid
  | frame (frame : Frame) (size : Nat)
deriving DecidableEq, Repr

/-- The payload length read from a header that is cut short does no harm: the bytes missing from the
header alone make the frame incomplete. -/
def scan : List UInt8 → Scan
  | b0 :: b1 :: rest =>
      if !fin b0 || rsv23 b0 then .invalid
      else if rest.length < extendedSize b1 + keySize b1 + payloadLength b1 rest then .incomplete
      else
        .frame { compressed := rsv1 b0, opcode := opcode b0, payload := payload b1 rest }
          (headerSize b1 + payloadLength b1 rest)
  | _ => .incomplete

theorem scan_size {stream : List UInt8} {f : Frame} {size : Nat}
    (h : scan stream = .frame f size) : 2 ≤ size ∧ size ≤ stream.length := by
  match stream with
  | [] | [_] => simp [scan] at h
  | b0 :: b1 :: rest =>
      simp only [scan] at h
      split_ifs at h with hvalid hcomplete
      simp only [Scan.frame.injEq] at h
      obtain ⟨-, rfl⟩ := h
      simp only [headerSize, List.length_cons]
      omega

theorem applyKey_length (key data : List UInt8) : (applyKey key data).length = data.length := by
  simp [applyKey]

/-! ### Reading a stream -/

/-- Where the frame after the first `count` complete frames of a stream starts. -/
def boundary (stream : List UInt8) : Nat → Nat
  | 0 => 0
  | count + 1 =>
      match scan (stream.drop (boundary stream count)) with
      | .frame _ size => boundary stream count + size
      | _ => boundary stream count

theorem boundary_le_length (stream : List UInt8) (count : Nat) :
    boundary stream count ≤ stream.length := by
  induction count with
  | zero => simp [boundary]
  | succ count ih =>
      rw [boundary]
      split
      · rename_i f size hscan
        have := (scan_size hscan).2
        rw [List.length_drop] at this
        omega
      · exact ih

/-! ### Reading on -/

theorem payloadLength_append {b1 : UInt8} {rest : List UInt8} (more : List UInt8)
    (h : extendedSize b1 ≤ rest.length) :
    payloadLength b1 (rest ++ more) = payloadLength b1 rest := by
  rw [payloadLength, payloadLength, List.take_append_of_le_length h]

theorem payload_append {b1 : UInt8} {rest : List UInt8} (more : List UInt8)
    (h : extendedSize b1 + keySize b1 + payloadLength b1 rest ≤ rest.length) :
    payload b1 (rest ++ more) = payload b1 rest := by
  have hkey : keySize b1 ≤ (rest.drop (extendedSize b1)).length := by
    rw [List.length_drop]
    omega
  have hdata : payloadLength b1 rest ≤ (rest.drop (extendedSize b1 + keySize b1)).length := by
    rw [List.length_drop]
    omega
  have hextended : extendedSize b1 ≤ rest.length := by omega
  have hheader : extendedSize b1 + keySize b1 ≤ rest.length := by omega
  rw [payload, payload, payloadLength_append more hextended, List.drop_append_of_le_length hextended,
    List.drop_append_of_le_length hheader, List.take_append_of_le_length hdata,
    List.take_append_of_le_length hkey]

theorem scan_append_frame {stream : List UInt8} {f : Frame} {size : Nat}
    (h : scan stream = .frame f size) (more : List UInt8) : scan (stream ++ more) = .frame f size := by
  match stream with
  | [] | [_] => simp [scan] at h
  | b0 :: b1 :: rest =>
      rw [scan] at h
      rw [List.cons_append, List.cons_append, scan]
      split_ifs at h with hinvalid hshort
      have hcomplete := Nat.le_of_not_lt hshort
      rw [if_neg hinvalid, payloadLength_append more (by omega), payload_append more hcomplete, if_neg]
      · exact h
      · rw [List.length_append]
        omega

/-- A frame is all that its scan looks at. -/
theorem scan_take {stream : List UInt8} {f : Frame} {size : Nat} (h : scan stream = .frame f size) :
    scan (stream.take size) = .frame f size := by
  match stream with
  | [] | [_] => simp [scan] at h
  | b0 :: b1 :: rest =>
      rw [scan] at h
      split_ifs at h with hinvalid hshort
      injection h with hf hsize
      generalize htotal : extendedSize b1 + keySize b1 + payloadLength b1 rest = total at hshort
      obtain ⟨taken, more, hrest, hlength⟩ :
          ∃ taken more, rest = taken ++ more ∧ taken.length = total := by
        refine ⟨rest.take total, rest.drop total, (List.take_append_drop total rest).symm, ?_⟩
        rw [List.length_take]
        omega
      have htake : (b0 :: b1 :: rest).take size = b0 :: b1 :: taken := by
        have hwhole : size = taken.length + 1 + 1 := by
          rw [← hsize, headerSize]
          omega
        rw [hwhole, List.take_succ_cons, List.take_succ_cons, hrest, List.take_left]
      have hdeclared : payloadLength b1 rest = payloadLength b1 taken := by
        rw [hrest, payloadLength_append more (by omega)]
      have hcomplete : extendedSize b1 + keySize b1 + payloadLength b1 taken ≤ taken.length := by
        omega
      rw [htake, scan, if_neg hinvalid, if_neg (by omega), ← hf, ← hsize, ← hdeclared, hrest,
        payload_append more hcomplete]

theorem scan_append_invalid {stream : List UInt8} (h : scan stream = .invalid)
    (more : List UInt8) : scan (stream ++ more) = .invalid := by
  match stream with
  | [] | [_] => simp [scan] at h
  | b0 :: b1 :: rest =>
      rw [scan] at h
      rw [List.cons_append, List.cons_append, scan]
      split_ifs at h with hinvalid
      rw [if_pos hinvalid]

theorem boundary_of_frame {stream : List UInt8} {f : Frame} {size : Nat}
    (h : scan stream = .frame f size) (count : Nat) :
    boundary stream (count + 1) = size + boundary (stream.drop size) count := by
  induction count with
  | zero => simp [boundary, h]
  | succ count ih =>
      rw [boundary, ih, ← List.drop_drop, boundary]
      cases scan ((stream.drop size).drop (boundary (stream.drop size) count)) with
      | frame f' size' => exact Nat.add_assoc _ _ _
      | invalid | incomplete => rfl

theorem boundary_of_not_frame {stream : List UInt8} (h : ∀ f size, scan stream ≠ .frame f size)
    (count : Nat) : boundary stream count = 0 := by
  induction count with
  | zero => rfl
  | succ count ih =>
      rw [boundary, ih, List.drop_zero]
      cases hscan : scan stream with
      | frame f size => exact absurd hscan (h f size)
      | invalid | incomplete => rfl

/-- `p` holds of the stream from each of its frames on. -/
def AllFrames (p : List UInt8 → Prop) (stream : List UInt8) : Prop :=
  ∀ count, p (stream.drop (boundary stream count))

theorem AllFrames.head {p : List UInt8 → Prop} {stream : List UInt8} (h : AllFrames p stream) :
    p stream := h 0

theorem AllFrames.tail {p : List UInt8 → Prop} {stream : List UInt8} {f : Frame} {size : Nat}
    (h : AllFrames p stream) (hscan : scan stream = .frame f size) :
    AllFrames p (stream.drop size) := by
  intro count
  have hcount := h (count + 1)
  rwa [boundary_of_frame hscan, ← List.drop_drop] at hcount

theorem AllFrames.of_frame {p : List UInt8 → Prop} {stream : List UInt8} {f : Frame} {size : Nat}
    (hhead : p stream) (hscan : scan stream = .frame f size) (htail : AllFrames p (stream.drop size)) :
    AllFrames p stream := by
  intro count
  cases count with
  | zero => exact hhead
  | succ count =>
      rw [boundary_of_frame hscan, ← List.drop_drop]
      exact htail count

theorem AllFrames.of_not_frame {p : List UInt8 → Prop} {stream : List UInt8} (hhead : p stream)
    (h : ∀ f size, scan stream ≠ .frame f size) : AllFrames p stream := by
  intro count
  rw [boundary_of_not_frame h]
  exact hhead

theorem AllFrames.of_append {p : List UInt8 → Prop}
    (hp : ∀ stream more, p (stream ++ more) → p stream) {stream more : List UInt8}
    (h : AllFrames p (stream ++ more)) : AllFrames p stream := by
  intro count
  induction count generalizing stream with
  | zero => exact hp stream more h.head
  | succ count ih =>
      cases hscan : scan stream with
      | frame f size =>
          have htail := h.tail (scan_append_frame hscan more)
          rw [List.drop_append_of_le_length (scan_size hscan).2] at htail
          rw [boundary_of_frame hscan, ← List.drop_drop]
          exact ih htail
      | invalid | incomplete =>
          rw [boundary_of_not_frame (by simp [hscan])]
          exact hp stream more h.head

/-- What is asked of the boundaries behind frames that all pass is asked of the beginning, and of the
boundaries behind the first frame if that passes. -/
theorem forall_passed_iff {passes : List UInt8 → Prop} {p : Nat → Prop} {stream : List UInt8} :
    (∀ count, (∀ k < count, passes (stream.drop (boundary stream k))) → p (boundary stream count)) ↔
      p 0 ∧ ∀ f size, scan stream = .frame f size → passes stream →
        ∀ count, (∀ k < count, passes ((stream.drop size).drop (boundary (stream.drop size) k))) →
          p (size + boundary (stream.drop size) count) := by
  constructor
  · intro h
    refine ⟨h 0 (by simp), fun f size hscan hpasses count hcount => ?_⟩
    have hnext := h (count + 1) fun k hk => ?_
    · rwa [boundary_of_frame hscan] at hnext
    · cases k with
      | zero => exact hpasses
      | succ k =>
          rw [boundary_of_frame hscan, ← List.drop_drop]
          exact hcount k (by omega)
  · rintro ⟨hfirst, hnext⟩ count hcount
    cases count with
    | zero => exact hfirst
    | succ count =>
        cases hscan : scan stream with
        | incomplete | invalid =>
            rw [boundary_of_not_frame (by simp [hscan])]
            exact hfirst
        | frame f size =>
            rw [boundary_of_frame hscan]
            refine hnext f size hscan (hcount 0 (Nat.succ_pos count)) count fun k hk => ?_
            have hpass := hcount (k + 1) (Nat.succ_lt_succ hk)
            rwa [boundary_of_frame hscan, ← List.drop_drop] at hpass

/-- The size of the frame a stream begins with, as soon as its header tells. -/
def declaredSize : List UInt8 → Option Nat
  | _ :: b1 :: rest =>
      if extendedSize b1 ≤ rest.length then some (headerSize b1 + payloadLength b1 rest) else none
  | _ => none

theorem declaredSize_append {stream : List UInt8} {size : Nat} (h : declaredSize stream = some size)
    (more : List UInt8) : declaredSize (stream ++ more) = some size := by
  match stream with
  | [] | [_] => simp [declaredSize] at h
  | b0 :: b1 :: rest =>
      rw [declaredSize] at h
      split_ifs at h with hextended
      rw [List.cons_append, List.cons_append, declaredSize, payloadLength_append more hextended,
        if_pos, h]
      rw [List.length_append]
      omega

theorem declaredSize_of_frame {stream : List UInt8} {f : Frame} {size : Nat}
    (h : scan stream = .frame f size) : declaredSize stream = some size := by
  match stream with
  | [] | [_] => simp [scan] at h
  | b0 :: b1 :: rest =>
      rw [scan] at h
      split_ifs at h with hinvalid hshort
      rw [declaredSize, if_pos (by omega)]
      injection h with _ hsize
      rw [hsize]

theorem extendedSize_le (b1 : UInt8) : extendedSize b1 ≤ 8 := by
  unfold extendedSize
  split_ifs <;> omega

/-- An incomplete frame of a bounded size does not take up more than that. -/
theorem length_le_of_incomplete {stream : List UInt8} {limit : Nat} (hlimit : 10 ≤ limit)
    (h : scan stream = .incomplete) (hsize : ∀ size ∈ declaredSize stream, size ≤ limit) :
    stream.length ≤ limit := by
  match stream with
  | [] => simp
  | [_] =>
      rw [List.length_singleton]
      omega
  | b0 :: b1 :: rest =>
      rw [scan] at h
      rw [List.length_cons, List.length_cons]
      split_ifs at h with hinvalid hshort
      by_cases hextended : extendedSize b1 ≤ rest.length
      · have hdeclared := hsize _ (by rw [declaredSize, if_pos hextended]; rfl)
        rw [headerSize] at hdeclared
        omega
      · have := extendedSize_le b1
        omega

/-! ### Writing one frame -/

/-- The ways to write a payload length. -/
inductive LengthForm where
  | short
  | medium
  | long
deriving DecidableEq, Repr

namespace LengthForm

/-- Whether a form can hold a length. -/
def Holds : LengthForm → Nat → Prop
  | .short, length => length < 126
  | .medium, length => length < 2 ^ 16
  | .long, length => length < 2 ^ 64

/-- What the lower bits of the second byte say. -/
def code : LengthForm → Nat → Nat
  | .short, length => length
  | .medium, _ => 126
  | .long, _ => 127

def size : LengthForm → Nat
  | .short => 0
  | .medium => 2
  | .long => 8

end LengthForm

/-- The last `count` bytes of a number in network byte order. -/
def toBigEndian (value : Nat) : Nat → List UInt8
  | 0 => []
  | count + 1 => UInt8.ofNat (value / 256 ^ count) :: toBigEndian value count

def secondByte (code : Nat) (masked : Bool) : UInt8 := UInt8.ofNat code ||| if masked then 0x80 else 0

def maskPayload (key : Option (List UInt8)) (payload : List UInt8) : List UInt8 :=
  match key with
  | some key => applyKey key payload
  | none => payload

/-- An unfragmented frame without compression, masked if there is a key. -/
def encode (opcode : UInt8) (form : LengthForm) (key : Option (List UInt8))
    (payload : List UInt8) : List UInt8 :=
  (0x80 ||| opcode) :: secondByte (form.code payload.length) key.isSome ::
    (toBigEndian payload.length form.size ++ key.getD [] ++ maskPayload key payload)

theorem toBigEndian_length (value count : Nat) : (toBigEndian value count).length = count := by
  induction count with
  | zero => rfl
  | succ count ih => rw [toBigEndian, List.length_cons, ih]

theorem foldl_toBigEndian (start value count : Nat) :
    (toBigEndian value count).foldl (fun value byte => value * 256 + byte.toNat) start =
      start * 256 ^ count + value % 256 ^ count := by
  induction count generalizing start with
  | zero => simp [toBigEndian, Nat.mod_one]
  | succ count ih =>
      have hbyte : (UInt8.ofNat (value / 256 ^ count)).toNat = value / 256 ^ count % 256 :=
        UInt8.toNat_ofNat'
      rw [toBigEndian, List.foldl_cons, ih, hbyte, Nat.pow_succ, Nat.mod_mul]
      ring

theorem bigEndian_toBigEndian {value count : Nat} (h : value < 256 ^ count) :
    bigEndian (toBigEndian value count) = value := by
  rw [bigEndian, foldl_toBigEndian, Nat.mod_eq_of_lt h]
  simp

theorem applyKey_applyKey (key data : List UInt8) : applyKey key (applyKey key data) = data := by
  refine List.ext_getElem (by rw [applyKey_length, applyKey_length]) fun i _ _ => ?_
  simp only [applyKey, List.getElem_mapIdx]
  rw [UInt8.xor_assoc, UInt8.xor_self, UInt8.xor_zero]

theorem firstByte_fields {op : UInt8} (h : op.toNat < 16) :
    fin (0x80 ||| op) = true ∧ rsv1 (0x80 ||| op) = false ∧ rsv23 (0x80 ||| op) = false ∧
      opcode (0x80 ||| op) = op := by
  have hall : ∀ n : Fin 16,
      fin (0x80 ||| UInt8.ofNat n.val) = true ∧ rsv1 (0x80 ||| UInt8.ofNat n.val) = false ∧
        rsv23 (0x80 ||| UInt8.ofNat n.val) = false ∧
        opcode (0x80 ||| UInt8.ofNat n.val) = UInt8.ofNat n.val := by decide
  have hop := hall ⟨op.toNat, h⟩
  rwa [UInt8.ofNat_toNat] at hop

theorem secondByte_fields {code : Nat} (h : code < 128) (bit : Bool) :
    length7 (secondByte code bit) = code ∧ masked (secondByte code bit) = bit := by
  have hall : ∀ (n : Fin 128) (bit : Bool),
      length7 (secondByte n.val bit) = n.val ∧ masked (secondByte n.val bit) = bit := by
    decide +kernel
  exact hall ⟨code, h⟩ bit

theorem LengthForm.code_lt {form : LengthForm} {length : Nat} (h : form.Holds length) :
    form.code length < 128 := by
  cases form with
  | short => exact Nat.lt_trans h (by decide)
  | medium => exact show 126 < 128 by decide
  | long => exact show 127 < 128 by decide

theorem extendedSize_secondByte {form : LengthForm} {length : Nat} (h : form.Holds length)
    (bit : Bool) : extendedSize (secondByte (form.code length) bit) = form.size := by
  rw [extendedSize, (secondByte_fields (LengthForm.code_lt h) bit).1]
  cases form with
  | short =>
      have hlength : length < 126 := h
      rw [LengthForm.code, if_neg (by omega), if_neg (by omega)]
      rfl
  | medium | long => rfl

theorem payloadLength_encode {form : LengthForm} {length : Nat} (h : form.Holds length) (bit : Bool)
    (rest : List UInt8) :
    payloadLength (secondByte (form.code length) bit) (toBigEndian length form.size ++ rest) =
      length := by
  rw [payloadLength, extendedSize_secondByte h]
  have htake : (toBigEndian length form.size ++ rest).take form.size =
      toBigEndian length form.size := by
    rw [List.take_append_of_le_length (toBigEndian_length _ _).ge, List.take_of_length_le]
    exact (toBigEndian_length _ _).le
  cases form with
  | short => exact (secondByte_fields (LengthForm.code_lt h) bit).1
  | medium | long =>
      rw [htake, if_neg (by decide)]
      exact bigEndian_toBigEndian (by simpa [LengthForm.size, LengthForm.Holds] using h)

theorem maskPayload_length (key : Option (List UInt8)) (data : List UInt8) :
    (maskPayload key data).length = data.length := by
  cases key with
  | none => rfl
  | some bytes => exact applyKey_length bytes data

theorem keySize_secondByte {form : LengthForm} {length : Nat} {key : Option (List UInt8)}
    (h : form.Holds length) (hkey : ∀ bytes ∈ key, bytes.length = 4) :
    keySize (secondByte (form.code length) key.isSome) = (key.getD []).length := by
  rw [keySize, (secondByte_fields (LengthForm.code_lt h) key.isSome).2]
  cases key with
  | none => rfl
  | some bytes => exact (hkey bytes rfl).symm

theorem payload_encode {form : LengthForm} {data : List UInt8} {key : Option (List UInt8)}
    (hform : form.Holds data.length) (hkey : ∀ bytes ∈ key, bytes.length = 4) (rest : List UInt8) :
    payload (secondByte (form.code data.length) key.isSome)
      (toBigEndian data.length form.size ++ (key.getD [] ++ (maskPayload key data ++ rest))) =
      data := by
  have hsize := toBigEndian_length data.length form.size
  have hmasked := (secondByte_fields (LengthForm.code_lt hform) key.isSome).2
  have hlength := payloadLength_encode hform key.isSome (key.getD [] ++ (maskPayload key data ++ rest))
  have hdrop : ∀ tail, (toBigEndian data.length form.size ++ tail).drop form.size = tail := by
    intro tail
    rw [List.drop_append_of_le_length hsize.ge, List.drop_eq_nil_of_le hsize.le]
    rfl
  rw [payload, extendedSize_secondByte hform, keySize_secondByte hform hkey, hlength, hmasked,
    ← List.drop_drop, hdrop, List.drop_left, List.take_left]
  have htake : (maskPayload key data ++ rest).take data.length = maskPayload key data := by
    rw [← maskPayload_length key data, List.take_left]
  rw [htake]
  cases key with
  | none => rfl
  | some bytes => exact applyKey_applyKey bytes data

/-- A stream that begins with an encoded frame begins with that frame. -/
theorem scan_encode {op : UInt8} {form : LengthForm} {key : Option (List UInt8)}
    {data : List UInt8} (hop : op.toNat < 16) (hform : form.Holds data.length)
    (hkey : ∀ bytes ∈ key, bytes.length = 4) (rest : List UInt8) :
    scan (encode op form key data ++ rest) =
      .frame { compressed := false, opcode := op, payload := data }
        (encode op form key data).length := by
  obtain ⟨hfin, hrsv1, hrsv23, hopcode⟩ := firstByte_fields hop
  have hsize := toBigEndian_length data.length form.size
  have hmask := maskPayload_length key data
  rw [encode, List.cons_append, List.cons_append, List.append_assoc, List.append_assoc, scan, hfin,
    hrsv23, if_neg (by simp), payloadLength_encode hform, payload_encode hform hkey, headerSize,
    extendedSize_secondByte hform, keySize_secondByte hform hkey, hrsv1, hopcode]
  have hcomplete : ¬ (toBigEndian data.length form.size ++
      (key.getD [] ++ (maskPayload key data ++ rest))).length
        < form.size + (key.getD []).length + data.length := by
    simp only [List.length_append]
    omega
  rw [if_neg hcomplete]
  simp only [List.length_cons, List.length_append, hsize, hmask, Scan.frame.injEq, true_and]
  omega

end WebSocketFrame
