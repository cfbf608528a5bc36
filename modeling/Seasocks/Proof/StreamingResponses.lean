import Mathlib.Data.List.Infix
import Seasocks.StreamingResponse

/-!
# What a streaming response writes

Every turn of the loop either takes a whole buffer from the stream or is the last one, so the loop ends,
and the payloads are the content cut into pieces.
-/

namespace Seasocks

namespace IStream

/-- A stream from which everything can be read. -/
structure Complete (stream : IStream) : Prop where
  good : stream.good = true
  lost : stream.lost = none

variable {stream : IStream} {n : Nat}

theorem read_bad (h : stream.good = false) : stream.read n = ([], { stream with failbit := true }) := by
  rw [read, h, Bool.not_false, if_pos rfl]

theorem read_full (h : stream.good = true) (hn : n ≤ stream.ready.length) :
    stream.read n = (stream.ready.take n, { stream with ready := stream.ready.drop n }) := by
  rw [read, h, Bool.not_true, if_neg Bool.false_ne_true, if_pos hn]

theorem read_lost (h : stream.good = true) (hn : stream.ready.length < n) (hlost : stream.lost ≠ none) :
    stream.read n = ([], { stream with ready := [], badbit := true }) := by
  rw [read, h, Bool.not_true, if_neg Bool.false_ne_true, if_neg (by omega), if_pos]
  exact Option.isSome_iff_ne_none.mpr hlost

theorem read_end (h : stream.good = true) (hn : stream.ready.length < n) (hlost : stream.lost = none) :
    stream.read n = (stream.ready, { stream with ready := [], eofbit := true, failbit := true }) := by
  rw [read, h, Bool.not_true, if_neg Bool.false_ne_true, if_neg (by omega), if_neg]
  simp [hlost]

end IStream

namespace StreamingResponse

variable {bufSize : Nat} {flush : Bool}

/-- What the loop has done when it ends. -/
structure Copies (bufSize : Nat) (stream : IStream) (payloads : List Bytes) : Prop where
  fit : ∀ data ∈ payloads, data.length ≤ bufSize
  isPrefix : payloads.flatten <+: stream.content
  all : stream.Complete → payloads.flatten = stream.content

theorem copy_closed (fuel : Nat) (stream : IStream) :
    copy bufSize flush fuel true stream = some ([], stream) := by
  cases fuel <;> rfl

/-- The turn on which the stream is not good any more. -/
theorem copy_last {stream next : IStream} {buffer : Bytes} (hread : stream.read bufSize = (buffer, next))
    (hgood : next.good = false) {fuel : Nat} (hfuel : 0 < fuel) :
    copy bufSize flush fuel false stream =
      some ((if next.eof then [buffer] else []).map (.payload · flush), next) := by
  obtain ⟨fuel, rfl⟩ := Nat.exists_eq_add_one.mpr hfuel
  rw [copy, hread]
  dsimp only
  rw [hgood, Bool.not_false, copy_closed, Option.map_some, Bool.false_or, List.append_nil]
  split_ifs <;> rfl

/-- A turn on which a buffer is filled. -/
theorem copy_turn {stream next : IStream} {buffer : Bytes} (hread : stream.read bufSize = (buffer, next))
    (hgood : next.good = true) (fuel : Nat) :
    copy bufSize flush (fuel + 1) false stream =
      (copy bufSize flush fuel false next).map fun done => (.payload buffer flush :: done.1, done.2) := by
  rw [copy, hread]
  dsimp only
  rw [hgood, Bool.not_true, Bool.true_or, if_pos rfl]
  rfl

theorem Copies.cons {stream : IStream} {payloads : List Bytes}
    (h : Copies bufSize { stream with ready := stream.ready.drop bufSize } payloads) :
    Copies bufSize stream (stream.ready.take bufSize :: payloads) := by
  have hcontent : stream.content =
      stream.ready.take bufSize ++ IStream.content { stream with ready := stream.ready.drop bufSize } := by
    rw [IStream.content, IStream.content, ← List.append_assoc, List.take_append_drop]
  constructor
  · rw [List.forall_mem_cons]
    exact ⟨List.length_take_le _ _, h.fit⟩
  · rw [hcontent, List.flatten_cons]
    exact (List.prefix_append_right_inj _).mpr h.isPrefix
  · intro hcomplete
    rw [hcontent, List.flatten_cons, h.all ⟨hcomplete.good, hcomplete.lost⟩]

/-- Nothing is lost by a last turn on a stream that is not complete. -/
theorem Copies.empty {stream : IStream} {payloads : List Bytes} (hempty : payloads.flatten = [])
    (h : ¬stream.Complete) : Copies bufSize stream payloads where
  fit data hdata := by
    rw [List.flatten_eq_nil_iff.mp hempty data hdata]
    exact Nat.zero_le _
  isPrefix := hempty ▸ List.nil_prefix
  all hcomplete := absurd hcomplete h

/-- The end of the file is reported together with the last characters. -/
theorem Copies.end {stream : IStream} (hn : stream.ready.length < bufSize) (hlost : stream.lost = none) :
    Copies bufSize stream [stream.ready] := by
  have hcontent : [stream.ready].flatten = stream.content := by
    rw [IStream.content, hlost, Option.getD_none, List.append_nil, List.flatten_singleton]
  constructor
  · simpa using hn.le
  · rw [hcontent]
  · exact fun _ => hcontent

/-- The loop ends with these payloads, given a turn for every character and one more. -/
def EndsWith (bufSize : Nat) (flush : Bool) (stream : IStream) (payloads : List Bytes) (last : IStream) :
    Prop :=
  ∀ fuel, stream.ready.length < fuel →
    copy bufSize flush fuel false stream = some (payloads.map (.payload · flush), last)

theorem endsWith_last {stream next : IStream} {buffer : Bytes}
    (hread : stream.read bufSize = (buffer, next)) (hgood : next.good = false) :
    EndsWith bufSize flush stream (if next.eof then [buffer] else []) next := by
  intro fuel hfuel
  exact copy_last hread hgood (Nat.zero_lt_of_lt hfuel)

/-- A buffer of at least one character is filled only as often as there are characters. -/
theorem copy_spec (hsize : 1 ≤ bufSize) (flush : Bool) (stream : IStream) :
    ∃ payloads last,
      EndsWith bufSize flush stream payloads last ∧ Copies bufSize stream payloads := by
  obtain ⟨length, hlength⟩ : ∃ length, stream.ready.length = length := ⟨_, rfl⟩
  induction length using Nat.strongRecOn generalizing stream with
  | ind length ih =>
      by_cases hgood : stream.good = true
      · by_cases hn : bufSize ≤ stream.ready.length
        · have hshorter : (stream.ready.drop bufSize).length < length := by
            rw [List.length_drop]
            omega
          obtain ⟨payloads, last, hends, hcopies⟩ :=
            ih _ hshorter { stream with ready := stream.ready.drop bufSize } rfl
          refine ⟨stream.ready.take bufSize :: payloads, last, fun fuel hfuel => ?_, hcopies.cons⟩
          obtain ⟨fuel, rfl⟩ := Nat.exists_eq_add_one.mpr (Nat.zero_lt_of_lt hfuel)
          have hmore : (stream.ready.drop bufSize).length < fuel := by omega
          rw [copy_turn (IStream.read_full hgood hn) hgood, hends fuel hmore]
          rfl
        · have hshort : stream.ready.length < bufSize := by omega
          by_cases hlost : stream.lost = none
          · refine ⟨_, _, endsWith_last (IStream.read_end hgood hshort hlost) (by simp [IStream.good]), ?_⟩
            exact Copies.end hshort hlost
          · refine ⟨_, _, endsWith_last (IStream.read_lost hgood hshort hlost) (by simp [IStream.good]), ?_⟩
            exact Copies.empty (by simp) fun hcomplete => hlost hcomplete.lost
      · have hbad := Bool.eq_false_of_not_eq_true hgood
        refine ⟨_, _, endsWith_last (IStream.read_bad hbad) (by simp [IStream.good]), ?_⟩
        exact Copies.empty (by split_ifs <;> rfl) fun hcomplete => hgood hcomplete.good

/-- A fresh response makes one `begin`, one `header` for each entry, then the payloads and one `finish`.
The payloads are what the stream delivers, in pieces that fit the buffer: the whole content when the
stream is good and comes to its end. -/
theorem handle_streams (response : StreamingResponse) (hfresh : response.closed = false)
    (hsize : 1 ≤ response.getBufferSize) :
    ∃ (payloads : List Bytes) (done : StreamingResponse),
      (∀ fuel, response.getStream.ready.length < fuel →
        response.handle fuel =
          some (.begin response.responseCode response.transferEncoding
              :: response.getHeaders.entries.map (fun header => .header header.1 header.2)
              ++ payloads.map (.payload · response.flushInstantly)
              ++ [.finish response.keepConnectionAlive], done)) ∧
      (∀ data ∈ payloads, data.length ≤ response.getBufferSize) ∧
      payloads.flatten <+: response.getStream.content ∧
      (response.getStream.Complete → payloads.flatten = response.getStream.content) := by
  obtain ⟨payloads, last, hends, hcopies⟩ :=
    copy_spec hsize response.flushInstantly response.getStream
  refine ⟨payloads, { response with getStream := last, closed := true }, fun fuel hfuel => ?_,
    hcopies.fit, hcopies.isPrefix, hcopies.all⟩
  rw [handle, hfresh, hends fuel hfuel]
  rfl

/-- A response that writes `abcde` through a buffer of two characters. -/
def sample : SimpleResponse :=
  { responseCode := .ok
    stream := { ready := ascii "abcde", lost := none, eofbit := false, failbit := false, badbit := false }
    headers := Multimap.empty.insert (ascii "X-Part", ascii "1")
    bufferSize := 2 }

theorem handle_streams_sample :
    let response := sample.streaming
    ∃ (payloads : List Bytes) (done : StreamingResponse),
      (∀ fuel, response.getStream.ready.length < fuel →
        response.handle fuel =
          some (.begin response.responseCode response.transferEncoding
              :: response.getHeaders.entries.map (fun header => .header header.1 header.2)
              ++ payloads.map (.payload · response.flushInstantly)
              ++ [.finish response.keepConnectionAlive], done)) ∧
      (∀ data ∈ payloads, data.length ≤ response.getBufferSize) ∧
      payloads.flatten <+: response.getStream.content ∧
      (response.getStream.Complete → payloads.flatten = response.getStream.content) :=
  handle_streams sample.streaming rfl (by decide)

example : (sample.streaming.handle 6).map (fun done => done.1) =
    some [.begin .ok .raw, .header (ascii "X-Part") (ascii "1"), .payload (ascii "ab") false,
      .payload (ascii "cd") false, .payload (ascii "e") false, .finish true] := by
  decide +kernel

/-- A response that has been cancelled sends no content, but is finished. -/
theorem handle_cancel (response : StreamingResponse) (fuel : Nat) :
    response.cancel.handle fuel =
      some (.begin response.responseCode response.transferEncoding
          :: response.getHeaders.entries.map (fun header => .header header.1 header.2)
          ++ [.finish response.keepConnectionAlive], response.cancel) := by
  rw [handle, cancel, copy_closed, Option.map_some, List.append_nil]

end StreamingResponse

end Seasocks
