import Seasocks.Digests
import Seasocks.HybiAccept
import Seasocks.Proof.Base64
import Seasocks.Proof.Md5
import Seasocks.Proof.Sha1

/-!
# The digests of the handshakes

What the server answers a key with is the digest the protocol asks for, in the encoding it asks for.
-/

namespace Seasocks

theorem Sha1.Words.bytes_eq {hash : Sha1.Words} {message : Bytes}
    (h : hash.registers = Fips180.sha1.hash message) : hash.bytes = Fips180.digest message := by
  rw [Fips180.digest, ← h]
  rfl

/-- The hash of a string whose length an `unsigned` can hold. -/
theorem acceptHash_eq {hasher : Sha1} (hblock : hasher.messageBlock.length = 64) {fullString : Bytes}
    (hlength : fullString.length < 2 ^ 32) : acceptHash hasher fullString = Fips180.digest fullString := by
  have hfresh : hasher.reset.Means (.reading []) := Sha1.reads_reset hblock
  have hshort : 8 * ([] ++ fullString).length < 2 ^ 64 := by
    rw [List.nil_append]
    omega
  have hread := hfresh.input fullString
  rw [Sha1.Meaning.input, if_pos hshort, List.nil_append] at hread
  obtain ⟨hresult, -⟩ := hread.result
  rw [acceptHash, Nat.mod_eq_of_lt hlength, List.take_length]
  cases hhash : (hasher.reset.input fullString).result.1 with
  | none =>
      rw [hhash] at hresult
      cases hresult
  | some hash =>
      rw [hhash] at hresult
      injection hresult with hsome
      injection hsome with hregisters
      exact Sha1.Words.bytes_eq hregisters

theorem key3Digest_eq {md5state : Md5State} (hbuf : md5state.buf.length = 64) (md5Source : Bytes) :
    key3Digest md5state md5Source = Rfc1321.digest md5Source :=
  ((Md5State.reads_init hbuf).append md5Source).finish

/-- The key that accepts a challenge is the Base64 text of the SHA-1 of the challenge and the magic string,
and the answer to a Hixie handshake is an MD5, whatever the objects were on the stack. -/
theorem handshake_digests (w : World) {hasher : Sha1} (hblock : hasher.messageBlock.length = 64)
    {md5state : Md5State} (hbuf : md5state.buf.length = 64) :
    (∀ challenge, (challenge ++ magicString).length < 2 ^ 32 →
      getAcceptKey (w.withDigests hasher md5state) challenge
        = Base64.encode (Fips180.digest (challenge ++ magicString))) ∧
    ∀ md5Source, (w.withDigests hasher md5state).md5 md5Source = Rfc1321.digest md5Source := by
  refine ⟨fun challenge hlength => ?_, fun md5Source => key3Digest_eq hbuf md5Source⟩
  have hhash : (w.withDigests hasher md5state).sha1 (challenge ++ magicString)
      = Fips180.digest (challenge ++ magicString) := acceptHash_eq hblock hlength
  rw [getAcceptKey, hhash, base64Encode_eq]

theorem handshake_digests_sample :
    getAcceptKey (World.plain.withDigests ⟨0, 0, List.replicate 64 7, 3, true, true, ⟨1, 2, 3, 4, 5⟩⟩
        ⟨9, 0, ⟨1, 2, 3, 4⟩, List.replicate 64 7⟩) (ascii "dGhlIHNhbXBsZSBub25jZQ==")
      = Base64.encode (Fips180.digest (ascii "dGhlIHNhbXBsZSBub25jZQ==" ++ magicString)) :=
  (handshake_digests World.plain (List.length_replicate ..) (List.length_replicate ..)).1 _ (by decide)

end Seasocks
