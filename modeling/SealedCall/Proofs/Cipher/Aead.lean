import SealedCall.Cipher.Aead

/-! # What decryption accepts

Concealing works octet by octet with a keystream that is long enough, so doing it twice gives the
plaintext back. A ciphertext is therefore accepted exactly when it is the encryption of the
plaintext that it is opened to, and a body is accepted with one tag only.
-/

namespace SealedCall

namespace ChaCha20

theorem length_block (key nonce : Octets) (counter : Nat) :
    (block key nonce counter).length = 64 := rfl

theorem length_blocks (key nonce : Octets) (counter count : Nat) :
    (blocks key nonce counter count).length = 64 * count := by
  induction count generalizing counter with
  | zero => rfl
  | succ count ih =>
      rw [blocks, List.length_append, length_block, ih]
      omega

theorem length_keystream_le (key nonce : Octets) (counter length : Nat) :
    length ≤ (blocks key nonce counter ((length + 63) / 64)).length := by
  rw [length_blocks]
  omega

theorem zipWith_xor_cancel {octets keystream : Octets}
    (hlength : octets.length ≤ keystream.length) :
    (octets.zipWith (· ^^^ ·) keystream).zipWith (· ^^^ ·) keystream = octets := by
  induction octets generalizing keystream with
  | nil => rfl
  | cons octet rest ih =>
      cases keystream with
      | nil => simp at hlength
      | cons mask masks =>
          simp only [List.length_cons, Nat.add_le_add_iff_right] at hlength
          simp only [List.zipWith_cons_cons, UInt8.xor_assoc, UInt8.xor_self, UInt8.xor_zero]
          rw [ih hlength]

theorem length_apply (key nonce : Octets) (counter : Nat) (octets : Octets) :
    (apply key nonce counter octets).length = octets.length := by
  rw [apply, List.length_zipWith]
  exact Nat.min_eq_left (length_keystream_le key nonce counter octets.length)

/-- Applying the keystream twice gives the octets back. -/
theorem apply_apply (key nonce : Octets) (counter : Nat) (octets : Octets) :
    apply key nonce counter (apply key nonce counter octets) = octets := by
  rw [apply, length_apply, apply]
  exact zipWith_xor_cancel (length_keystream_le key nonce counter octets.length)

end ChaCha20

theorem Poly1305.length_octetsOf (count n : Nat) : (octetsOf count n).length = count := by
  induction count generalizing n with
  | zero => rfl
  | succ count ih => rw [octetsOf, List.length_cons, ih]

namespace Aead

theorem length_tag (key nonce associated body : Octets) :
    (tag key nonce associated body).length = tagLength := by
  rw [tag, Poly1305.tag, Poly1305.length_octetsOf, tagLength]

theorem encrypt_ne_nil (key nonce associated plaintext : Octets) :
    encrypt key nonce associated plaintext ≠ [] := by
  intro hnil
  have hlength := congrArg List.length hnil
  rw [encrypt, List.length_append, length_tag, tagLength, List.length_nil] at hlength
  omega

theorem conceal_conceal (key nonce octets : Octets) :
    conceal key nonce (conceal key nonce octets) = octets :=
  ChaCha20.apply_apply _ _ 1 octets

/-- A body with sixteen octets behind it is accepted when these are its tag. -/
theorem decrypt_append (key nonce associated body : Octets) {offered : Octets}
    (hoffered : offered.length = tagLength) :
    decrypt key nonce associated (body ++ offered) =
      if offered = tag key nonce associated body then .ok (conceal key nonce body)
      else .error .tagMismatch := by
  have hlength : (body ++ offered).length - tagLength = body.length := by
    rw [List.length_append]
    omega
  rw [decrypt, if_neg (by rw [List.length_append]; omega), hlength]
  simp only [List.take_left, List.drop_left]

/-- Every ciphertext that is long enough is a body with sixteen octets behind it. -/
theorem exists_append_of_length {ciphertext : Octets} (hlength : tagLength ≤ ciphertext.length) :
    ∃ body offered, ciphertext = body ++ offered ∧ offered.length = tagLength := by
  refine ⟨ciphertext.take (ciphertext.length - tagLength),
    ciphertext.drop (ciphertext.length - tagLength), (List.take_append_drop _ _).symm, ?_⟩
  rw [List.length_drop]
  omega

/-- Decryption accepts exactly the encryptions, and gives back what was encrypted. -/
theorem decrypt_eq_ok_iff {key nonce associated ciphertext plaintext : Octets} :
    decrypt key nonce associated ciphertext = .ok plaintext ↔
      ciphertext = encrypt key nonce associated plaintext := by
  constructor
  · intro hdecrypt
    by_cases hlength : ciphertext.length < tagLength
    · rw [decrypt, if_pos hlength] at hdecrypt
      cases hdecrypt
    -- the last sixteen octets are compared whole, so they are the tag of the rest
    · obtain ⟨body, offered, rfl, hoffered⟩ :=
        exists_append_of_length (Nat.not_lt.mp hlength)
      rw [decrypt_append key nonce associated body hoffered] at hdecrypt
      split at hdecrypt
      · next htag =>
          cases hdecrypt
          rw [encrypt, conceal_conceal, htag]
      · cases hdecrypt
  · rintro rfl
    rw [encrypt, decrypt_append _ _ _ _ (length_tag _ _ _ _), if_pos rfl, conceal_conceal]

/-- Decryption refuses for its length exactly what has no room for a tag. -/
theorem decrypt_eq_shorterThanTag_iff {key nonce associated ciphertext : Octets} :
    decrypt key nonce associated ciphertext = .error .shorterThanTag ↔
      ciphertext.length < tagLength := by
  rw [decrypt]
  split
  · next hshort => exact ⟨fun _ => hshort, fun _ => rfl⟩
  · next hlong =>
      refine ⟨fun hdecrypt => ?_, fun hshort => absurd hshort hlong⟩
      simp only at hdecrypt
      split at hdecrypt
      · cases hdecrypt
      · cases hdecrypt

end Aead

end SealedCall
