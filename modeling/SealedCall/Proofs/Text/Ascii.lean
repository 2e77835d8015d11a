import SealedCall.Proofs.Text.Utf8

/-! # ASCII texts

A text of ASCII characters has one octet for each character, and reads back from these octets.
-/

namespace SealedCall.Text

/-- Every code point of the text is an ASCII character. -/
def Ascii (t : Text) : Prop := ∀ point ∈ t, point.value < 0x80

theorem ascii_cons {point : CodePoint} {rest : Text} :
    Ascii (point :: rest) ↔ point.value < 0x80 ∧ Ascii rest :=
  List.forall_mem_cons

/-- The octets of ASCII characters are well-formed, whether surrogates pass or not. -/
theorem decode_ascii (surrogatesPass : Bool) {t : Text} (hascii : Ascii t) :
    Utf8.decode surrogatesPass (t.map fun point => UInt8.ofNat point.value) = some t := by
  induction t with
  | nil => rfl
  | cons point rest ih =>
      obtain ⟨hpoint, hrest⟩ := ascii_cons.mp hascii
      have hplain : point.isSurrogate = false := by
        rw [CodePoint.isSurrogate, CodePoint.within_eq_false_iff]
        omega
      have hone : Utf8.octetsOf point = [UInt8.ofNat point.value] := if_pos hpoint
      rw [List.map_cons, ← List.singleton_append, ← hone,
        Utf8.decode_octetsOf surrogatesPass hplain, ih hrest]
      rfl

theorem decode?_ascii {t : Text} (hascii : Ascii t) :
    Utf8.decode? (t.map fun point => UInt8.ofNat point.value) = some t :=
  decode_ascii false hascii

end SealedCall.Text
