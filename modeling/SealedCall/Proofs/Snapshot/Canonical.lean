import SealedCall.Proofs.Json.Compact
import SealedCall.Proofs.Snapshot.Restored

/-! # The canonical encoding

Captured values that differ only in the order of dictionary entries have one encoding. It can be
looked at as a text: its octets are printable ASCII characters, and blanks stand in its strings
alone.
-/

namespace SealedCall.Snapshot

open Value

/-- The characters that octets are when each is one. -/
def characters (octets : Octets) : Text := octets.map CodePoint.ofOctet

theorem characters_asciiOctets {t : Text} (hascii : t.Ascii) : characters (asciiOctets t) = t := by
  have hback : ∀ point ∈ t, CodePoint.ofOctet (UInt8.ofNat point.value) = point := by
    intro point hmem
    have hvalue := hascii point hmem
    apply CodePoint.eq_of_value
    exact Nat.mod_eq_of_lt (by omega)
  rw [characters, asciiOctets, List.map_map]
  exact (List.map_congr_left hback).trans (List.map_id t)

/-- The characters of an encoding are compact. -/
theorem compact_of_encode {values : Snapshot} {written : Octets}
    (hencode : encode values = .ok written) : Json.Compact (characters written) := by
  obtain ⟨hpasses, text, hprint, rfl⟩ := encode_eq_ok hencode
  have hcompact := Json.compact_print (textKeyed_of_passes hpasses) hprint
  rw [characters_asciiOctets hcompact.printable.ascii]
  exact hcompact

/-- Values that are alike up to the order of dictionary entries have the same encoding, which
consists of printable ASCII characters, closes all its strings, and has no blank outside of
them. -/
theorem encoding_canonical {values : Snapshot} {written : Octets}
    (hencode : encode values = .ok written) :
    (∀ others rewritten, (∀ value ∈ values, value.Everywhere KeysDiffer) →
      AlikeAll values others → encode others = .ok rewritten → rewritten = written) ∧
    (∀ octet ∈ written, 0x20 ≤ octet.toNat ∧ octet.toNat ≤ 0x7E) ∧
    Json.Place.outside.behind (characters written) = .outside ∧
    ∀ point ∈ Json.unquoted .outside (characters written), point.isBlank = false := by
  have hcompact := compact_of_encode hencode
  refine ⟨?_, ?_, hcompact.closed, hcompact.unspaced⟩
  · intro others rewritten hdiffer halike hothers
    exact (encode_of_alike halike hdiffer hencode hothers).symm
  · intro octet hmem
    exact CodePoint.within_iff.mp (hcompact.printable _ (List.mem_map_of_mem hmem))

theorem everywhere_text {holds : Value → Prop} {t : Text} :
    Everywhere holds (.text t) ↔ holds (.text t) := by
  rw [everywhere_iff]
  exact and_iff_left True.intro

/-- A dictionary with another one in it, and a text with blanks. -/
def entered : Snapshot :=
  [.dict [(Value.ofString "b", .dict [(Value.ofString "y", .text []),
      (Value.ofString "x", Value.ofString "1")]),
    (Value.ofString "a", Value.ofString "é and è")]]

/-- The same entries, inserted in another order on both levels. -/
def reentered : Snapshot :=
  [.dict [(Value.ofString "a", Value.ofString "é and è"),
    (Value.ofString "b", .dict [(Value.ofString "x", Value.ofString "1"),
      (Value.ofString "y", .text [])])]]

/-- The two orders of entries have one encoding. -/
theorem encoding_canonical_sample : ∃ written,
    (∀ value ∈ entered, value.Everywhere KeysDiffer) ∧ AlikeAll entered reentered ∧
      encode entered = .ok written ∧ encode reentered = .ok written ∧
      ∀ octet ∈ written, 0x20 ≤ octet.toNat ∧ octet.toNat ≤ 0x7E := by
  have hdiffer : ∀ value ∈ entered, value.Everywhere KeysDiffer := by
    have hkeys : Text.of "b" ≠ Text.of "a" ∧ Text.of "y" ≠ Text.of "x" := by decide
    simp [entered, Value.ofString, everywhere_dict, everywhere_text, KeysDiffer, equal_text, hkeys]
  have halike : AlikeAll entered reentered := by
    refine ⟨⟨rfl, ⟨_, .tail _ (.head _), rfl, rfl, ?_, ?_, trivial⟩, ⟨_, .head _, rfl, rfl⟩,
      trivial⟩, trivial⟩
    · exact ⟨_, .tail _ (.head _), rfl, rfl⟩
    · exact ⟨_, .head _, rfl, rfl⟩
  have hform : ∀ value ∈ entered, value.Everywhere HasJsonForm := by
    simp [entered, Value.ofString, everywhere_dict, everywhere_text, HasJsonForm]
  have hformAgain : ∀ value ∈ reentered, value.Everywhere HasJsonForm := by
    simp [reentered, Value.ofString, everywhere_dict, everywhere_text, HasJsonForm]
  obtain ⟨written, hencode⟩ := (encodes_iff (by decide)).mpr hform
  obtain ⟨rewritten, hagain⟩ := (encodes_iff (by decide)).mpr hformAgain
  obtain ⟨hsame, hprintable, -⟩ := encoding_canonical hencode
  obtain rfl := hsame reentered rewritten hdiffer halike hagain
  exact ⟨rewritten, hdiffer, halike, hencode, hagain, hprintable⟩

end SealedCall.Snapshot
