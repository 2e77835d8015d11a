import SealedCall.Proofs.Json.Canonical
import SealedCall.Proofs.Json.Derived
import SealedCall.Proofs.Json.ReadData
import SealedCall.Proofs.Snapshot.Language

/-! # Restored values can be sealed again

Values that octets decode to are encoded again unless one of the numbers in them is not finite, and
then they come back alike and have the same encoding. So however the octets were spelled, one
decoding and encoding brings them to the canonical form, which stays as it is.
-/

namespace SealedCall

namespace Value

/-- Whether the value is no number that is infinite or none at all. -/
def IsFinite (v : Value) : Prop := ∀ x, v = .float x → x.isFinite = true

/-- Of what a text can stand for, only a number that is not finite has no JSON form. -/
theorem hasJsonForm_iff_isFinite {v : Value} (hrestored : IsRestored v) :
    HasJsonForm v ↔ IsFinite v := by
  cases v with
  | float x => exact ⟨fun hform _ hx => (float.inj hx) ▸ hform, fun hfinite => hfinite x rfl⟩
  | int n => exact ⟨fun _ => nofun, fun _ => hrestored⟩
  | dict entries => exact ⟨fun _ => nofun, fun _ => hrestored.1⟩
  | null => exact ⟨fun _ => nofun, fun _ => True.intro⟩
  | bool b => exact ⟨fun _ => nofun, fun _ => True.intro⟩
  | text t => exact ⟨fun _ => nofun, fun _ => True.intro⟩
  | list items => exact ⟨fun _ => nofun, fun _ => True.intro⟩
  | bytes octets => exact hrestored.elim
  | byteArray octets => exact hrestored.elim
  | tuple items => exact hrestored.elim
  | foreign kind => exact hrestored.elim

namespace Everywhere

variable {v : Value}

theorem hasJsonForm_iff (hrestored : v.Everywhere IsRestored) :
    v.Everywhere HasJsonForm ↔ v.Everywhere IsFinite :=
  forall₂_congr fun part hpart => hasJsonForm_iff_isFinite (hrestored part hpart)

theorem textKeyed (hrestored : v.Everywhere IsRestored) : v.Everywhere TextKeyed := by
  rintro part hpart entries rfl
  exact (hrestored _ hpart).1

theorem keysDiffer (hrestored : v.Everywhere IsRestored) : v.Everywhere KeysDiffer := by
  rintro part hpart entries rfl
  exact (hrestored _ hpart).2

theorem pairFree (hrestored : v.Everywhere IsRestored) : v.Everywhere PairFree := by
  rintro part hpart t rfl
  exact hrestored _ hpart

end Everywhere

/-- What is alike to a value of finite numbers has only finite numbers in it. -/
theorem isFinite_of_alike {v w : Value} (halike : Alike v w) (hfinite : w.Everywhere IsFinite) :
    v.Everywhere IsFinite := by
  induction v using nested_induction generalizing w with
  | list items ih =>
      cases w with
      | list others =>
          rw [Alike] at halike
          refine everywhere_list.mpr ⟨by rintro _ ⟨⟩, fun item hmem => ?_⟩
          obtain ⟨other, hother, hsame⟩ := halike.exists_mem hmem
          exact ih item hmem hsame (hfinite.item hother)
      | _ => cases halike
  | tuple items ih =>
      cases w with
      | tuple others =>
          rw [Alike] at halike
          refine everywhere_iff.mpr ⟨by rintro _ ⟨⟩, fun item hmem => ?_⟩
          obtain ⟨other, hother, hsame⟩ := halike.exists_mem hmem
          exact ih item hmem hsame (hfinite.component hother)
      | _ => cases halike
  | dict entries ih =>
      cases w with
      | dict others =>
          rw [Alike, alikeEntries_iff] at halike
          refine everywhere_dict.mpr ⟨by rintro _ ⟨⟩, fun entry hmem => ?_⟩
          obtain ⟨other, hother, hkey, hsame⟩ := halike.2 entry hmem
          exact ⟨hkey ▸ hfinite.key hother, (ih entry hmem).2 hsame (hfinite.entry hother)⟩
      | _ => cases halike
  | _ =>
      cases w <;> cases halike
      exact hfinite

end Value

namespace Json

theorem Data.depth_le {levels : Nat} {v : Value} (hdata : Data levels v) : v.depth ≤ levels := by
  induction hdata with
  | list _ ih => exact Value.depth_list_le_iff.mpr ih
  | dict _ _ _ ih => exact Value.depth_dict_le_iff.mpr ih
  | _ => exact Nat.zero_le _

end Json

namespace Snapshot

open Value

theorem isRestored_of_decode {octets : Octets} {values : Snapshot}
    (hdecode : decode octets = .ok values) : ∀ value ∈ values, value.Everywhere IsRestored := by
  obtain ⟨t, hencode, before, written, behind, rfl, -, -, hvalue⟩ := document_of_decode hdecode
  have hplain := Utf8.hasSurrogate_of_encode hencode
  rw [Text.hasSurrogate_append, Text.hasSurrogate_append] at hplain
  exact fun value hmem => Everywhere.item (hvalue.isRestored hplain.2.1) hmem

theorem depth_of_decode {octets : Octets} {values : Snapshot}
    (hdecode : decode octets = .ok values) : depth (.list values) ≤ nestingLimit := by
  rw [decode] at hdecode
  split at hdecode
  · cases hdecode
  · split at hdecode
    · next hread =>
        cases hdecode
        exact (Json.data_of_read hread).depth_le
    all_goals cases hdecode

/-- Restored values are encoded again exactly when all numbers in them are finite. -/
theorem encodes_restored_iff {octets : Octets} {values : Snapshot}
    (hdecode : decode octets = .ok values) :
    (∃ written, encode values = .ok written) ↔ ∀ value ∈ values, value.Everywhere IsFinite := by
  rw [encodes_iff (depth_of_decode hdecode)]
  exact forall₂_congr fun value hmem => (isRestored_of_decode hdecode value hmem).hasJsonForm_iff

/-- Encodings of values that are alike are the same octets. -/
theorem encode_of_alike {values others : Snapshot} {written rewritten : Octets}
    (halike : AlikeAll values others) (hdiffer : ∀ value ∈ values, value.Everywhere KeysDiffer)
    (hvalues : encode values = .ok written) (hothers : encode others = .ok rewritten) :
    written = rewritten := by
  obtain ⟨hpasses, text, hprint, rfl⟩ := encode_eq_ok hvalues
  obtain ⟨hpassesOthers, textOthers, hprintOthers, rfl⟩ := encode_eq_ok hothers
  have hsame := Json.print_of_alike (v := .list values) (w := .list others)
    (by rw [Alike]; exact halike) (textKeyed_of_passes hpasses) (textKeyed_of_passes hpassesOthers)
    (everywhere_list.mpr ⟨nofun, hdiffer⟩)
  rw [hprint, hprintOthers] at hsame
  cases hsame
  rfl

/-- Values that octets decode to are encoded again exactly when all numbers in them are finite, and
then they come back alike, and what comes back has the same encoding. -/
theorem restored_encodes_again {octets : Octets} {values : Snapshot}
    (hdecode : decode octets = .ok values) :
    ((∃ written, encode values = .ok written) ↔
      ∀ value ∈ values, value.Everywhere IsFinite) ∧
    ∀ written, encode values = .ok written →
      ∃ again, decode written = .ok again ∧ AlikeAll again values ∧
        encode again = .ok written := by
  refine ⟨encodes_restored_iff hdecode, fun written hencode => ?_⟩
  have hrestored := isRestored_of_decode hdecode
  have hback := decode_encode hencode
  have halike : AlikeAll (values.map joined) values := alikeAll_map fun value hmem =>
    alike_joined (hrestored value hmem).textKeyed (hrestored value hmem).keysDiffer
      (hrestored value hmem).pairFree
  have hfinite : ∀ value ∈ values.map joined, value.Everywhere IsFinite := by
    intro value hmem
    obtain ⟨other, hother, hsame⟩ := halike.exists_mem hmem
    have hoften := (encodes_restored_iff hdecode).mp ⟨written, hencode⟩
    exact isFinite_of_alike hsame (hoften other hother)
  obtain ⟨rewritten, hagain⟩ := (encodes_restored_iff hback).mpr hfinite
  have hsame := encode_of_alike halike
    (fun value hmem => (isRestored_of_decode hback value hmem).keysDiffer) hagain hencode
  exact ⟨values.map joined, hback, halike, hsame ▸ hagain⟩

/-- The spaced text reaches its canonical form in one step and stays there. -/
theorem restored_encodes_again_sample :
    ∃ values written again, decode (asciiOctets spaced) = .ok values ∧
      encode values = .ok written ∧ decode written = .ok again ∧ AlikeAll again values ∧
        encode again = .ok written := by
  have hfinite : ∀ value ∈ spacedValues, value.Everywhere IsFinite := by
    rw [spacedValues, List.forall_mem_cons, List.forall_mem_singleton, everywhere_dict,
      List.forall_mem_singleton]
    refine ⟨?_, nofun, ?_, ?_⟩ <;> exact everywhere_iff.mpr ⟨nofun, True.intro⟩
  obtain ⟨hencodes, hagain⟩ := restored_encodes_again decode_spaced
  obtain ⟨written, hwritten⟩ := hencodes.mpr hfinite
  obtain ⟨again, hdecode, halike, hencode⟩ := hagain written hwritten
  exact ⟨_, written, again, decode_spaced, hwritten, hdecode, halike, hencode⟩

end Snapshot

end SealedCall
