import SealedCall.Proofs.Json.Compact
import SealedCall.Proofs.Json.Reading
import SealedCall.Snapshot

/-! # Encoded snapshots decode

What is let through to be encoded is printed in a form that reads back, at every depth, as the same
value with its surrogate pairs joined. Since the values of a snapshot stand one level inside the
written sequence, they may nest one level less than the reader allows.
-/

namespace SealedCall.Snapshot

open Value

/-- Whether a value is let through where the given number of levels is left. -/
def Passes (levels : Nat) (v : Value) : Prop := ∃ path, checkUnchanged levels path v = .ok ()

theorem passes_of_checkItems {levels index : Nat} {path : Text} {items : List Value}
    (hcheck : checkItems levels path index items = .ok ()) :
    ∀ item ∈ items, Passes levels item := by
  induction items generalizing index with
  | nil => exact fun _ hmem => nomatch hmem
  | cons item rest ih =>
      rw [checkItems] at hcheck
      split at hcheck
      · next hitem => exact List.forall_mem_cons.mpr ⟨⟨_, hitem⟩, ih hcheck⟩
      · exact nomatch hcheck

theorem passes_of_checkEntries {levels : Nat} {path : Text} {entries : List (Value × Value)}
    (hcheck : checkEntries levels path entries = .ok ()) :
    ∀ entry ∈ entries, (∃ t, entry.1 = .text t) ∧ Passes levels entry.2 := by
  induction entries with
  | nil => exact fun _ hmem => nomatch hmem
  | cons entry rest ih =>
      obtain ⟨key, value⟩ := entry
      cases key with
      | text t =>
          rw [checkEntries] at hcheck
          split at hcheck
          · next hvalue => exact List.forall_mem_cons.mpr ⟨⟨⟨t, rfl⟩, _, hvalue⟩, ih hcheck⟩
          · exact nomatch hcheck
      | _ => exact nomatch hcheck

theorem Passes.list {levels : Nat} {items : List Value} (hpasses : Passes levels (.list items)) :
    ∃ inner, levels = inner + 1 ∧ ∀ item ∈ items, Passes inner item := by
  obtain ⟨path, hcheck⟩ := hpasses
  cases levels with
  | zero => exact nomatch hcheck
  | succ inner => exact ⟨inner, rfl, passes_of_checkItems hcheck⟩

theorem Passes.dict {levels : Nat} {entries : List (Value × Value)}
    (hpasses : Passes levels (.dict entries)) :
    ∃ inner, levels = inner + 1 ∧
      ∀ entry ∈ entries, (∃ t, entry.1 = .text t) ∧ Passes inner entry.2 := by
  obtain ⟨path, hcheck⟩ := hpasses
  cases levels with
  | zero => exact nomatch hcheck
  | succ inner => exact ⟨inner, rfl, passes_of_checkEntries hcheck⟩

/-- What is inside a value that is let through would be let through itself. -/
theorem Passes.within {part v : Value} (hpart : Within part v) {levels : Nat}
    (hpasses : Passes levels v) : ∃ inner, Passes inner part := by
  induction hpart generalizing levels with
  | self => exact ⟨levels, hpasses⟩
  | item hmem _ ih =>
      obtain ⟨inner, -, hitems⟩ := hpasses.list
      exact ih (hitems _ hmem)
  | component _ _ _ =>
      obtain ⟨path, hcheck⟩ := hpasses
      exact nomatch hcheck
  | key hmem _ ih =>
      obtain ⟨inner, -, hentries⟩ := hpasses.dict
      obtain ⟨t, ht⟩ := (hentries _ hmem).1
      have hkey : Passes 0 (.text t) := ⟨[], rfl⟩
      rw [← ht] at hkey
      exact ih hkey
  | entry hmem _ ih =>
      obtain ⟨inner, -, hentries⟩ := hpasses.dict
      exact ih (hentries _ hmem).2

theorem Passes.textKeyed {levels : Nat} {v : Value} (hpasses : Passes levels v) :
    v.Everywhere TextKeyed := by
  rintro part hpart entries rfl
  obtain ⟨inner, hinner⟩ := hpasses.within hpart
  obtain ⟨_, -, hentries⟩ := hinner.dict
  exact fun entry hmem => (hentries entry hmem).1

theorem readsAs_values {levels : Nat} {values : List Value}
    (hvalues : ∀ value ∈ values,
      Json.ReadsAs levels (Json.printedText (Json.print value)) value.joined) :
    Json.ReadsAs (levels + 1)
      (Json.enclosed '[' ']' (values.map fun value => Json.printedText (Json.print value)))
      (.list (values.map joined)) := by
  have hparts : ∀ part ∈ values.map fun value =>
      (Json.printedText (Json.print value), value.joined), Json.ReadsAs levels part.1 part.2 := by
    intro part hpart
    obtain ⟨value, hmem, rfl⟩ := List.mem_map.mp hpart
    exact hvalues value hmem
  have hread := Json.readsAs_list hparts
  rw [List.map_map, List.map_map] at hread
  exact hread

/-- The members of a dictionary, each of which is read as its joined value, are stored in the order
of their keys. -/
theorem readsAs_members {levels : Nat} {entries : List (Value × Value)}
    (hvalues : ∀ entry ∈ entries,
      Json.ReadsAs levels (Json.printedText (Json.print entry.2)) entry.2.joined) :
    Json.ReadsAs (levels + 1)
      (Json.enclosed '\x7b' '\x7d' ((Json.sortedByKey (byText entries)).map fun entry =>
        Json.string entry.1 ++ CodePoint.ofChar ':' :: Json.printedText (Json.print entry.2)))
      (joined (.dict entries)) := by
  have hparts : ∀ part ∈ (Json.sortedByKey (byText entries)).map fun entry =>
      (⟨entry.1, Json.printedText (Json.print entry.2), entry.2.joined⟩ : Json.Member),
      Json.ReadsAs levels part.written part.value := by
    intro part hpart
    obtain ⟨entry, hmem, rfl⟩ := List.mem_map.mp hpart
    obtain ⟨held, hheld, -, hvalue⟩ := mem_byText (mem_sortedByKey.mp hmem)
    have hread := hvalues held hheld
    rw [hvalue] at hread
    exact hread
  have hread := Json.readsAs_dict hparts
  rw [List.map_map, List.foldl_map] at hread
  rw [joined, joinedEntries_eq_map, rebuilt, sortedByKey_map, List.foldl_map]
  exact hread

/-- What is let through and printed reads back as the same value with its surrogate pairs
joined. -/
theorem readsAs_print {v : Value} {levels : Nat} (hpasses : Passes levels v) {written : Text}
    (hprint : Json.print v = .ok written) : Json.ReadsAs levels written v.joined := by
  induction v using nested_induction generalizing levels written with
  | null =>
      cases hprint
      exact Json.readsAs_scalar (by decide) fun rest _ => Json.lexes_null rest
  | bool b =>
      cases hprint
      exact Json.readsAs_scalar (by cases b <;> decide) fun rest _ => Json.lexes_bool b rest
  | int n =>
      rw [Json.print] at hprint
      split at hprint
      · next hshort =>
          cases hprint
          exact Json.readsAs_number fun rest hrest => Json.scansNumber_ofInt hshort hrest
      · cases hprint
  | float x =>
      rw [Json.print] at hprint
      split at hprint
      · next hfinite =>
          cases hprint
          exact Json.readsAs_number fun rest hrest => Json.scansNumber_render hfinite hrest
      · cases hprint
  | text t =>
      cases hprint
      exact Json.readsAs_string levels t
  | bytes octets => cases hprint
  | byteArray octets => cases hprint
  | list items ih =>
      obtain ⟨inner, rfl, hitems⟩ := hpasses.list
      obtain ⟨rfl, hwritten⟩ := Json.print_list_eq_ok hprint
      rw [joined, joinedAll_eq_map]
      exact readsAs_values fun item hmem => ih item hmem (hitems item hmem) (hwritten item hmem)
  | tuple items _ =>
      -- the printer would take a tuple for a list; the check refuses it
      obtain ⟨path, hcheck⟩ := hpasses
      cases hcheck
  | dict entries ih =>
      obtain ⟨inner, rfl, hentries⟩ := hpasses.dict
      obtain ⟨rfl, hwritten⟩ :=
        Json.print_dict_eq_ok (fun entry hmem => (hentries entry hmem).1) hprint
      exact readsAs_members fun entry hmem =>
        (ih entry hmem).2 (hentries entry hmem).2 (hwritten entry hmem)
  | foreign kind => cases hprint

theorem passes_of_checkValues {index : Nat} {values : Snapshot}
    (hcheck : checkValues index values = .ok ()) :
    ∀ value ∈ values, Passes (nestingLimit - 1) value := by
  induction values generalizing index with
  | nil => exact fun _ hmem => nomatch hmem
  | cons value rest ih =>
      rw [checkValues] at hcheck
      split at hcheck
      · next hvalue => exact List.forall_mem_cons.mpr ⟨⟨_, hvalue⟩, ih hcheck⟩
      · exact nomatch hcheck

/-- What it takes to be encoded. -/
theorem encode_eq_ok {values : Snapshot} {octets : Octets} (hencode : encode values = .ok octets) :
    (∀ value ∈ values, Passes (nestingLimit - 1) value) ∧
      ∃ written, Json.print (.list values) = .ok written ∧ octets = asciiOctets written := by
  rw [encode] at hencode
  split at hencode
  · exact nomatch hencode
  · next hcheck =>
      split at hencode
      · next written hprint =>
          cases hencode
          exact ⟨passes_of_checkValues hcheck, written, hprint, rfl⟩
      · exact nomatch hencode

theorem textKeyed_of_passes {levels : Nat} {values : Snapshot}
    (hpasses : ∀ value ∈ values, Passes levels value) :
    Everywhere TextKeyed (.list values) := by
  rintro part hpart entries rfl
  cases hpart with
  | item hmem hinner => exact (hpasses _ hmem).textKeyed _ hinner entries rfl

/-- An encoded snapshot decodes to the same values with their surrogate pairs joined. -/
theorem decode_encode {values : Snapshot} {octets : Octets} (hencode : encode values = .ok octets) :
    decode octets = .ok (values.map joined) := by
  obtain ⟨hpasses, written, hprint, rfl⟩ := encode_eq_ok hencode
  have hascii := (Json.compact_print (textKeyed_of_passes hpasses) hprint).printable.ascii
  obtain ⟨rfl, hwritten⟩ := Json.print_list_eq_ok hprint
  have hvalues : ∀ value ∈ values, Json.ReadsAs (nestingLimit - 1)
      (Json.printedText (Json.print value)) value.joined :=
    fun value hmem => readsAs_print (hpasses value hmem) (hwritten value hmem)
  have hread := readsAs_values hvalues
  rw [decode, asciiOctets, Text.decode?_ascii hascii]
  simp only
  rw [Json.read_of_readsAs hread (by decide)]

/-- A snapshot with a negative zero, a nested dictionary and a surrogate on its own. -/
def sample : Snapshot :=
  [.list [.float (.finite true .zero), .bool true, .text [⟨0xDE00, by decide⟩]],
    .dict [(Value.ofString "key", .null)]]

end SealedCall.Snapshot
