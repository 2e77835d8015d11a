import SealedCall.Proofs.Nonces.Supply
import SealedCall.Proofs.Snapshot.RoundTrip
import SealedCall.Proofs.Value.Depth

/-! # Which snapshots are encoded

A snapshot is encoded when everything in it, at every depth, has a JSON form of its own. The check
before the printer turns away tuples and keys that are no texts; the printer turns away foreign
values, numbers that are not finite and whole numbers with too many digits. Whichever of the two it
is, the refusal is the same, and sealing passes it on before it draws a nonce.
-/

namespace SealedCall

namespace Value

/-- Whether a value has a JSON form that it comes back from, as far as it can be told without
looking at what is inside it. -/
def HasJsonForm : Value → Prop
  | .null | .bool _ | .text _ | .list _ => True
  | .int n => (Text.ofNat n.natAbs).length ≤ 4300
  | .float x => x.isFinite = true
  | .dict entries => ∀ entry ∈ entries, ∃ t, entry.1 = .text t
  | .bytes _ | .byteArray _ | .tuple _ | .foreign _ => False

end Value

namespace Json

theorem gather_of_forall {written : List (Except WritingFault Text)}
    (hall : ∀ part ∈ written, ∃ t, part = .ok t) : ∃ parts, gather written = .ok parts := by
  induction written with
  | nil => exact ⟨[], rfl⟩
  | cons first rest ih =>
      obtain ⟨⟨t, rfl⟩, hrest⟩ := List.forall_mem_cons.mp hall
      obtain ⟨parts, hparts⟩ := ih hrest
      exact ⟨t :: parts, by rw [gather, hparts]⟩

theorem natAbs_lt_digitLimit_iff {n : Int} :
    n.natAbs < digitLimit ↔ (Text.ofNat n.natAbs).length ≤ 4300 := by
  rw [digitLimit_eq]
  exact (Text.length_ofNat_le_iff (by decide)).symm

/-- What has a JSON form at every depth is printed. -/
theorem print_of_hasJsonForm {v : Value} (hform : v.Everywhere Value.HasJsonForm) :
    ∃ written, print v = .ok written := by
  induction v using Value.nested_induction with
  | null => exact ⟨_, rfl⟩
  | bool b => exact ⟨_, rfl⟩
  | int n =>
      have hshort : n.natAbs < digitLimit := natAbs_lt_digitLimit_iff.mpr hform.here
      exact ⟨_, by rw [print, if_pos hshort]⟩
  | float x => exact ⟨_, if_pos hform.here⟩
  | text t => exact ⟨_, rfl⟩
  | bytes octets => exact hform.here.elim
  | byteArray octets => exact hform.here.elim
  | list items ih =>
      have hitems : ∀ part ∈ printAll items, ∃ t, part = .ok t := by
        rw [printAll_eq_map, List.forall_mem_map]
        exact fun item hmem => ih item hmem (hform.item hmem)
      obtain ⟨parts, hparts⟩ := gather_of_forall hitems
      exact ⟨_, by rw [print, hparts]⟩
  | tuple items => exact hform.here.elim
  | dict entries ih =>
      have hmembers : ∀ part ∈ (sortedByKey (printEntries entries)).map fun entry =>
          member entry.1 entry.2, ∃ t, part = .ok t := by
        rw [printEntries_eq_map hform.here, Value.sortedByKey_map, List.map_map,
          List.forall_mem_map]
        intro entry hmem
        obtain ⟨held, hheld, -, hvalue⟩ := Value.mem_byText (Value.mem_sortedByKey.mp hmem)
        obtain ⟨written, hwritten⟩ := (ih held hheld).2 (hform.entry hheld)
        exact ⟨_, by rw [Function.comp_apply, ← hvalue, hwritten, member]⟩
      obtain ⟨parts, hparts⟩ := gather_of_forall hmembers
      exact ⟨_, by rw [print, hparts]⟩
  | foreign kind => exact hform.here.elim

end Json

namespace Snapshot

open Value

/-! ## What the check lets through -/

theorem checkItems_of_forall {levels : Nat} {items : List Value}
    (hitems : ∀ item ∈ items, ∀ path, checkUnchanged levels path item = .ok ()) (path : Text)
    (index : Nat) : checkItems levels path index items = .ok () := by
  induction items generalizing index with
  | nil => rfl
  | cons item rest ih =>
      obtain ⟨hitem, hrest⟩ := List.forall_mem_cons.mp hitems
      rw [checkItems, hitem]
      exact ih hrest (index + 1)

theorem checkEntries_of_forall {levels : Nat} {entries : List (Value × Value)}
    (hkeys : ∀ entry ∈ entries, ∃ t, entry.1 = .text t)
    (hvalues : ∀ entry ∈ entries, ∀ path, checkUnchanged levels path entry.2 = .ok ())
    (path : Text) : checkEntries levels path entries = .ok () := by
  induction entries with
  | nil => rfl
  | cons entry rest ih =>
      obtain ⟨key, value⟩ := entry
      obtain ⟨⟨t, ht⟩, hkeys⟩ := List.forall_mem_cons.mp hkeys
      obtain ⟨hvalue, hvalues⟩ := List.forall_mem_cons.mp hvalues
      simp only at ht hvalue
      rw [ht, checkEntries, hvalue]
      exact ih hkeys hvalues

theorem checkUnchanged_of_hasJsonForm {v : Value} (hform : v.Everywhere HasJsonForm) {levels : Nat}
    (hdepth : v.depth ≤ levels) (path : Text) : checkUnchanged levels path v = .ok () := by
  induction v using nested_induction generalizing levels path with
  | list items ih =>
      obtain ⟨inner, rfl, hitems⟩ := exists_of_depth_list_le hdepth
      exact checkItems_of_forall
        (fun item hmem => ih item hmem (hform.item hmem) (hitems item hmem)) path 0
  | dict entries ih =>
      obtain ⟨inner, rfl, hentries⟩ := exists_of_depth_dict_le hdepth
      exact checkEntries_of_forall hform.here
        (fun entry hmem => (ih entry hmem).2 (hform.entry hmem) (hentries entry hmem)) path
  | tuple items => exact hform.here.elim
  | _ => rfl

theorem checkValues_of_forall {values : Snapshot}
    (hvalues : ∀ value ∈ values, ∀ path, checkUnchanged (nestingLimit - 1) path value = .ok ())
    (index : Nat) : checkValues index values = .ok () := by
  induction values generalizing index with
  | nil => rfl
  | cons value rest ih =>
      obtain ⟨hvalue, hrest⟩ := List.forall_mem_cons.mp hvalues
      rw [checkValues, hvalue]
      exact ih hrest (index + 1)

/-- What is let through and printed has a JSON form. -/
theorem hasJsonForm_of_print {v : Value} {levels : Nat} (hpasses : Passes levels v) {written : Text}
    (hprint : Json.print v = .ok written) : v.Everywhere HasJsonForm := by
  induction v using nested_induction generalizing levels written with
  | null => exact everywhere_iff.mpr ⟨True.intro, True.intro⟩
  | bool b => exact everywhere_iff.mpr ⟨True.intro, True.intro⟩
  | int n =>
      rw [Json.print] at hprint
      split at hprint
      · next hshort =>
          exact everywhere_iff.mpr ⟨Json.natAbs_lt_digitLimit_iff.mp hshort, True.intro⟩
      · cases hprint
  | float x =>
      rw [Json.print] at hprint
      split at hprint
      · next hfinite => exact everywhere_iff.mpr ⟨hfinite, True.intro⟩
      · cases hprint
  | text t => exact everywhere_iff.mpr ⟨True.intro, True.intro⟩
  | bytes octets => cases hprint
  | byteArray octets => cases hprint
  | list items ih =>
      obtain ⟨inner, -, hitems⟩ := hpasses.list
      obtain ⟨-, hwritten⟩ := Json.print_list_eq_ok hprint
      exact everywhere_list.mpr ⟨True.intro,
        fun item hmem => ih item hmem (hitems item hmem) (hwritten item hmem)⟩
  | tuple items _ =>
      obtain ⟨path, hcheck⟩ := hpasses
      cases hcheck
  | dict entries ih =>
      obtain ⟨inner, -, hentries⟩ := hpasses.dict
      have hkeys : ∀ entry ∈ entries, ∃ t, entry.1 = .text t :=
        fun entry hmem => (hentries entry hmem).1
      obtain ⟨-, hwritten⟩ := Json.print_dict_eq_ok hkeys hprint
      refine everywhere_dict.mpr ⟨hkeys, fun entry hmem => ⟨?_, ?_⟩⟩
      · obtain ⟨t, ht⟩ := hkeys entry hmem
        rw [ht]
        exact everywhere_iff.mpr ⟨True.intro, True.intro⟩
      · exact (ih entry hmem).2 (hentries entry hmem).2 (hwritten entry hmem)
  | foreign kind => cases hprint

/-! ## What the check turns away -/

/-- Whether a failure says that the data is malformed. -/
def Malformed (failure : Failure) : Prop := ∃ cause, failure = .malformed cause

theorem malformed_of_checkItems {levels : Nat} {items : List Value}
    (hitems : ∀ item ∈ items, ∀ path failure,
      checkUnchanged levels path item = .error failure → Malformed failure)
    {path : Text} {index : Nat} {failure : Failure}
    (hcheck : checkItems levels path index items = .error failure) : Malformed failure := by
  induction items generalizing index with
  | nil => exact nomatch hcheck
  | cons item rest ih =>
      obtain ⟨hitem, hrest⟩ := List.forall_mem_cons.mp hitems
      rw [checkItems] at hcheck
      split at hcheck
      · exact ih hrest hcheck
      · next hfails =>
          cases hcheck
          exact hitem _ _ hfails

theorem malformed_of_checkEntries {levels : Nat} {entries : List (Value × Value)}
    (hvalues : ∀ entry ∈ entries, ∀ path failure,
      checkUnchanged levels path entry.2 = .error failure → Malformed failure)
    {path : Text} {failure : Failure}
    (hcheck : checkEntries levels path entries = .error failure) : Malformed failure := by
  induction entries with
  | nil => exact nomatch hcheck
  | cons entry rest ih =>
      obtain ⟨key, value⟩ := entry
      obtain ⟨hvalue, hrest⟩ := List.forall_mem_cons.mp hvalues
      cases key with
      | text t =>
          rw [checkEntries] at hcheck
          split at hcheck
          · exact ih hrest hcheck
          · next hfails =>
              cases hcheck
              exact hvalue _ _ hfails
      | _ =>
          cases hcheck
          exact ⟨_, rfl⟩

/-- Where a value does not nest too deep, it is turned away as malformed or not at all. -/
theorem malformed_of_checkUnchanged {v : Value} {levels : Nat} (hdepth : v.depth ≤ levels)
    {path : Text} {failure : Failure}
    (hcheck : checkUnchanged levels path v = .error failure) : Malformed failure := by
  induction v using nested_induction generalizing levels path failure with
  | list items ih =>
      obtain ⟨inner, rfl, hitems⟩ := exists_of_depth_list_le hdepth
      exact malformed_of_checkItems
        (fun item hmem _ _ hfails => ih item hmem (hitems item hmem) hfails) hcheck
  | dict entries ih =>
      obtain ⟨inner, rfl, hentries⟩ := exists_of_depth_dict_le hdepth
      exact malformed_of_checkEntries
        (fun entry hmem _ _ hfails => (ih entry hmem).2 (hentries entry hmem) hfails) hcheck
  | tuple items =>
      cases hcheck
      exact ⟨_, rfl⟩
  | _ => exact nomatch hcheck

theorem malformed_of_checkValues {values : Snapshot}
    (hdepth : ∀ value ∈ values, value.depth ≤ nestingLimit - 1) {index : Nat} {failure : Failure}
    (hcheck : checkValues index values = .error failure) : Malformed failure := by
  induction values generalizing index with
  | nil => exact nomatch hcheck
  | cons value rest ih =>
      obtain ⟨hvalue, hrest⟩ := List.forall_mem_cons.mp hdepth
      rw [checkValues] at hcheck
      split at hcheck
      · exact ih hrest hcheck
      · next hfails =>
          cases hcheck
          exact malformed_of_checkUnchanged hvalue hfails

/-! ## What is encoded -/

theorem depth_values {values : Snapshot} (hdepth : depth (.list values) ≤ nestingLimit) :
    ∀ value ∈ values, value.depth ≤ nestingLimit - 1 :=
  depth_list_le_iff.mp hdepth

theorem encodes_iff {values : Snapshot} (hdepth : depth (.list values) ≤ nestingLimit) :
    (∃ octets, encode values = .ok octets) ↔ ∀ value ∈ values, value.Everywhere HasJsonForm := by
  constructor
  · rintro ⟨octets, hencode⟩ value hmem
    obtain ⟨hpasses, written, hprint, -⟩ := encode_eq_ok hencode
    obtain ⟨-, hwritten⟩ := Json.print_list_eq_ok hprint
    exact hasJsonForm_of_print (hpasses value hmem) (hwritten value hmem)
  · intro hform
    have hcheck : checkValues 0 values = .ok () :=
      checkValues_of_forall (fun value hmem =>
        checkUnchanged_of_hasJsonForm (hform value hmem) (depth_values hdepth value hmem)) 0
    obtain ⟨written, hprint⟩ := Json.print_of_hasJsonForm (v := .list values) <|
      everywhere_list.mpr ⟨True.intro, hform⟩
    exact ⟨_, by rw [encode, hcheck, hprint]⟩

theorem malformed_of_encode {values : Snapshot} (hdepth : depth (.list values) ≤ nestingLimit)
    {failure : Failure} (hencode : encode values = .error failure) : Malformed failure := by
  rw [encode] at hencode
  split at hencode
  · next hfails =>
      cases hencode
      exact malformed_of_checkValues (depth_values hdepth) hfails
  · split at hencode
    · cases hencode
    · cases hencode
      exact ⟨_, rfl⟩

/-- What sealing comes to: the values are encoded first, and nothing is drawn for values that are
refused. Then the id may still turn out to have no octets. -/
theorem perform_ofItems {values : Snapshot} (id : Value) {sequence : Value} (key : Key)
    (hitems : sequence.items? = some values) {host : Host}
    (hnonce : (host.random.draw Aead.nonceLength).1.length = Aead.nonceLength) :
    (Envelope.ofItems id sequence key).perform host =
      match encode values with
      | .error failure => (.error failure, host)
      | .ok plaintext =>
        ((Envelope.idOctets id).map fun associated => ⟨id, (host.random.draw Aead.nonceLength).1,
            Aead.encrypt key.octets (host.random.draw Aead.nonceLength).1 associated plaintext⟩,
          { host with random := (host.random.draw Aead.nonceLength).2 }) := by
  have hencodes : encodeItems sequence = encode values := by rw [encodeItems, hitems]
  rw [Envelope.ofItems, hencodes, Operation.perform_bind, Operation.perform_ofExcept]
  cases encode values with
  | error failure => rfl
  | ok plaintext =>
      simp only
      rw [Operation.perform_bind, Operation.perform_draw]
      simp only
      rw [Operation.perform_bind, Operation.perform_ofExcept]
      cases Envelope.idOctets id with
      | error failure => rfl
      | ok associated =>
          simp only [if_pos hnonce]
          rfl

theorem perform_sealUnder {id sequence keyValue : Value} {key : Key}
    (hkey : Key.ofValue keyValue = .ok key) (host : Host) :
    (Envelope.sealUnder id sequence keyValue).perform host =
      (Envelope.ofItems id sequence key).perform host := by
  rw [Envelope.sealUnder, Envelope.sealRead, hkey, Operation.perform_bind,
    Operation.perform_ofExcept]
  rfl

/-- Values that do not nest too deep are encoded exactly when everything in them has a JSON form,
and whatever is refused is refused as malformed. The same holds of sealing them, under a valid key
and for an id that can be encoded; values that are refused leave no envelope, and not even a nonce
is drawn for them. -/
theorem accepts_iff_hasJsonForm {values : Snapshot} (hdepth : depth (.list values) ≤ nestingLimit) :
    ((∃ octets, encode values = .ok octets) ↔ ∀ value ∈ values, value.Everywhere HasJsonForm) ∧
    (∀ failure, encode values = .error failure → Malformed failure) ∧
    ∀ (id : Text) (associated : Octets) (sequence keyValue : Value) (key : Key) (host : Host),
      Utf8.encode id = .ok associated → sequence.items? = some values →
      Key.ofValue keyValue = .ok key →
      (host.random.draw Aead.nonceLength).1.length = Aead.nonceLength →
        ((∃ envelope later,
            (Envelope.sealUnder (.text id) sequence keyValue).perform host =
              (.ok envelope, later)) ↔
          ∀ value ∈ values, value.Everywhere HasJsonForm) ∧
        ∀ failure later,
          (Envelope.sealUnder (.text id) sequence keyValue).perform host =
              (.error failure, later) →
            Malformed failure ∧ later = host := by
  refine ⟨encodes_iff hdepth, fun _ => malformed_of_encode hdepth, ?_⟩
  intro id associated sequence keyValue key host hassociated hitems hkey hnonce
  have hoctets : Envelope.idOctets (.text id) = .ok associated := by
    rw [Envelope.idOctets, ActionId.octets, hassociated]
  rw [perform_sealUnder hkey, perform_ofItems _ key hitems hnonce, hoctets, ← encodes_iff hdepth]
  cases hencode : encode values with
  | error failure =>
      refine ⟨⟨?_, ?_⟩, ?_⟩
      · rintro ⟨_, _, ⟨⟩⟩
      · rintro ⟨_, ⟨⟩⟩
      · rintro _ _ ⟨⟩
        exact ⟨malformed_of_encode hdepth hencode, rfl⟩
  | ok plaintext =>
      refine ⟨⟨fun _ => ⟨plaintext, rfl⟩, fun _ => ⟨_, _, rfl⟩⟩, ?_⟩
      rintro _ _ ⟨⟩

/-- A tuple behind a dictionary inside a list. -/
def hiddenTuple : Snapshot := [.list [.dict [(Value.ofString "key", .tuple [])]]]

/-- A list of whole numbers is encoded and sealed; a tuple is refused wherever it stands. -/
theorem accepts_iff_hasJsonForm_sample :
    (∃ octets, encode [.list [.int 1]] = .ok octets) ∧
      (∃ envelope later, (Envelope.sealUnder (Value.ofString "pay") (.tuple [.list [.int 1]])
        (.bytes Reference.sampleKey.octets)).perform Host.untouched = (.ok envelope, later)) ∧
      (¬ ∃ octets, encode hiddenTuple = .ok octets) ∧
      ∀ failure later, (Envelope.sealUnder (Value.ofString "pay") (.tuple hiddenTuple)
          (.bytes Reference.sampleKey.octets)).perform Host.untouched = (.error failure, later) →
        Malformed failure ∧ later = Host.untouched := by
  have hkey : Key.ofValue (.bytes Reference.sampleKey.octets) = .ok Reference.sampleKey := rfl
  have hassociated : Utf8.encode (Text.of "pay") = .ok [0x70, 0x61, 0x79] := rfl
  have hform : ∀ value ∈ [Value.list [.int 1]], value.Everywhere HasJsonForm := by
    simp only [List.mem_singleton, forall_eq, everywhere_list, HasJsonForm, true_and]
    exact everywhere_iff.mpr ⟨by unfold HasJsonForm; decide, True.intro⟩
  have htuple : ¬ ∀ value ∈ hiddenTuple, value.Everywhere HasJsonForm := fun hform =>
    hform _ (List.mem_singleton_self _) (.tuple [])
      (.item (List.mem_singleton_self _) (.entry (List.mem_singleton_self _) .self))
  have hdepth : depth (.list [.list [.int 1]]) ≤ nestingLimit := by decide
  have hdepthHidden : depth (.list hiddenTuple) ≤ nestingLimit := by decide
  obtain ⟨haccepts, -, hseals⟩ := accepts_iff_hasJsonForm hdepth
  obtain ⟨hrefuses, -, hleaves⟩ := accepts_iff_hasJsonForm hdepthHidden
  refine ⟨haccepts.mpr hform, ?_, fun hencodes => htuple (hrefuses.mp hencodes), ?_⟩
  · exact (hseals _ _ _ _ _ Host.untouched hassociated rfl hkey rfl).1.mpr hform
  · exact (hleaves _ _ _ _ _ Host.untouched hassociated rfl hkey rfl).2

end Snapshot

end SealedCall
