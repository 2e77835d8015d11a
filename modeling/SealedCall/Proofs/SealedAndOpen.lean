import SealedCall.Proofs.Delivery
import SealedCall.Proofs.Value.Unaltered

/-! # Sealed and open references to the same values

An open reference gives back copies of what it holds, and its sealed form what its encoding decodes
to. The check before encoding refuses tuples and keys that are no texts, but it lets a text pass in
which a high surrogate has a low one right behind it, and decoding joins the two. Only without such
pairs do both forms give back equal values.
-/

namespace SealedCall

open Operation

namespace Memory

/-- What can be viewed within some levels is viewed the same within more. -/
theorem viewWithin_mono {memory : Memory} {levels more : Nat} {datum : Datum} {value : Value}
    (hview : memory.viewWithin levels datum = some value) (hlevels : levels ≤ more) :
    memory.viewWithin more datum = some value := by
  induction levels generalizing more datum value with
  | zero =>
      cases datum with
      | fixed held => cases more <;> exact hview
      | tuple items => cases hview
      | object place =>
          rw [viewWithin] at hview
          split at hview
          · next octets hobject =>
              cases more with
              | zero => rw [viewWithin, hobject]; exact hview
              | succ more => rw [viewWithin, hobject]; exact hview
          · cases hview
  | succ levels ih =>
      obtain ⟨more, rfl⟩ : ∃ inner, more = inner + 1 := ⟨more - 1, by omega⟩
      have hinner : levels ≤ more := by omega
      have hall : ∀ {data : List Datum} {values : List Value},
          data.mapM (fun item => memory.viewWithin levels item) = some values →
            data.mapM (fun item => memory.viewWithin more item) = some values := by
        intro data values hvalues
        rw [mapM_eq_some_iff] at hvalues ⊢
        exact hvalues.imp fun _ _ hitem => ih hitem hinner
      cases datum with
      | fixed held => exact hview
      | tuple items =>
          rw [viewWithin] at hview ⊢
          obtain ⟨values, hvalues, hvalue⟩ := Option.map_eq_some_iff.mp hview
          rw [hall hvalues, Option.map_some, hvalue]
      | object place =>
          rw [viewWithin] at hview ⊢
          split at hview
          · obtain ⟨values, hvalues, hvalue⟩ := Option.map_eq_some_iff.mp hview
            rw [hall hvalues, Option.map_some, hvalue]
          · obtain ⟨values, hvalues, hvalue⟩ := Option.map_eq_some_iff.mp hview
            refine Option.map_eq_some_iff.mpr ⟨values, ?_, hvalue⟩
            rw [mapM_eq_some_iff] at hvalues ⊢
            refine hvalues.imp fun entry viewed hentry => ?_
            obtain ⟨inner, hheld, hviewed⟩ := Option.map_eq_some_iff.mp hentry
            rw [ih hheld hinner, Option.map_some, hviewed]
          · exact hview
          · cases hview

theorem viewAll_of_viewWithin {memory : Memory} {data : List Datum} {values : List Value}
    (hview : data.mapM (fun datum => memory.viewWithin (nestingLimit - 1) datum) = some values) :
    memory.viewAll data = some values := by
  rw [viewAll, mapM_eq_some_iff]
  exact (mapM_eq_some_iff.mp hview).imp fun _ _ hdatum => viewWithin_mono hdatum (Nat.sub_le _ _)

end Memory

namespace Reference

/-- An open reference gives back what its snapshot views as at the moment. -/
theorem recovers_ofSnapshot {id : Value} {data : List Datum} {values : Snapshot} {host : Host}
    (hview : host.memory.viewAll data = some values)
    (hplaceable : ∀ value ∈ values, value.Placeable nestingLimit) (keyValue : Value) :
    (ofSnapshot id (.tuple data)).Recovers keyValue host values := by
  have hspread : (spread (.tuple data)).perform host = (.ok data, host) := rfl
  refine ⟨(host.memory.placeAll values).2, { host with memory := (host.memory.placeAll values).1 },
    ?_, Memory.viewAll_placeAll hplaceable host.memory⟩
  have hrecover : (ofSnapshot id (.tuple data)).recover keyValue = (do
      freeze (← spread (← (ofSnapshot id (.tuple data)).heldSnapshot))) := rfl
  rw [hrecover, perform_bind, perform_heldSnapshot]
  simp only
  rw [perform_bind, hspread]
  simp only
  rw [perform_freeze hview]

/-- A reference sealed under its id gives back what its plaintext decodes to, on any host. -/
theorem recovers_encrypt {t : Text} {nonce associated octets : Octets} {restored : Snapshot}
    {key : Key} (hassociated : Utf8.encode t = .ok associated)
    (hnonce : nonce.length = Aead.nonceLength) (hdecode : Snapshot.decode octets = .ok restored)
    (inner : Value) (host : Host) :
    (ofEnvelope (.text t)
      ⟨inner, nonce, Aead.encrypt key.octets nonce associated octets⟩).Recovers
        (.bytes key.octets) host restored :=
  ⟨_, _, perform_recover_encrypt key hassociated hnonce hdecode inner host,
    Memory.viewAll_placeAll (Snapshot.placeable_of_decode hdecode) host.memory⟩

/-- Only a reference whose id is a text is sealed. -/
theorem text_of_sealWith {id : Value} {snapshot : Datum} {keyValue : Value} {host later : Host}
    {reference : Reference}
    (hseal : ((ofSnapshot id snapshot).sealWith keyValue).perform host =
      (.ok reference, later)) : ∃ t, id = .text t := by
  rw [sealWith_of_open rfl] at hseal
  obtain ⟨key, _, -, hseal⟩ := perform_bind_eq_ok hseal
  obtain ⟨held, _, -, hseal⟩ := perform_bind_eq_ok hseal
  obtain ⟨values, _, -, hseal⟩ := perform_bind_eq_ok hseal
  obtain ⟨envelope, _, hseal, -⟩ := perform_bind_eq_ok hseal
  rw [Envelope.ofItems] at hseal
  obtain ⟨octets, _, -, hseal⟩ := perform_bind_eq_ok hseal
  obtain ⟨nonce, _, -, hseal⟩ := perform_bind_eq_ok hseal
  obtain ⟨associated, _, hid, -⟩ := perform_bind_eq_ok hseal
  rw [perform_ofExcept] at hid
  cases id with
  | text t => exact ⟨t, rfl⟩
  | _ => cases hid

/-- What the two forms of a reference give back: the values that the snapshot views as when it is
sealed, and the same values with their surrogate pairs joined. -/
theorem recovers_of_sealWith {id : Value} {data : List Datum} {key : Key} {host later : Host}
    {reference : Reference}
    (hseal : ((ofSnapshot id (.tuple data)).sealWith (.bytes key.octets)).perform host =
      (.ok reference, later)) :
    reference.id = id ∧ ∃ values octets, host.memory.viewAll data = some values ∧
      Snapshot.encode values = .ok octets ∧
      (∀ keyValue, (ofSnapshot id (.tuple data)).Recovers keyValue host values) ∧
      ∀ anywhere, reference.Recovers (.bytes key.octets) anywhere (values.map Value.joined) := by
  obtain ⟨t, rfl⟩ := text_of_sealWith hseal
  obtain ⟨values, octets, nonce, associated, hvalues, hencode, hassociated, hnonce, rfl⟩ :=
    sealWith_eq_ok hseal
  have hview := Memory.viewAll_of_viewWithin hvalues
  have hplaceable : ∀ value ∈ values, value.Placeable nestingLimit := fun value hmem =>
    (Snapshot.placeable_of_encode hencode value hmem).mono (Nat.sub_le _ _)
  exact ⟨rfl, values, octets, hview, hencode, recovers_ofSnapshot hview hplaceable,
    recovers_encrypt hassociated hnonce (Snapshot.decode_encode hencode) _⟩

/-- A reference that is sealed as soon as its values are placed gives back what they are encoded and
decoded to, wherever it is opened. -/
theorem recovers_of_sealWith_placed {id : Value} {values : List Value} {key : Key}
    {moment host later : Host} {reference : Reference}
    (hhost : host.memory = (moment.memory.placeAll values).1)
    (hseal : ((ofSnapshot id (.tuple (moment.memory.placeAll values).2)).sealWith
      (.bytes key.octets)).perform host = (.ok reference, later)) :
    reference.id = id ∧ ∃ octets restored, Snapshot.encode values = .ok octets ∧
      Snapshot.decode octets = .ok restored ∧
      ∀ anywhere, reference.Recovers (.bytes key.octets) anywhere restored := by
  obtain ⟨hid, captured, octets, hview, hencode, -, hsealed⟩ := recovers_of_sealWith hseal
  rw [hhost] at hview
  have hsame : captured = values := Memory.eq_of_view_placeAll (.refl _) hview fun value hmem =>
    (Snapshot.placeable_of_encode hencode value hmem).mono (Nat.sub_le _ _)
  rw [hsame] at hencode hsealed
  exact ⟨hid, octets, _, hencode, Snapshot.decode_encode hencode, hsealed⟩

/-- Sealing a bound reference, whatever has happened since it was bound, changes nothing in what it
gives back, up to equality and the order in dictionaries, exactly when no text and no key in the
values has a surrogate pair. -/
theorem sealed_equal_open_iff {handle : Handle} {data : List Datum} {key : Key}
    {host bound before later : Host} {opened reference : Reference}
    (hbind : (handle.bind data).perform host = (.ok opened, bound))
    (hseal : (opened.sealWith (.bytes key.octets)).perform before = (.ok reference, later)) :
    ∃ values, (∀ captured, host.memory.viewAll data = some captured → before = bound →
        captured = values) ∧
      (∀ keyValue, opened.Recovers keyValue before values) ∧
      (∀ anywhere, reference.Recovers (.bytes key.octets) anywhere (values.map Value.joined)) ∧
      (Value.Everywhere Value.KeysDiffer (.list values) →
        (Value.equalAll (values.map Value.joined) values = true ↔
          Value.Everywhere Value.PairFree (.list values))) := by
  obtain ⟨copies, between, hfreeze, hopened⟩ := perform_bind_eq_ok hbind
  cases hopened
  obtain ⟨-, values, octets, hview, hencode, hopen, hsealed⟩ := recovers_of_sealWith hseal
  have hplaceable := Snapshot.placeable_of_encode hencode
  obtain ⟨hpasses, -⟩ := Snapshot.encode_eq_ok hencode
  refine ⟨values, ?_, hopen, hsealed, fun hdiffer => ?_⟩
  · rintro captured hcaptured rfl
    rw [perform_freeze hcaptured] at hfreeze
    cases hfreeze
    exact (Memory.eq_of_view_placeAll (.refl _) hview fun value hmem =>
      (hplaceable value hmem).mono (Nat.sub_le _ _)).symm
  · rw [Value.equalAll_map_iff]
    constructor
    · intro hequal
      refine Value.everywhere_list.mpr ⟨by rintro _ ⟨⟩, fun value hmem => ?_⟩
      exact (Value.equal_joined_iff (hpasses value hmem).textKeyed (hdiffer.item hmem)).mp
        (hequal value hmem)
    · intro hfree value hmem
      exact (Value.equal_joined_iff (hpasses value hmem).textKeyed (hdiffer.item hmem)).mpr
        (hfree.item hmem)

theorem sealed_equal_open_sample : ∃ opened bound reference later values,
    ((⟨Value.ofString "pay"⟩ : Handle).bind [.fixed (Value.ofString "a")]).perform
      Host.untouched = (.ok opened, bound) ∧
    (opened.sealWith (.bytes sampleKey.octets)).perform bound = (.ok reference, later) ∧
    values = [Value.ofString "a"] ∧
    opened.Recovers .null bound values ∧
    (∀ anywhere, reference.Recovers (.bytes sampleKey.octets) anywhere
      (values.map Value.joined)) ∧
    Value.equalAll (values.map Value.joined) values = true := by
  have hbind : ∃ opened bound, ((⟨Value.ofString "pay"⟩ : Handle).bind
      [.fixed (Value.ofString "a")]).perform Host.untouched = (.ok opened, bound) ∧
      ∃ reference later, (opened.sealWith (.bytes sampleKey.octets)).perform bound =
        (.ok reference, later) := ⟨_, _, rfl, _, _, rfl⟩
  obtain ⟨opened, bound, hbind, reference, later, hseal⟩ := hbind
  obtain ⟨values, hcaptured, hopen, hsealed, hequal⟩ := sealed_equal_open_iff hbind hseal
  cases hcaptured [Value.ofString "a"] rfl rfl
  refine ⟨opened, bound, reference, later, _, hbind, hseal, rfl, hopen .null, hsealed, ?_⟩
  rfl

/-- A high surrogate and the low one behind it. -/
def surrogatePair : Text := [⟨0xD800, by decide⟩, ⟨0xDC00, by decide⟩]

/-- A surrogate pair goes in as two code points and comes back as one, so not everything that can be
sealed comes back equal. -/
theorem sealed_not_always_equal_open :
    ¬ ∀ (handle : Handle) (data : List Datum) (key : Key) (host bound later : Host)
        (opened reference : Reference),
      (handle.bind data).perform host = (.ok opened, bound) →
        (opened.sealWith (.bytes key.octets)).perform bound = (.ok reference, later) →
          ∀ values restored, opened.Recovers .null bound values →
            reference.Recovers (.bytes key.octets) later restored →
              Value.equalAll restored values = true := by
  intro hclaim
  have hperformed : ∃ bound reference later, ((⟨Value.ofString "pay"⟩ : Handle).bind
      [.fixed (.text surrogatePair)]).perform Host.untouched =
        (.ok (ofSnapshot (Value.ofString "pay") (.tuple [.fixed (.text surrogatePair)])), bound) ∧
      ((ofSnapshot (Value.ofString "pay") (.tuple [.fixed (.text surrogatePair)])).sealWith
        (.bytes sampleKey.octets)).perform bound = (.ok reference, later) :=
    ⟨_, _, _, rfl, rfl⟩
  obtain ⟨bound, reference, later, hbind, hseal⟩ := hperformed
  obtain ⟨-, values, octets, hview, -, hopen, hsealed⟩ := recovers_of_sealWith hseal
  have hvalues : bound.memory.viewAll [.fixed (.text surrogatePair)] =
      some [.text surrogatePair] := rfl
  rw [hvalues] at hview
  cases hview
  have hequal := hclaim _ _ _ _ _ _ _ _ hbind hseal _ _ (hopen .null) (hsealed later)
  exact absurd hequal (by decide)

end Reference

end SealedCall
