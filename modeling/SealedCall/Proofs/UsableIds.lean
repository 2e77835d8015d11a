import SealedCall.Proofs.FirstEnrolment
import SealedCall.Proofs.Posting
import SealedCall.Proofs.Snapshot.Accepted

/-! # Usable ids

Every text but the empty one may be an id, and what comes after the enrolment takes fewer of them: a
reference is issued for an id without surrogates, and a request finds the action of an id without
slashes. What is issued for such an id is read back, and posted to the path of the id it applies the
implementation once.
-/

namespace SealedCall

open Operation Endpoint

/-! ## Enrolment -/

/-- An enrolment that is not refused leaves its id held, and the id is not empty. -/
theorem held_of_enrol {t : Text} {implementation : Implementation} {name : Value}
    {start host : Host} {held : RosterEntry}
    (henrol : (Enrolment.enrol (.text t) implementation name).perform start = (.ok held, host)) :
    t ≠ [] ∧ host.roster.find? t = some held := by
  have houtcome : (EnrolmentCall.on start (.text t) implementation name).outcome = .ok held := by
    rw [EnrolmentCall.on, henrol]
  constructor
  · rintro rfl
    obtain ⟨log, hperform⟩ := perform_enrol (.text []) implementation name start
    rw [henrol] at hperform
    cases hperform
  · rcases enrol_cases start (.text t) implementation name with
      ⟨_, present, ⟨⟩, hheld, hgranted, hroster⟩ |
      ⟨_, fullName, ⟨⟩, hnew, -, hgranted, hroster⟩ | ⟨failure, hrefused, -⟩
    · rw [houtcome] at hgranted
      cases hgranted
      rw [henrol] at hroster
      exact hroster ▸ hheld
    · rw [houtcome] at hgranted
      cases hgranted
      rw [henrol] at hroster
      rw [hroster, Roster.find?_after_added hnew, if_pos rfl]
    · rw [houtcome] at hrefused
      cases hrefused

/-! ## Issuing -/

/-- Values that are encoded can be viewed inside one tuple when they have been placed. -/
theorem view_placed {values : Snapshot} {octets : Octets}
    (hencode : Snapshot.encode values = .ok octets) (memory : Memory) :
    (memory.placeAll values).1.view (.tuple (memory.placeAll values).2) =
      some (.tuple values) := by
  have hitems := Memory.view_placeAll_of_forall (fun value hmem =>
    Memory.view_place (Snapshot.placeable_of_encode hencode value hmem)) memory
  rw [Memory.view_tuple, hitems, Option.map_some]

/-- An open reference to values that are encoded is sealed unless its id has no octets. -/
theorem Reference.perform_sealWith_of_encode (id : Value) (key : Key) {octets : Octets}
    {data : List Datum} {values : Snapshot} {host : Host}
    (hview : host.memory.view (.tuple data) = some (.tuple values))
    (hencode : Snapshot.encode values = .ok octets)
    (hnonce : (host.random.draw Aead.nonceLength).1.length = Aead.nonceLength) :
    ((ofSnapshot id (.tuple data)).sealWith (.bytes key.octets)).perform host =
      ((Envelope.idOctets id).map fun associated => .ofEnvelope id
          ⟨id, (host.random.draw Aead.nonceLength).1,
            Aead.encrypt key.octets (host.random.draw Aead.nonceLength).1 associated octets⟩,
        { host with random := (host.random.draw Aead.nonceLength).2 }) := by
  have hitems : (Value.tuple values).items? = some values := rfl
  have hmade := Snapshot.perform_ofItems id key hitems hnonce
  rw [hencode] at hmade
  rw [sealWith_of_open rfl, key.ofValue_bytes, perform_bind, perform_ofExcept]
  simp only
  rw [perform_bind, perform_heldSnapshot]
  simp only
  rw [perform_bind, perform_view, hview]
  simp only
  have hid : (ofSnapshot id (.tuple data)).id = id := rfl
  rw [perform_bind, hid, hmade]
  cases Envelope.idOctets id with
  | error failure => rfl
  | ok associated => rfl

namespace Service

variable {t : Text} {held : RosterEntry} {data : List Datum} {values : Snapshot} {octets : Octets}
  {host : Host}

/-- A reference is issued for an id that is held, and values that are encoded, unless the id has no
octets. -/
theorem issue_of_encode (service : Service) (hheld : host.roster.find? t = some held)
    (hview : host.memory.viewAll data = some values)
    (hencode : Snapshot.encode values = .ok octets)
    (hnonce : (host.random.draw Aead.nonceLength).1.length = Aead.nonceLength) :
    ((service.issue (.text t) data).perform host).1 =
      (ActionId.octets t).map fun associated => .ofEnvelope (.text t)
        ⟨.text t, (host.random.draw Aead.nonceLength).1,
          Aead.encrypt service.key.octets (host.random.draw Aead.nonceLength).1 associated
            octets⟩ := by
  have hentry : host.roster.entry (.text t) = .ok held := by
    rw [Roster.entry, Roster.lookup, hheld]
  have hhandle : (Handle.ofRegistered (.text t)).perform host = (.ok ⟨.text t⟩, host) := by
    rw [Handle.ofRegistered, perform_bind, perform_get]
    simp only [hentry]
    rfl
  have hplaced : ({ host with memory := (host.memory.placeAll values).1 } : Host).memory.view
      (.tuple (host.memory.placeAll values).2) = some (.tuple values) :=
    view_placed hencode host.memory
  rw [issue, perform_bind, hhandle]
  simp only
  rw [perform_bind, Handle.perform_bind hview]
  simp only
  exact congrArg Prod.fst
    (Reference.perform_sealWith_of_encode (.text t) service.key hplaced hencode hnonce)

end Service

/-! ## Posting what was issued -/

/-- Whether an invocation under an id applies an implementation once, to data that stand for some
values at the time, and ends as that application does. -/
def AppliesOnce (invocation : Behaviour → Activity Datum) (host : Host) (t : Text)
    (implementation : Implementation) (values : List Value) : Prop :=
  ∃ data before, before.memory.viewAll data = some values ∧
    ∀ behaviour, (invocation behaviour).run host =
      Invocation.conclude (.text t) ((behaviour implementation data).run before)

/-- The wire form of what is sealed under a nonce for an id with its octets. -/
def Service.sealedWire (service : Service) (t : Text) (nonce associated plaintext : Octets) :
    WireForm :=
  ⟨t, Base64.encode .urlSafe nonce,
    Base64.encode .urlSafe (Aead.encrypt service.key.octets nonce associated plaintext)⟩

section

variable {t : Text} {nonce associated plaintext : Octets} (hid : t ≠ [])
  (hassociated : Utf8.encode t = .ok associated) (hnonce : nonce.length = Aead.nonceLength)

include hid hassociated hnonce

theorem sound_sealedWire (service : Service) :
    (service.sealedWire t nonce associated plaintext).Sound := by
  have hsome : nonce ≠ [] := List.ne_nil_of_length_pos (by rw [hnonce]; decide)
  simp only [WireForm.Sound, Service.sealedWire, List.forall_mem_cons]
  exact ⟨⟨hid, Utf8.hasSurrogate_of_encode hassociated⟩,
    ⟨Base64.encode_ne_nil _ hsome, Base64.hasSurrogate_encode _ _⟩,
    ⟨Base64.encode_ne_nil _ (Aead.encrypt_ne_nil _ _ _ _), Base64.hasSurrogate_encode _ _⟩,
    List.forall_mem_nil _⟩

theorem ofWireValue_sealedWire (service : Service) :
    Reference.ofWireValue (service.sealedWire t nonce associated plaintext).value =
      .ok (.ofEnvelope (.text t)
        ⟨.text t, nonce, Aead.encrypt service.key.octets nonce associated plaintext⟩) := by
  have hsome : nonce ≠ [] := List.ne_nil_of_length_pos (by rw [hnonce]; decide)
  have hwritten : (Reference.ofEnvelope (.text t) ⟨.text t, nonce,
      Aead.encrypt service.key.octets nonce associated plaintext⟩).wireForm =
        .ok (service.sealedWire t nonce associated plaintext).value := rfl
  exact Reference.ofWireValue_wireForm hid (Utf8.hasSurrogate_of_encode hassociated) hsome
    (Aead.encrypt_ne_nil _ _ _ _) hwritten

/-- Invoking the wire form applies the implementation that is held under the id, to the values that
the plaintext decodes to and then to the arguments. -/
theorem appliesOnce_sealedWire (service : Service) {restored : Snapshot}
    (hdecode : Snapshot.decode plaintext = .ok restored) {host : Host} {held : RosterEntry}
    (hheld : host.roster.find? t = some held) {order : Order}
    (hplaceable : ∀ argument ∈ order.arguments, argument.Placeable nestingLimit) :
    AppliesOnce (fun behaviour =>
        inProcess service behaviour (service.sealedWire t nonce associated plaintext).value order)
      host t held.implementation (restored ++ order.arguments) := by
  have hplace := perform_placeAll order.arguments host
  have hkept : ({ host with memory := (host.memory.placeAll order.arguments).1 } :
      Host).roster.find? t = some held := hheld
  obtain ⟨recovered, before, hextends, hrecovered, happlied⟩ :=
    Service.runWritten_of_held hid hassociated hnonce hdecode rfl hkept
      (host.memory.placeAll order.arguments).2
  have harguments := Memory.viewAll_of_extends hextends (Memory.viewAll_placeAll hplaceable _)
  refine ⟨recovered ++ (host.memory.placeAll order.arguments).2, before, ?_, fun behaviour => ?_⟩
  · rw [Memory.viewAll, mapM_eq_some_iff] at hrecovered harguments ⊢
    exact List.rel_append hrecovered harguments
  · rw [run_inProcess hplace]
    exact (happlied behaviour).2

/-- A request that posts the wire form is answered with the reply to invoking it, where the id has
no slash. -/
theorem respond_sealedWire (service : Service) (hslash : hasSlash t = false) {request : Request}
    {arguments : List Value} {wire : WireForm}
    (hwire : wire = service.sealedWire t nonce associated plaintext)
    (hposts : request.Posts t wire.value arguments) (behaviour : Behaviour) :
    respond service behaviour request =
      replied (inProcess service behaviour wire.value ⟨wire, arguments⟩) := by
  subst hwire
  have hsound : (service.sealedWire t nonce associated plaintext).Sound :=
    sound_sealedWire hid hassociated hnonce service
  rw [respond_of_reaches (reaches_of_posts hsound hposts hslash)]
  exact fulfil_of_read (WireForm.ofValue?_value hsound)
    (ofWireValue_sealedWire hid hassociated hnonce service)

end

theorem captureLimit_le : captureLimit ≤ nestingLimit := by decide

/-- An id that was accepted for enrolment takes values that have a JSON form and do not nest too deep
to be captured, unless a surrogate is in it. What is issued then has a wire form that is read as the
same reference, and a client can post it. Whenever the id is still held, invoking the wire form
applies the implementation once, and a request that posts it is answered with the reply to that
invocation, unless a slash is in the id: then the request is turned away with nothing done. -/
theorem enrolled_id_usable (service : Service) {t : Text} {implementation : Implementation}
    {name : Value} {start host : Host} {held : RosterEntry}
    (henrol : (Enrolment.enrol (.text t) implementation name).perform start = (.ok held, host))
    {data : List Datum} {values : Snapshot} (hview : host.memory.viewAll data = some values)
    (hdepth : Value.depth (.list values) ≤ captureLimit)
    (hform : ∀ value ∈ values, value.Everywhere Value.HasJsonForm)
    (hnonce : (host.random.draw Aead.nonceLength).1.length = Aead.nonceLength) :
    (start.roster.find? t = none → held.implementation = implementation) ∧
    (t.hasSurrogate = true → ∃ fault,
      ((service.issue (.text t) data).perform host).1 = .error (.misuse (.unencodable fault))) ∧
    (t.hasSurrogate = false → ∃ reference issued wire,
      (service.issue (.text t) data).perform host = (.ok reference, issued) ∧
      reference.wireForm = .ok (WireForm.value wire) ∧
      Reference.ofWireValue wire.value = .ok reference ∧
      issued.roster.find? t = some held ∧
      (Request.posting wire).Posts t wire.value [] ∧
      ∀ (request : Request) (arguments : List Value) (later : Host),
        request.Posts t wire.value arguments → later.roster.find? t = some held →
          AppliesOnce (fun behaviour => inProcess service behaviour wire.value ⟨wire, arguments⟩)
            later t held.implementation (values.map Value.joined ++ arguments) ∧
          (hasSlash t = false → ∀ behaviour, respond service behaviour request =
            replied (inProcess service behaviour wire.value ⟨wire, arguments⟩)) ∧
          (hasSlash t = true → ∃ reply,
            (reply = .detail 404 (Text.of "Not Found") ∨ reply = .text 307 []) ∧
              ∀ behaviour, respond service behaviour request = .done (.ok reply))) := by
  obtain ⟨hid, hheld⟩ := held_of_enrol henrol
  obtain ⟨plaintext, hencode⟩ := (Snapshot.encodes_iff (hdepth.trans captureLimit_le)).mpr hform
  have hissue := service.issue_of_encode hheld hview hencode hnonce
  generalize (host.random.draw Aead.nonceLength).1 = nonce at hnonce hissue
  refine ⟨fun hnew => (find?_of_enrol hnew henrol).2.2, fun hsurrogate => ?_, fun hplain => ?_⟩
  · rw [hissue, ActionId.octets]
    cases hassociated : Utf8.encode t with
    | error fault => exact ⟨fault, rfl⟩
    | ok associated =>
        rw [Utf8.hasSurrogate_of_encode hassociated] at hsurrogate
        cases hsurrogate
  · obtain ⟨associated, hassociated⟩ := Utf8.exists_encode hplain
    rw [ActionId.octets, hassociated] at hissue
    have hkept : SameRoster host _ := sameRoster_issue service (.text t) data host
    refine ⟨_, _, service.sealedWire t nonce associated plaintext, Prod.ext hissue rfl, rfl,
      ofWireValue_sealedWire hid hassociated hnonce service, hkept ▸ hheld,
      posts_posting (sound_sealedWire hid hassociated hnonce service), ?_⟩
    intro request arguments later hposts hlater
    refine ⟨?_, fun hslash => ?_, fun hslash => ?_⟩
    · exact appliesOnce_sealedWire hid hassociated hnonce service
        (Snapshot.decode_encode hencode) hlater (placeable_of_posts hposts)
    · exact respond_sealedWire hid hassociated hnonce service hslash rfl hposts
    · obtain ⟨reply, hreply, hresponds⟩ := respond_of_hasSlash hid hposts hslash
      exact ⟨reply, hreply, hresponds service⟩

/-- An action under an id with a slash is enrolled, bound and invoked, but not found by its path. -/
theorem enrolled_id_usable_sample :
    ∃ held host reference issued wire,
      (Enrolment.enrol (Value.ofString "a/b") .sample .null).perform Host.untouched =
        (.ok held, host) ∧
      (Service.sample.issue (Value.ofString "a/b") [.fixed (Value.ofString "a")]).perform host =
        (.ok reference, issued) ∧ reference.wireForm = .ok (WireForm.value wire) ∧
      AppliesOnce (fun behaviour => inProcess .sample behaviour wire.value ⟨wire, []⟩) issued
        (Text.of "a/b") .sample [Value.ofString "a"] ∧
      ∃ reply, (reply = .detail 404 (Text.of "Not Found") ∨ reply = .text 307 []) ∧
        ∀ behaviour, respond .sample behaviour (Request.posting wire) = .done (.ok reply) := by
  have henrol : ∃ held host, (Enrolment.enrol (Value.ofString "a/b") .sample .null).perform
      Host.untouched = (.ok held, host) ∧
        host.memory.viewAll [.fixed (Value.ofString "a")] = some [Value.ofString "a"] ∧
          (host.random.draw Aead.nonceLength).1.length = Aead.nonceLength := ⟨_, _, rfl, rfl, rfl⟩
  obtain ⟨held, host, henrol, hview, hnonce⟩ := henrol
  have hdepth : Value.depth (.list [Value.ofString "a"]) ≤ captureLimit := by decide
  have hform : ∀ value ∈ [Value.ofString "a"], value.Everywhere Value.HasJsonForm :=
    List.forall_mem_singleton.mpr (Value.everywhere_iff.mpr ⟨True.intro, True.intro⟩)
  obtain ⟨himplementation, -, husable⟩ :=
    enrolled_id_usable .sample henrol hview hdepth hform hnonce
  obtain ⟨reference, issued, wire, hissue, hwire, -, hheld, hposts, hserves⟩ := husable rfl
  obtain ⟨happlies, -, hturnedAway⟩ := hserves _ _ issued hposts hheld
  rw [himplementation rfl] at happlies
  exact ⟨held, host, reference, issued, wire, henrol, hissue, hwire, happlies, hturnedAway rfl⟩

end SealedCall
