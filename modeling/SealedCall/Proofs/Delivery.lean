import SealedCall.Proofs.Authenticity
import SealedCall.Proofs.Invocation
import SealedCall.Proofs.Session
import SealedCall.Proofs.Snapshot.RoundTrip
import SealedCall.Proofs.WireForm

/-! # Delivery

What is bound and sealed on the way out arrives on the way in: the wire form of an issued reference
is read back, its envelope opens, and the values in it go to the implementation that was enrolled
first, whatever has happened in between.
-/

namespace SealedCall

open Operation

namespace Snapshot

/-- What is let through and printed has no object without content in it. -/
theorem placeable_of_print {v : Value} {levels : Nat} (hpasses : Passes levels v) {written : Text}
    (hprint : Json.print v = .ok written) : v.Placeable levels := by
  induction v using Value.nested_induction generalizing levels written with
  | list items ih =>
      obtain ⟨inner, rfl, hitems⟩ := hpasses.list
      obtain ⟨-, hwritten⟩ := Json.print_list_eq_ok hprint
      exact .list fun item hmem => ih item hmem (hitems item hmem) (hwritten item hmem)
  | dict entries ih =>
      obtain ⟨inner, rfl, hentries⟩ := hpasses.dict
      obtain ⟨-, hwritten⟩ :=
        Json.print_dict_eq_ok (fun entry hmem => (hentries entry hmem).1) hprint
      exact .dict fun entry hmem =>
        (ih entry hmem).2 (hentries entry hmem).2 (hwritten entry hmem)
  | tuple items _ =>
      obtain ⟨path, hcheck⟩ := hpasses
      cases hcheck
  | foreign kind => cases hprint
  | _ => exact .plain rfl

theorem placeable_of_encode {values : Snapshot} {octets : Octets}
    (hencode : encode values = .ok octets) :
    ∀ value ∈ values, value.Placeable (nestingLimit - 1) := by
  obtain ⟨hpasses, written, hprint, -⟩ := encode_eq_ok hencode
  obtain ⟨-, hwritten⟩ := Json.print_list_eq_ok hprint
  exact fun value hmem => placeable_of_print (hpasses value hmem) (hwritten value hmem)

end Snapshot

/-! ## Issuing -/

theorem Key.ofValue_bytes (key : Key) : Key.ofValue (.bytes key.octets) = .ok key := by
  rw [Key.ofValue, Key.ofOctets, dif_pos key.length_eq]

/-- Freezing places the values that the data stand for at the moment. -/
theorem perform_freeze {data : List Datum} {values : List Value} {host : Host}
    (hview : host.memory.viewAll data = some values) :
    (freeze data).perform host =
      (.ok (host.memory.placeAll values).2,
        { host with memory := (host.memory.placeAll values).1 }) := by
  induction data generalizing values host with
  | nil =>
      cases hview
      rfl
  | cons datum rest ih =>
      rw [Memory.viewAll, mapM_eq_some_iff] at hview
      obtain ⟨first, more, hfirst, hmore, rfl⟩ := List.forall₂_cons_left_iff.mp hview
      have hrest : (host.memory.place first).1.viewAll rest = some more :=
        Memory.viewAll_of_extends (Memory.extends_place _ _) (mapM_eq_some_iff.mpr hmore)
      rw [freeze, perform_bind, perform_view, hfirst]
      simp only
      rw [perform_bind, perform_place]
      simp only
      rw [perform_bind, ih hrest]
      rfl

/-- The snapshot that an open reference is made of is what it holds. -/
theorem Reference.perform_heldSnapshot (id : Value) (data : List Datum) (host : Host) :
    (ofSnapshot id (.tuple data)).heldSnapshot.perform host = (.ok (.tuple data), host) := by
  rw [heldSnapshot, perform_bind, perform_get]
  cases data with
  | nil => rfl
  | cons datum rest => rfl

theorem Handle.ofRegistered_eq_ok {id : Value} {handle : Handle} {host later : Host}
    (hhandle : (ofRegistered id).perform host = (.ok handle, later)) :
    handle = ⟨id⟩ ∧ later = host := by
  rw [ofRegistered, perform_bind, perform_get] at hhandle
  simp only at hhandle
  split at hhandle
  · cases hhandle
    exact ⟨rfl, rfl⟩
  · cases hhandle

theorem Handle.perform_bind {handle : Handle} {data : List Datum} {values : List Value}
    {host : Host} (hview : host.memory.viewAll data = some values) :
    (handle.bind data).perform host =
      (.ok (.ofSnapshot handle.id (.tuple (host.memory.placeAll values).2)),
        { host with memory := (host.memory.placeAll values).1 }) := by
  rw [Handle.bind, Operation.perform_bind, perform_freeze hview]
  rfl

/-- Only what can be viewed as one tuple is sealed, and its items are encoded and encrypted. -/
theorem Reference.sealWith_eq_ok {t : Text} {data : List Datum} {key : Key} {host later : Host}
    {reference : Reference}
    (hseal : ((ofSnapshot (.text t) (.tuple data)).sealWith (.bytes key.octets)).perform host =
      (.ok reference, later)) :
    ∃ captured octets nonce associated,
      data.mapM (fun datum => host.memory.viewWithin (nestingLimit - 1) datum) = some captured ∧
        Snapshot.encode captured = .ok octets ∧ Utf8.encode t = .ok associated ∧
          nonce.length = Aead.nonceLength ∧
            reference = .ofEnvelope (.text t)
              ⟨.text t, nonce, Aead.encrypt key.octets nonce associated octets⟩ := by
  rw [sealWith_of_open rfl, key.ofValue_bytes] at hseal
  obtain ⟨_, _, hchecked, hseal⟩ := perform_bind_eq_ok hseal
  rw [perform_ofExcept] at hchecked
  cases hchecked
  obtain ⟨_, _, hheld, hseal⟩ := perform_bind_eq_ok hseal
  rw [perform_heldSnapshot] at hheld
  cases hheld
  obtain ⟨view, _, hview, hseal⟩ := perform_bind_eq_ok hseal
  -- the values stand inside one tuple, so they are viewed with one level less
  rw [perform_view, Memory.view_tuple] at hview
  split at hview
  · next captured hcaptured =>
      cases hview
      obtain ⟨items, hitems, rfl⟩ := Option.map_eq_some_iff.mp hcaptured
      obtain ⟨envelope, _, henvelope, hseal⟩ := perform_bind_eq_ok hseal
      cases hseal
      obtain ⟨viewed, octets, nonce, associated, hviewed, hencode, hassociated, hnonce, rfl⟩ :=
        Envelope.ofItems_eq_ok henvelope
      cases hviewed
      exact ⟨items, octets, nonce, associated, hitems, hencode, hassociated, hnonce, rfl⟩
  · cases hview

/-- What it takes to issue a reference, and what comes of it: the values that the data stood for are
encoded and encrypted for the id. -/
theorem Service.issue_eq_ok {service : Service} {t : Text} {data : List Datum} {values : List Value}
    {host later : Host} {reference : Reference} (hview : host.memory.viewAll data = some values)
    (hissue : (service.issue (.text t) data).perform host = (.ok reference, later)) :
    ∃ octets nonce associated, Snapshot.encode values = .ok octets ∧
      Utf8.encode t = .ok associated ∧ nonce.length = Aead.nonceLength ∧
        reference = .ofEnvelope (.text t)
          ⟨.text t, nonce, Aead.encrypt service.key.octets nonce associated octets⟩ := by
  obtain ⟨handle, _, hhandle, hbind⟩ := perform_bind_eq_ok hissue
  obtain ⟨rfl, rfl⟩ := Handle.ofRegistered_eq_ok hhandle
  obtain ⟨_, _, hbound, hseal⟩ := perform_bind_eq_ok hbind
  rw [Handle.perform_bind hview] at hbound
  cases hbound
  obtain ⟨captured, octets, nonce, associated, hcaptured, hencode, hassociated, hnonce, rfl⟩ :=
    Reference.sealWith_eq_ok hseal
  -- freezing gives new numbers to objects without content, but none of these was encoded
  have hsame : captured = values := Memory.eq_of_view_placeAll (.refl _) hcaptured
    (Snapshot.placeable_of_encode hencode)
  rw [hsame] at hencode
  exact ⟨octets, nonce, associated, hencode, hassociated, hnonce, rfl⟩

/-! ## Arriving -/

/-- A reference sealed under its id is recovered by placing what its plaintext decodes to. -/
theorem Reference.perform_recover_encrypt {t : Text} {nonce associated octets : Octets}
    {restored : Snapshot} (key : Key) (hassociated : Utf8.encode t = .ok associated)
    (hnonce : nonce.length = Aead.nonceLength) (hdecode : Snapshot.decode octets = .ok restored)
    (inner : Value) (host : Host) :
    ((ofEnvelope (.text t)
      ⟨inner, nonce, Aead.encrypt key.octets nonce associated octets⟩).recover
        (.bytes key.octets)).perform host =
      (.ok (host.memory.placeAll restored).2,
        { host with memory := (host.memory.placeAll restored).1 }) := by
  rw [recover_eq_openWith rfl key.ofValue_bytes, perform_bind, effectiveEnvelope, ofEnvelope,
    Envelope.perform_openWith_encrypt hassociated hnonce, hdecode]
  simp only
  rw [perform_placeAll]

/-- The wire form of a reference sealed under its id goes to whatever is held under the id at the
time, with what its plaintext decodes to. -/
theorem Service.runWritten_of_held {service : Service} {t : Text}
    {nonce associated octets : Octets} {restored : Snapshot} {wire : Value} {later : Host}
    {held : RosterEntry} (hid : t ≠ []) (hassociated : Utf8.encode t = .ok associated)
    (hnonce : nonce.length = Aead.nonceLength) (hdecode : Snapshot.decode octets = .ok restored)
    (hwire : (Reference.ofEnvelope (.text t) ⟨.text t, nonce,
      Aead.encrypt service.key.octets nonce associated octets⟩).wireForm = .ok wire)
    (hheld : later.roster.find? t = some held) (arguments : List Datum) :
    ∃ recovered before, later.memory.Extends before.memory ∧
      before.memory.viewAll recovered = some restored ∧
      ∀ applied : Behaviour,
        (service.runWritten applied wire arguments).advance later =
          (Invocation.spanned (.text t) (Invocation.apply applied (.text t) held.implementation
            (recovered ++ arguments))).advance before ∧
        (service.runWritten applied wire arguments).run later =
          Invocation.conclude (.text t)
            ((applied held.implementation (recovered ++ arguments)).run before) := by
  have hsome : nonce ≠ [] := List.ne_nil_of_length_pos (by rw [hnonce]; decide)
  have hread := Reference.ofWireValue_wireForm hid (Utf8.hasSurrogate_of_encode hassociated) hsome
    (Aead.encrypt_ne_nil _ _ _ _) hwire
  have hrecover := Reference.perform_recover_encrypt service.key hassociated hnonce hdecode
    (.text t) later
  have hlookup := Roster.implementationOf_text hheld
  refine ⟨_, { later with memory := (later.memory.placeAll restored).1 },
    Memory.extends_placeAll _ _, Memory.viewAll_placeAll (Snapshot.placeable_of_decode hdecode) _,
    fun applied => ?_⟩
  rw [runWritten, hread]
  exact ⟨Invocation.advance_of_lookup hrecover hlookup applied arguments,
    Invocation.applies_of_lookup hrecover hlookup applied⟩

/-- Every invocation of the wire form of an issued reference, whatever was done with the service
since, goes to the implementation that was the first to be enrolled under the id and not refused. It
is applied once, to what the values at the time of issue are encoded and decoded to, followed by the
arguments, and the invocation ends as that application does: with its result, or with what it raised
as the failure of the action, unless that aborts. -/
theorem Service.delivers {service : Service} {behaviour : Behaviour}
    (hbehaviour : behaviour.Orderly) {start : Session} (hstart : start.Orderly) {t : Text}
    {implementation : Implementation} {name : Value} {held : RosterEntry} {enrolled : Host}
    (hnew : start.host.roster.find? t = none)
    (henrol : (Enrolment.enrol (.text t) implementation name).perform start.host =
      (.ok held, enrolled))
    {captured : Session} {earlier : List Move}
    (hcaptured : captured = { start with host := enrolled }.after service behaviour earlier)
    {data : List Datum} {values : Snapshot}
    (hview : captured.host.memory.viewAll data = some values)
    {reference : Reference} {issued : Host} {wire : Value}
    (hissue : (service.issue (.text t) data).perform captured.host = (.ok reference, issued))
    (hwire : reference.wireForm = .ok wire) :
    ∃ octets restored, Snapshot.encode values = .ok octets ∧
      Snapshot.decode octets = .ok restored ∧
      ∀ moves later, later = { captured with host := issued }.after service behaviour moves →
        ∀ arguments, ∃ recovered before, later.host.memory.Extends before.memory ∧
          before.memory.viewAll recovered = some restored ∧
          ∀ applied : Behaviour,
            (service.runWritten applied wire arguments).advance later.host =
              (Invocation.spanned (.text t) (Invocation.apply applied (.text t) implementation
                (recovered ++ arguments))).advance before ∧
            (service.runWritten applied wire arguments).run later.host =
              Invocation.conclude (.text t)
                ((applied implementation (recovered ++ arguments)).run before) ∧
            (∀ result, ((applied implementation (recovered ++ arguments)).run before).1 =
                .ok result →
              ((service.runWritten applied wire arguments).run later.host).1 = .ok result) ∧
            (∀ failure, ((applied implementation (recovered ++ arguments)).run before).1 =
                .error failure → failure.isAbort = true →
              ((service.runWritten applied wire arguments).run later.host).1 = .error failure) ∧
            ∀ failure, ((applied implementation (recovered ++ arguments)).run before).1 =
                .error failure → failure.isAbort = false → failure.isShowable = true →
              ((service.runWritten applied wire arguments).run later.host).1 =
                .error (.execution (.text t) failure) := by
  obtain ⟨hid, hheld, rfl⟩ := find?_of_enrol hnew henrol
  obtain ⟨octets, nonce, associated, hencode, hassociated, hnonce, rfl⟩ := issue_eq_ok hview hissue
  have hdecode := Snapshot.decode_encode hencode
  refine ⟨octets, _, hencode, hdecode, ?_⟩
  intro moves later hlater arguments
  -- from the enrolment to the capture, while issuing, and from there on
  have hgrown : Grown enrolled later.host := by
    have hbegun : Session.Orderly { start with host := enrolled } := hstart
    obtain ⟨horderly, hfirst⟩ := Session.after_spec hbehaviour hbegun earlier
    rw [← hcaptured] at horderly hfirst
    have hkept := sameRoster_issue service (.text t) data captured.host
    rw [hissue] at hkept
    have hgoing : Session.Orderly { captured with host := issued } := horderly
    obtain ⟨-, hsecond⟩ := Session.after_spec hbehaviour hgoing moves
    rw [← hlater] at hsecond
    exact grown_accumulates.trans hfirst
      (grown_accumulates.trans (grown_of_sameRoster _ _ hkept) hsecond)
  obtain ⟨recovered, before, hextends, hrecovered, happlied⟩ :=
    runWritten_of_held hid hassociated hnonce hdecode hwire (hgrown.find? hheld) arguments
  refine ⟨recovered, before, hextends, hrecovered, fun applied => ?_⟩
  obtain ⟨hadvance, hrun⟩ := happlied applied
  refine ⟨hadvance, hrun, ?_⟩
  rw [hrun]
  exact Invocation.wrapped_tells t _

/-- An implementation that tells where it is defined. -/
def Implementation.sample : Implementation :=
  ⟨1, 1, true, Text.of "function", some (Value.ofString "shop"), some (Value.ofString "pay"), none,
    true, none⟩

/-- Implementations that all come back with nothing. -/
def Behaviour.sample : Behaviour := fun _ _ => .done (.ok (.fixed .null))

/-- The service under the key of zeros. -/
def Service.sample : Service := ⟨Reference.sampleKey⟩

/-- The session in which one implementation was enrolled and nothing else was done. -/
def Session.sample : Session :=
  ⟨((Enrolment.enrol (Value.ofString "pay") .sample .null).perform Host.untouched).2, []⟩

/-- Implementations that all raise the same. -/
def Behaviour.failing (failure : Failure) : Behaviour := fun _ _ => .done (.error failure)

theorem Service.delivers_sample :
    ∃ reference issued wire,
      (sample.issue (Value.ofString "pay") [.fixed (Value.ofString "a")]).perform
        Session.sample.host = (.ok reference, issued) ∧ reference.wireForm = .ok wire ∧
      ∀ moves later, later = { Session.sample with host := issued }.after sample .sample moves →
        ∀ arguments, ∃ recovered before,
          before.memory.viewAll recovered = some [Value.ofString "a"] ∧
          (∀ applied : Behaviour, (sample.runWritten applied wire arguments).run later.host =
            Invocation.conclude (Value.ofString "pay")
              ((applied .sample (recovered ++ arguments)).run before)) ∧
          ((sample.runWritten .sample wire arguments).run later.host).1 = .ok (.fixed .null) ∧
          ∀ failure : Failure, failure.isAbort = false → failure.isShowable = true →
            ((sample.runWritten (.failing failure) wire arguments).run later.host).1 =
              .error (.execution (Value.ofString "pay") failure) := by
  have hencoded : Snapshot.encode [Value.ofString "a"] = .ok [0x5B, 0x22, 0x61, 0x22, 0x5D] := rfl
  have hdecoded : Snapshot.decode [0x5B, 0x22, 0x61, 0x22, 0x5D] = .ok [Value.ofString "a"] := rfl
  have henrol : ∃ held, (Enrolment.enrol (Value.ofString "pay") .sample .null).perform
      Host.untouched = (.ok held, Session.sample.host) := ⟨_, rfl⟩
  have hissue : ∃ issued, (sample.issue (Value.ofString "pay")
      [.fixed (Value.ofString "a")]).perform Session.sample.host =
        (.ok (.ofEnvelope (Value.ofString "pay") ⟨Value.ofString "pay", List.replicate 24 0,
          Aead.encrypt Reference.sampleKey.octets (List.replicate 24 0) [0x70, 0x61, 0x79]
            [0x5B, 0x22, 0x61, 0x22, 0x5D]⟩), issued) := ⟨_, rfl⟩
  obtain ⟨held, henrol⟩ := henrol
  obtain ⟨issued, hissue⟩ := hissue
  have horderly : Behaviour.sample.Orderly := fun _ _ => Activity.orderly_done _
  have hstart : Session.Orderly ⟨Host.untouched, []⟩ := by rintro _ ⟨⟩
  have hcaptured : Session.sample = Session.sample.after sample .sample [] := rfl
  have hview : Session.sample.host.memory.viewAll [.fixed (Value.ofString "a")] =
      some [Value.ofString "a"] := rfl
  obtain ⟨octets, restored, hencode, hdecode, hdelivers⟩ :=
    delivers horderly hstart rfl henrol hcaptured hview hissue rfl
  rw [hencoded] at hencode
  cases hencode
  rw [hdecoded] at hdecode
  cases hdecode
  refine ⟨_, issued, _, hissue, rfl, ?_⟩
  rintro moves _ rfl arguments
  obtain ⟨recovered, before, -, hviewed, happlied⟩ := hdelivers moves _ rfl arguments
  refine ⟨recovered, before, hviewed, fun applied => (happlied applied).2.1, ?_, ?_⟩
  · exact (happlied .sample).2.2.1 _ rfl
  · exact fun failure => (happlied (.failing failure)).2.2.2.2 failure rfl

end SealedCall
