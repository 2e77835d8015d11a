import SealedCall.Proofs.BasicSteps
import SealedCall.Proofs.Delivery
import SealedCall.Proofs.Isolation.Scene

/-! # The supply of nonces

Every envelope that is made takes its nonce from a draw of its own: sealing draws once, when key and
values have been accepted, and nothing else that is done with references draws at all. Draws are
numbered, and what is drawn later has a higher number.
-/

namespace SealedCall

open Operation

/-! ## Draws -/

/-- Whether two hosts have the same random source with the same draws behind it. -/
def SameRandom (host later : Host) : Prop := later.random = host.random

theorem sameRandom_quiet : Quiet SameRandom where
  refl _ := rfl
  trans hfirst hsecond := hsecond.trans hfirst
  place _ _ := rfl
  record _ _ _ _ := rfl

/-- Whether nothing has happened to the random source but draws. -/
def Drawn (host later : Host) : Prop :=
  later.random.octets = host.random.octets ∧ host.random.drawn ≤ later.random.drawn

theorem Drawn.of_sameRandom {host later : Host} (hsame : SameRandom host later) :
    Drawn host later := by
  rw [Drawn, hsame]
  exact ⟨rfl, Nat.le_refl _⟩

theorem Drawn.trans {host between later : Host} (hfirst : Drawn host between)
    (hsecond : Drawn between later) : Drawn host later :=
  ⟨hsecond.1.trans hfirst.1, hfirst.2.trans hsecond.2⟩

/-- Whether the nonces of envelopes are draws that were made between two moments, each a draw of its
own and of the length of a nonce. -/
def Supplies (host : Host) (created : List Envelope) (later : Host) : Prop :=
  Drawn host later ∧ ∃ draws : List Nat, draws.Pairwise (· < ·) ∧
    (∀ draw ∈ draws, host.random.drawn ≤ draw ∧ draw < later.random.drawn) ∧
    created.map Envelope.nonce =
      draws.map (fun draw => host.random.octets draw Aead.nonceLength) ∧
    ∀ envelope ∈ created, envelope.nonce.length = Aead.nonceLength

theorem supplies_nothing {host later : Host} (hdrawn : Drawn host later) :
    Supplies host [] later :=
  ⟨hdrawn, [], .nil, List.forall_mem_nil _, rfl, List.forall_mem_nil _⟩

/-- What is drawn later has a higher number than anything that was drawn before. -/
theorem Supplies.append {host between later : Host} {created more : List Envelope}
    (hfirst : Supplies host created between) (hsecond : Supplies between more later) :
    Supplies host (created ++ more) later := by
  obtain ⟨hdrawn, draws, hsorted, hwindow, hnonces, hlengths⟩ := hfirst
  obtain ⟨hmore, others, hsorted', hwindow', hnonces', hlengths'⟩ := hsecond
  refine ⟨hdrawn.trans hmore, draws ++ others, ?_, ?_, ?_, ?_⟩
  · refine List.pairwise_append.mpr ⟨hsorted, hsorted', fun draw hdraw other hother => ?_⟩
    exact (hwindow draw hdraw).2.trans_le (hwindow' other hother).1
  · intro draw hdraw
    rcases List.mem_append.mp hdraw with hdraw | hdraw
    · exact ⟨(hwindow draw hdraw).1, (hwindow draw hdraw).2.trans_le hmore.2⟩
    · exact ⟨hdrawn.2.trans (hwindow' draw hdraw).1, (hwindow' draw hdraw).2⟩
  · rw [List.map_append, List.map_append, hnonces, hnonces', hdrawn.1]
  · intro envelope hmem
    rcases List.mem_append.mp hmem with hmem | hmem
    · exact hlengths envelope hmem
    · exact hlengths' envelope hmem

/-! ## Sealing -/

namespace Envelope

/-- What sealing values comes to: it fails before it draws, or it draws once, and then the envelope
has the draw as its nonce. -/
theorem perform_ofItems (id values : Value) (key : Key) (host : Host) :
    (∃ failure, Snapshot.encodeItems values = .error failure ∧
      (ofItems id values key).perform host = (.error failure, host)) ∨
    ∃ plaintext outcome, Snapshot.encodeItems values = .ok plaintext ∧
      (ofItems id values key).perform host =
        (outcome, { host with random := (host.random.draw Aead.nonceLength).2 }) ∧
      ∀ envelope, outcome = .ok envelope →
        envelope.nonce = (host.random.draw Aead.nonceLength).1 ∧
          envelope.nonce.length = Aead.nonceLength := by
  rcases hencode : Snapshot.encodeItems values with failure | plaintext
  · refine .inl ⟨failure, rfl, ?_⟩
    rw [ofItems, hencode]
    rfl
  · have hrest : ∃ outcome, (ofItems id values key).perform host =
        (outcome, { host with random := (host.random.draw Aead.nonceLength).2 }) ∧
        ∀ envelope, outcome = .ok envelope →
          envelope.nonce = (host.random.draw Aead.nonceLength).1 ∧
            envelope.nonce.length = Aead.nonceLength := by
      rw [ofItems, hencode, perform_bind, perform_ofExcept]
      simp only
      rw [perform_bind, perform_draw]
      simp only
      rw [perform_bind, perform_ofExcept]
      -- what can still fail are the octets of the id and the length of the nonce
      cases idOctets id with
      | error failure =>
          refine ⟨_, rfl, ?_⟩
          rintro envelope ⟨⟩
      | ok associated =>
          by_cases hlength : (host.random.draw Aead.nonceLength).1.length = Aead.nonceLength
          · simp only [if_pos hlength]
            refine ⟨_, rfl, fun envelope hmade => ?_⟩
            cases hmade
            exact ⟨rfl, hlength⟩
          · simp only [if_neg hlength]
            refine ⟨_, rfl, ?_⟩
            rintro envelope ⟨⟩
    obtain ⟨outcome, hrest⟩ := hrest
    exact .inr ⟨plaintext, outcome, rfl, hrest⟩

/-- Sealing changes nothing when the key or the values are refused. -/
theorem perform_sealUnder_of_refused {id values keyValue : Value}
    (hrefused : (∀ key, Key.ofValue keyValue ≠ .ok key) ∨
      ∀ plaintext, Snapshot.encodeItems values ≠ .ok plaintext) (host : Host) :
    ∃ failure, (sealUnder id values keyValue).perform host = (.error failure, host) := by
  rw [sealUnder, sealRead, perform_bind, perform_ofExcept]
  rcases hkey : Key.ofValue keyValue with failure | key
  · exact ⟨failure, rfl⟩
  · rcases hrefused with hrefused | hrefused
    · exact absurd hkey (hrefused key)
    · rcases perform_ofItems id values key host with ⟨failure, -, hperform⟩ |
        ⟨plaintext, outcome, hencode, -⟩
      · exact ⟨failure, hperform⟩
      · exact absurd hencode (hrefused plaintext)

end Envelope

/-- The envelope that an operation has made, if it has not failed. -/
def madeBy : Except Failure Envelope → List Envelope
  | .ok envelope => [envelope]
  | .error _ => []

/-- The envelope of the reference that an operation has made, if it has not failed. -/
def sealedBy : Except Failure Reference → List Envelope
  | .ok reference => reference.envelope.toList
  | .error _ => []

theorem supplies_ofItems (id values : Value) (key : Key) (host : Host) :
    Supplies host (madeBy ((Envelope.ofItems id values key).perform host).1)
      ((Envelope.ofItems id values key).perform host).2 := by
  rcases Envelope.perform_ofItems id values key host with ⟨failure, -, hperform⟩ |
    ⟨plaintext, outcome, -, hperform, hnonce⟩
  · rw [hperform]
    exact supplies_nothing (.of_sameRandom rfl)
  · have hdrawn : Drawn host
        { host with random := (host.random.draw Aead.nonceLength).2 } := ⟨rfl, Nat.le_succ _⟩
    rw [hperform]
    cases outcome with
    | error failure => exact supplies_nothing hdrawn
    | ok envelope =>
        obtain ⟨hnonce, hlength⟩ := hnonce envelope rfl
        refine ⟨hdrawn, [host.random.drawn], List.pairwise_singleton _ _, ?_, ?_, ?_⟩
        · rintro draw hdraw
          rw [List.mem_singleton.mp hdraw]
          exact ⟨Nat.le_refl _, Nat.lt_succ_self _⟩
        · rw [madeBy, List.map_singleton, hnonce]
          rfl
        · rintro made hmade
          rw [List.mem_singleton.mp hmade]
          exact hlength

theorem supplies_sealUnder (id values keyValue : Value) (host : Host) :
    Supplies host (madeBy ((Envelope.sealUnder id values keyValue).perform host).1)
      ((Envelope.sealUnder id values keyValue).perform host).2 := by
  rw [Envelope.sealUnder, Envelope.sealRead, perform_bind, perform_ofExcept]
  cases Key.ofValue keyValue with
  | error failure => exact supplies_nothing (.of_sameRandom rfl)
  | ok key => exact supplies_ofItems id values key host

namespace Reference

/-- Whether the key and the values of an open reference are accepted when it is sealed. -/
def Accepted (reference : Reference) (keyValue : Value) (host : Host) : Prop :=
  ∃ key held values plaintext, Key.ofValue keyValue = .ok key ∧
    reference.heldSnapshot.perform host = (.ok held, host) ∧
      host.memory.view held = some values ∧ Snapshot.encodeItems values = .ok plaintext

/-- A sealed reference is sealed already. -/
theorem perform_sealWith_of_sealed {reference : Reference} {envelope : Envelope}
    (hsealed : reference.envelope = some envelope) (keyValue : Value) (host : Host) :
    (reference.sealWith keyValue).perform host = (.ok reference, host) := by
  rw [sealWith, hsealed]
  rfl

/-- Sealing an open reference comes down to sealing the values in its snapshot, unless it fails
before. -/
theorem perform_sealWith {reference : Reference} (hopen : reference.envelope = none)
    (keyValue : Value) (host : Host) :
    (∃ failure, ¬ reference.Accepted keyValue host ∧
      (reference.sealWith keyValue).perform host = (.error failure, host)) ∨
    ∃ values key, reference.Accepted keyValue host ∧
      (reference.sealWith keyValue).perform host =
        (((Envelope.ofItems reference.id values key).perform host).1.map
          (ofEnvelope reference.id),
          ((Envelope.ofItems reference.id values key).perform host).2) := by
  have hheld : ∃ held, reference.heldSnapshot.perform host = (.ok held, host) := ⟨_, rfl⟩
  obtain ⟨held, hheld⟩ := hheld
  rw [sealWith_of_open hopen, perform_bind, perform_ofExcept]
  rcases hkey : Key.ofValue keyValue with failure | key
  · refine .inl ⟨failure, ?_, rfl⟩
    rintro ⟨key, -, -, -, haccepted, -⟩
    cases hkey.symm.trans haccepted
  · simp only
    rw [perform_bind, hheld]
    simp only
    rw [perform_bind, perform_view]
    rcases hview : host.memory.view held with _ | values
    · refine .inl ⟨.tooDeep, ?_, rfl⟩
      rintro ⟨-, other, values, -, -, hother, hvalues, -⟩
      cases hheld.symm.trans hother
      cases hview.symm.trans hvalues
    · simp only
      rw [perform_bind]
      rcases Envelope.perform_ofItems reference.id values key host with
        ⟨failure, hencode, hperform⟩ | ⟨plaintext, outcome, hencode, hperform, -⟩
      · rw [hperform]
        refine .inl ⟨failure, ?_, rfl⟩
        rintro ⟨-, other, again, plaintext, -, hother, hvalues, haccepted⟩
        cases hheld.symm.trans hother
        cases hview.symm.trans hvalues
        cases hencode.symm.trans haccepted
      · refine .inr ⟨values, key, ⟨key, held, values, plaintext, hkey, hheld, hview, hencode⟩, ?_⟩
        rw [hperform]
        cases outcome with
        | error failure => rfl
        | ok envelope => rfl

/-- An open reference whose key or values are refused is not sealed, and nothing changes. -/
theorem perform_sealWith_of_refused {reference : Reference} (hopen : reference.envelope = none)
    {keyValue : Value} {host : Host} (hrefused : ¬ reference.Accepted keyValue host) :
    ∃ failure, (reference.sealWith keyValue).perform host = (.error failure, host) := by
  rcases perform_sealWith hopen keyValue host with ⟨failure, -, hperform⟩ |
    ⟨values, key, haccepted, -⟩
  · exact ⟨failure, hperform⟩
  · exact absurd haccepted hrefused

theorem supplies_sealWith {reference : Reference} (hopen : reference.envelope = none)
    (keyValue : Value) (host : Host) :
    Supplies host (sealedBy ((reference.sealWith keyValue).perform host).1)
      ((reference.sealWith keyValue).perform host).2 := by
  rcases perform_sealWith hopen keyValue host with ⟨failure, -, hperform⟩ |
    ⟨values, key, -, hperform⟩
  · rw [hperform]
    exact supplies_nothing (.of_sameRandom rfl)
  · have hmade := supplies_ofItems reference.id values key host
    rw [hperform]
    cases houtcome : ((Envelope.ofItems reference.id values key).perform host).1 with
    | error failure =>
        rw [houtcome] at hmade
        exact hmade
    | ok envelope =>
        rw [houtcome] at hmade
        exact hmade

end Reference

/-! ## Binding and sealing in one -/

section

variable {bound : Operation Reference} {keyValue : Value} {host : Host}

/-- Sealing what was bound draws nothing when its key or values are refused. -/
theorem sameRandom_bind_sealWith
    (hopen : ∀ reference between, bound.perform host = (.ok reference, between) →
      reference.envelope = none ∧ ¬ reference.Accepted keyValue between) :
    SameRandom (bound.perform host).2
      ((bound >>= fun reference => reference.sealWith keyValue).perform host).2 := by
  rw [perform_bind]
  rcases hbound : bound.perform host with ⟨failure | reference, between⟩
  · rfl
  · obtain ⟨hopen, hrefused⟩ := hopen reference between hbound
    obtain ⟨failure, hperform⟩ := Reference.perform_sealWith_of_refused hopen hrefused
    simp only
    rw [hperform]
    rfl

/-- Sealing what was bound makes one envelope more than binding did. -/
theorem supplies_bind_sealWith {others : List Envelope}
    (hopen : ∀ reference between, bound.perform host = (.ok reference, between) →
      reference.envelope = none)
    (hothers : Supplies host others (bound.perform host).2) :
    Supplies host
      (others ++ sealedBy
        ((bound >>= fun reference => reference.sealWith keyValue).perform host).1)
      ((bound >>= fun reference => reference.sealWith keyValue).perform host).2 := by
  rw [perform_bind]
  rcases hbound : bound.perform host with ⟨failure | reference, between⟩
  · rw [hbound] at hothers
    rw [sealedBy, List.append_nil]
    exact hothers
  · rw [hbound] at hothers
    exact hothers.append (Reference.supplies_sealWith (hopen reference between hbound) _ _)

end

/-- The open reference that is issued when it has been sealed. -/
def Handle.bindRegistered (id : Value) (data : List Datum) : Operation Reference := do
  let handle ← Handle.ofRegistered id
  handle.bind data

theorem Service.issue_eq (service : Service) (id : Value) (data : List Datum) :
    service.issue id data =
      Handle.bindRegistered id data >>= fun reference => reference.sealWith service.keyValue := by
  rw [Handle.bindRegistered, bind_assoc]
  rfl

theorem sameRandom_bindRegistered (id : Value) (data : List Datum) :
    Respects SameRandom (Handle.bindRegistered id data) := by
  unfold Handle.bindRegistered
  apply respects_bind sameRandom_quiet.toAccumulates
    (respects_ofRegistered sameRandom_quiet.toPlacing id)
  exact fun handle => respects_bindData sameRandom_quiet.toPlacing handle data

theorem open_of_bindRegistered {id : Value} {data : List Datum} {host later : Host}
    {reference : Reference}
    (hbound : (Handle.bindRegistered id data).perform host = (.ok reference, later)) :
    reference.envelope = none := by
  obtain ⟨handle, between, -, hbind⟩ := perform_bind_eq_ok hbound
  obtain ⟨copies, after, -, hreference⟩ := perform_bind_eq_ok hbind
  cases hreference
  rfl

namespace DeferredBind

/-- The open reference that a declared bind comes to, before it is sealed where there is a key. -/
def opened (deferred : DeferredBind) : Operation Reference := do
  let snapshot ← freeze (← spread (← deferred.values))
  return .ofSnapshot deferred.id (.tuple snapshot)

theorem evaluate_of_key {deferred : DeferredBind} {key : Key} (hkey : deferred.key = some key) :
    deferred.evaluate =
      deferred.opened >>= fun reference => reference.sealWith (.bytes key.octets) := by
  simp only [evaluate, opened, hkey, bind_assoc, pure_bind]

theorem evaluate_of_no_key {deferred : DeferredBind} (hkey : deferred.key = none) :
    deferred.evaluate = deferred.opened := by
  simp only [evaluate, opened, hkey]

theorem open_of_opened {deferred : DeferredBind} {host later : Host} {reference : Reference}
    (hopened : deferred.opened.perform host = (.ok reference, later)) :
    reference.envelope = none := by
  obtain ⟨datum, _, -, hopened⟩ := perform_bind_eq_ok hopened
  obtain ⟨data, _, -, hopened⟩ := perform_bind_eq_ok hopened
  obtain ⟨snapshot, _, -, hreference⟩ := perform_bind_eq_ok hopened
  cases hreference
  rfl

/-- When the values have been read, nothing is drawn until the reference is sealed. -/
theorem sameRandom_opened (deferred : DeferredBind) (host : Host) :
    SameRandom (deferred.values.perform host).2 (deferred.opened.perform host).2 := by
  rw [opened, perform_bind]
  rcases deferred.values.perform host with ⟨failure | datum, moment⟩
  · rfl
  · have hrest : Respects SameRandom (do
        let snapshot ← freeze (← spread datum)
        return Reference.ofSnapshot deferred.id (.tuple snapshot)) := by
      apply respects_bind sameRandom_quiet.toAccumulates
        (respects_spread sameRandom_quiet.toPlacing datum)
      intro data
      apply respects_bind sameRandom_quiet.toAccumulates
        (respects_freeze sameRandom_quiet.toPlacing data)
      intro snapshot
      exact respects_pure sameRandom_quiet.toAccumulates _
    exact hrest moment

theorem supplies_evaluate {deferred : DeferredBind} {host : Host} {others : List Envelope}
    (hvalues : Supplies host others (deferred.values.perform host).2) :
    Supplies host (others ++ sealedBy (deferred.evaluate.perform host).1)
      (deferred.evaluate.perform host).2 := by
  have hopened : Supplies host others (deferred.opened.perform host).2 := by
    have hsame := supplies_nothing (.of_sameRandom (deferred.sameRandom_opened host))
    have happend := hvalues.append hsame
    rwa [List.append_nil] at happend
  rcases hkey : deferred.key with _ | key
  · rw [evaluate_of_no_key hkey]
    have hnone : sealedBy (deferred.opened.perform host).1 = [] := by
      rcases houtcome : deferred.opened.perform host with ⟨failure | reference, later⟩
      · rfl
      · rw [sealedBy, open_of_opened houtcome]
        rfl
    rw [hnone, List.append_nil]
    exact hopened
  · rw [evaluate_of_key hkey]
    exact supplies_bind_sealWith (fun _ _ hreference => open_of_opened hreference) hopened

end DeferredBind

end SealedCall
