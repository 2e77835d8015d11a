import SealedCall.Proofs.Nonces.Supply

/-! # Nonces over whole runs

However sealing is mixed with opening, writing, reading and invoking, and whatever fails on the way,
no draw serves two envelopes. So where the random source never repeats itself no two envelopes share
a nonce, not even two that hold the same values under the same id and key.
-/

namespace SealedCall

open Operation

/-- Whether code that is not looked into makes envelopes by sealing, and touches the random source
by drawing alone. -/
inductive Sealings : Host → List Envelope → Host → Prop
  | drawn {host later : Host} (hdrawn : Drawn host later) : Sealings host [] later
  | sealed {host later : Host} {id values : Value} {key : Key} {envelope : Envelope}
      (hsealed : (Envelope.ofItems id values key).perform host = (.ok envelope, later)) :
      Sealings host [envelope] later
  | append {host between later : Host} {created more : List Envelope}
      (hfirst : Sealings host created between) (hsecond : Sealings between more later) :
      Sealings host (created ++ more) later

theorem Sealings.supplies {host later : Host} {created : List Envelope}
    (hsealings : Sealings host created later) : Supplies host created later := by
  induction hsealings with
  | drawn hdrawn => exact supplies_nothing hdrawn
  | @sealed host later id values key envelope hsealed =>
      have hmade := supplies_ofItems id values key host
      rw [hsealed] at hmade
      exact hmade
  | append _ _ hfirst hsecond => exact hfirst.append hsecond

/-- Whether there are sealings that explain what has become of a host. -/
def Explained (host later : Host) : Prop := ∃ created, Sealings host created later

/-- A host with the activities that were started on it. -/
structure SealingScene where
  host : Host
  underway : List (Activity Datum)

/-- What may happen next, with the envelopes that are made by it: values are sealed, as they are, or
in a reference, or while they are bound, or at the call of a bind; an envelope is opened, a
reference recovered, written or read; one is invoked, and the invocation has its turns; or something
happens that has no part in sealing. Implementations, and what reads the values of a bind, may seal
themselves. -/
inductive SealingStep (service : Service) (behaviour : Behaviour) (scene : SealingScene) :
    List Envelope → SealingScene → Prop
  | sealValues (id values keyValue : Value) :
      SealingStep service behaviour scene
        (madeBy ((Envelope.sealUnder id values keyValue).perform scene.host).1)
        { scene with host := ((Envelope.sealUnder id values keyValue).perform scene.host).2 }
  | sealWith (reference : Reference) (keyValue : Value) :
      SealingStep service behaviour scene
        (if reference.hasEnvelope then []
          else sealedBy ((reference.sealWith keyValue).perform scene.host).1)
        { scene with host := ((reference.sealWith keyValue).perform scene.host).2 }
  | issue (id : Value) (data : List Datum) :
      SealingStep service behaviour scene
        (sealedBy ((service.issue id data).perform scene.host).1)
        { scene with host := ((service.issue id data).perform scene.host).2 }
  | evaluate (deferred : DeferredBind) {others : List Envelope}
      (hvalues : Sealings scene.host others (deferred.values.perform scene.host).2) :
      SealingStep service behaviour scene
        (others ++ sealedBy (deferred.evaluate.perform scene.host).1)
        { scene with host := (deferred.evaluate.perform scene.host).2 }
  | openUnder (envelope : Envelope) (keyValue : Value) :
      SealingStep service behaviour scene []
        { scene with host := ((envelope.openUnder keyValue).perform scene.host).2 }
  | recover (reference : Reference) (keyValue : Value) :
      SealingStep service behaviour scene []
        { scene with host := ((reference.recover keyValue).perform scene.host).2 }
  | write (reference : Reference) :
      SealingStep service behaviour scene []
        { scene with host := ((Operation.ofExcept reference.wireForm).perform scene.host).2 }
  | read (data : Value) :
      SealingStep service behaviour scene []
        { scene with
          host := ((Operation.ofExcept (Reference.ofWireValue data)).perform scene.host).2 }
  | invoke (reference : Reference) (arguments : List Datum) (keyValue : Value) :
      SealingStep service behaviour scene []
        { scene with
          underway :=
            scene.underway ++ [Invocation.run behaviour reference arguments keyValue] }
  | turn {place : Nat} {activity : Activity Datum} {created : List Envelope}
      (hactivity : scene.underway[place]? = some activity)
      (hcreated : Sealings scene.host created (activity.advance scene.host).2) :
      SealingStep service behaviour scene created
        ⟨(activity.advance scene.host).2, scene.underway.set place (activity.advance scene.host).1⟩
  | elsewhere {host : Host} (hdrawn : Drawn scene.host host) :
      SealingStep service behaviour scene [] { scene with host := host }

/-- A run of any length, with the envelopes that are made in it. -/
inductive SealingRun (service : Service) (behaviour : Behaviour) :
    SealingScene → List Envelope → SealingScene → Prop
  | done (scene : SealingScene) : SealingRun service behaviour scene [] scene
  | step {scene next later : SealingScene} {created more : List Envelope}
      (hstep : SealingStep service behaviour scene created next)
      (hrest : SealingRun service behaviour next more later) :
      SealingRun service behaviour scene (created ++ more) later

variable {service : Service} {behaviour : Behaviour}

theorem sameRandom_openUnder (envelope : Envelope) (keyValue : Value) :
    Respects SameRandom (envelope.openUnder keyValue) :=
  respects_openUnder sameRandom_quiet envelope keyValue

theorem SealingStep.supplies {scene next : SealingScene} {created : List Envelope}
    (hstep : SealingStep service behaviour scene created next) :
    Supplies scene.host created next.host := by
  cases hstep with
  | sealValues id values keyValue => exact supplies_sealUnder id values keyValue scene.host
  | sealWith reference keyValue =>
      rcases henvelope : reference.envelope with _ | envelope
      · rw [if_neg (by rw [Reference.hasEnvelope, henvelope]; decide)]
        exact Reference.supplies_sealWith henvelope keyValue scene.host
      · rw [if_pos (by rw [Reference.hasEnvelope, henvelope]; rfl)]
        rw [Reference.perform_sealWith_of_sealed henvelope]
        exact supplies_nothing (.of_sameRandom rfl)
  | issue id data =>
      rw [Service.issue_eq]
      exact supplies_bind_sealWith (fun _ _ hbound => open_of_bindRegistered hbound)
        (supplies_nothing (.of_sameRandom (sameRandom_bindRegistered id data scene.host)))
  | evaluate deferred hvalues => exact deferred.supplies_evaluate hvalues.supplies
  | openUnder envelope keyValue =>
      exact supplies_nothing (.of_sameRandom (sameRandom_openUnder envelope keyValue scene.host))
  | recover reference keyValue =>
      exact supplies_nothing
        (.of_sameRandom (respects_recover sameRandom_quiet reference keyValue scene.host))
  | write reference =>
      rw [perform_ofExcept]
      exact supplies_nothing (.of_sameRandom rfl)
  | read data =>
      rw [perform_ofExcept]
      exact supplies_nothing (.of_sameRandom rfl)
  | invoke reference arguments keyValue => exact supplies_nothing (.of_sameRandom rfl)
  | turn hactivity hcreated => exact hcreated.supplies
  | elsewhere hdrawn => exact supplies_nothing hdrawn

theorem SealingRun.supplies {scene later : SealingScene} {created : List Envelope}
    (hrun : SealingRun service behaviour scene created later) :
    Supplies scene.host created later.host := by
  induction hrun with
  | done scene => exact supplies_nothing (.of_sameRandom rfl)
  | step hstep _ ih => exact hstep.supplies.append ih

/-- Draws that differ give nonces that differ. -/
theorem Supplies.nodup {host later : Host} {created : List Envelope}
    (hsupplies : Supplies host created later)
    (hdistinct : ∀ draw other, host.random.drawn ≤ draw → draw < other →
      other < later.random.drawn → host.random.octets draw Aead.nonceLength ≠
        host.random.octets other Aead.nonceLength) :
    (created.map Envelope.nonce).Nodup := by
  obtain ⟨-, draws, hsorted, hwindow, hnonces, -⟩ := hsupplies
  rw [hnonces, List.Nodup, List.pairwise_map]
  refine hsorted.imp_of_mem fun hdraw hother hless => ?_
  exact hdistinct _ _ (hwindow _ hdraw).1 hless (hwindow _ hother).2

theorem sameRandom_issue_of_refused {id : Value} {data : List Datum} {host : Host}
    (hrefused : ∀ bound between,
      (Handle.bindRegistered id data).perform host = (.ok bound, between) →
        ¬ bound.Accepted service.keyValue between) :
    SameRandom host ((service.issue id data).perform host).2 := by
  rw [Service.issue_eq]
  refine sameRandom_quiet.trans (sameRandom_bindRegistered id data host)
    (sameRandom_bind_sealWith fun bound between hbound => ?_)
  exact ⟨open_of_bindRegistered hbound, hrefused bound between hbound⟩

theorem sameRandom_evaluate_of_refused {deferred : DeferredBind} {host : Host}
    (hrefused : ∀ key, deferred.key = some key → ∀ bound between,
      deferred.opened.perform host = (.ok bound, between) →
        ¬ bound.Accepted (.bytes key.octets) between) :
    SameRandom (deferred.values.perform host).2 (deferred.evaluate.perform host).2 := by
  have hopened := deferred.sameRandom_opened host
  rcases hkey : deferred.key with _ | key
  · rw [DeferredBind.evaluate_of_no_key hkey]
    exact hopened
  · rw [DeferredBind.evaluate_of_key hkey]
    refine sameRandom_quiet.trans hopened (sameRandom_bind_sealWith fun bound between hbound => ?_)
    exact ⟨DeferredBind.open_of_opened hbound, hrefused key hkey bound between hbound⟩

/-- Over a whole run, every envelope that is made has a draw of its own as its nonce, of the full
length, and so no two of them share a nonce if no two draws are the same. A sealing whose key or
values are refused draws nothing, wherever the values come from, and a sealed reference is its own
sealed form without anything happening. Opening, recovering, writing and reading draw nothing. An
invocation draws nothing but what its implementation draws, however it is interleaved with others,
and makes envelopes only by the sealings of its implementation. -/
theorem SealingRun.nonces_fresh {start later : SealingScene} {created : List Envelope}
    (hrun : SealingRun service behaviour start created later) :
    (∃ draws : List Nat, draws.Pairwise (· < ·) ∧
      (∀ draw ∈ draws, start.host.random.drawn ≤ draw ∧ draw < later.host.random.drawn) ∧
      created.map Envelope.nonce =
        draws.map (fun draw => start.host.random.octets draw Aead.nonceLength) ∧
      ∀ envelope ∈ created, envelope.nonce.length = Aead.nonceLength) ∧
    ((∀ draw other, start.host.random.drawn ≤ draw → draw < other →
      other < later.host.random.drawn → start.host.random.octets draw Aead.nonceLength ≠
        start.host.random.octets other Aead.nonceLength) →
      (created.map Envelope.nonce).Nodup) ∧
    (∀ id values keyValue host, ((∀ key, Key.ofValue keyValue ≠ .ok key) ∨
        ∀ plaintext, Snapshot.encodeItems values ≠ .ok plaintext) →
      ∃ failure, (Envelope.sealUnder id values keyValue).perform host = (.error failure, host)) ∧
    (∀ (reference : Reference) keyValue host, reference.envelope = none →
      ¬ reference.Accepted keyValue host →
        ∃ failure, (reference.sealWith keyValue).perform host = (.error failure, host)) ∧
    (∀ id data host, (∀ bound between,
        (Handle.bindRegistered id data).perform host = (.ok bound, between) →
          ¬ bound.Accepted service.keyValue between) →
      SameRandom host ((service.issue id data).perform host).2) ∧
    (∀ (deferred : DeferredBind) host, (∀ key, deferred.key = some key → ∀ bound between,
        deferred.opened.perform host = (.ok bound, between) →
          ¬ bound.Accepted (.bytes key.octets) between) →
      SameRandom (deferred.values.perform host).2 (deferred.evaluate.perform host).2) ∧
    (∀ (reference : Reference) keyValue host, reference.hasEnvelope = true →
      (reference.sealWith keyValue).perform host = (.ok reference, host)) ∧
    (∀ envelope keyValue, Respects SameRandom (Envelope.openUnder envelope keyValue)) ∧
    (∀ (reference : Reference) keyValue, Respects SameRandom (reference.recover keyValue)) ∧
    (∀ (reference : Reference) data host,
      ((Operation.ofExcept reference.wireForm).perform host).2 = host ∧
        ((Operation.ofExcept (Reference.ofWireValue data)).perform host).2 = host) ∧
    ∀ (applied : Behaviour) reference arguments keyValue host,
      ((∀ implementation arguments host,
        (applied implementation arguments).Keeps SameRandom host) →
          (Invocation.run applied reference arguments keyValue).Keeps SameRandom host) ∧
      ((∀ implementation arguments host,
        (applied implementation arguments).Keeps Explained host) →
          (Invocation.run applied reference arguments keyValue).Keeps Explained host) := by
  have hsupplies := hrun.supplies
  refine ⟨hsupplies.2, hsupplies.nodup, ?_, ?_, ?_, ?_, ?_, sameRandom_openUnder, ?_, ?_, ?_⟩
  · intro id values keyValue host hrefused
    exact Envelope.perform_sealUnder_of_refused hrefused host
  · intro reference keyValue host hopen hrefused
    exact Reference.perform_sealWith_of_refused hopen hrefused
  · intro id data host hrefused
    exact sameRandom_issue_of_refused hrefused
  · intro deferred host hrefused
    exact sameRandom_evaluate_of_refused hrefused
  · intro reference keyValue host hsealed
    obtain ⟨envelope, henvelope⟩ := Option.isSome_iff_exists.mp hsealed
    exact Reference.perform_sealWith_of_sealed henvelope keyValue host
  · intro reference keyValue
    exact respects_recover sameRandom_quiet reference keyValue
  · intro reference data host
    rw [perform_ofExcept, perform_ofExcept]
    exact ⟨rfl, rfl⟩
  · intro applied reference arguments keyValue host
    refine ⟨fun hbehaviour => ?_, fun hbehaviour => ?_⟩
    · exact Invocation.keeps_run sameRandom_quiet (fun _ _ => rfl) (fun _ _ hsame => hsame)
        hbehaviour reference arguments keyValue host
    · exact Invocation.keeps_run sameRandom_quiet (fun _ _ => rfl)
        (fun _ _ hsame => ⟨[], .drawn (.of_sameRandom hsame)⟩) hbehaviour reference arguments
        keyValue host

/-- A host with one action, whose random source counts. -/
def Host.counting : Host :=
  { Session.sample.host with
    random := ⟨fun draw length => List.replicate length (UInt8.ofNat draw), 0⟩ }

/-- Two references that are issued for the same values differ in their nonces. -/
theorem SealingRun.nonces_fresh_sample :
    ∃ created later first second,
      SealingRun Service.sample Behaviour.sample ⟨Host.counting, []⟩ created later ∧
        created.map Envelope.nonce = [first, second] ∧ first ≠ second := by
  have hrun : SealingRun Service.sample Behaviour.sample ⟨Host.counting, []⟩ _ _ :=
    .step (.issue (Value.ofString "pay") [.fixed (Value.ofString "a")])
      (.step (.issue (Value.ofString "pay") [.fixed (Value.ofString "a")]) (.done _))
  have hnodup := hrun.nonces_fresh.2.1 (by
    intro draw other _ hless hother
    have hlast : other < 2 := hother
    obtain rfl : draw = 0 := by omega
    obtain rfl : other = 1 := by omega
    decide)
  refine ⟨_, _, List.replicate 24 0, List.replicate 24 1, hrun, rfl, ?_⟩
  have hpair : ([List.replicate 24 0, List.replicate 24 1] : List Octets).Nodup := hnodup
  exact List.ne_of_not_mem_cons (List.nodup_cons.mp hpair).1

end SealedCall
