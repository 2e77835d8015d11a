import SealedCall.Proofs.Operation
import SealedCall.Service

/-! # What binding and recovering are made of

Freezing, sealing, opening and recovering change the host in three ways alone: they place values,
draw from the random source, and write to the log. A relation that accumulates and holds of these
three holds of everything that is made of them, also where it fails. Only sealing draws, and only
opening writes to the log.
-/

namespace SealedCall

/-- An open reference is sealed step by step: the key is looked at before the values. -/
theorem Reference.sealWith_of_open {reference : Reference} (hopen : reference.envelope = none)
    (keyValue : Value) :
    reference.sealWith keyValue = (do
      let key ← Operation.ofExcept (Key.ofValue keyValue)
      let held ← reference.heldSnapshot
      let values ← Operation.view held
      return ofEnvelope reference.id (← Envelope.ofItems reference.id values key)) := by
  rw [sealWith, hopen]
  simp only [Envelope.sealRead, bind_assoc]

namespace Operation

/-- A relation between hosts that accumulates and holds of placing a value. -/
structure Placing (relates : Host → Host → Prop) : Prop extends Accumulates relates where
  place : ∀ value, Respects relates (place value)

/-- One that holds of drawing from the random source as well. -/
structure Silent (relates : Host → Host → Prop) : Prop extends Placing relates where
  draw : ∀ length, Respects relates (draw length)

/-- One that holds of placing a value and of writing to the log. -/
structure Quiet (relates : Host → Host → Prop) : Prop extends Placing relates where
  record : ∀ level logger message, Respects relates (record level logger message)

/-- One that holds of all three. -/
structure Basic (relates : Host → Host → Prop) : Prop extends Quiet relates, Silent relates

variable {relates : Host → Host → Prop}

section

variable (hplacing : Placing relates)
include hplacing

theorem respects_freeze (data : List Datum) : Respects relates (freeze data) := by
  induction data with
  | nil => exact respects_pure hplacing.toAccumulates []
  | cons datum rest ih =>
      unfold freeze
      apply respects_bind hplacing.toAccumulates (respects_view hplacing.toAccumulates datum)
      intro value
      apply respects_bind hplacing.toAccumulates (hplacing.place value)
      intro copy
      apply respects_bind hplacing.toAccumulates ih
      intro copies
      exact respects_pure hplacing.toAccumulates _

theorem respects_spread (datum : Datum) : Respects relates (spread datum) := by
  unfold spread
  apply respects_bind hplacing.toAccumulates (respects_get hplacing.toAccumulates)
  intro host
  simp only
  split
  · exact respects_pure hplacing.toAccumulates _
  · exact respects_fail hplacing.toAccumulates _

theorem respects_heldSnapshot (reference : Reference) :
    Respects relates reference.heldSnapshot := by
  unfold Reference.heldSnapshot
  apply respects_bind hplacing.toAccumulates (respects_get hplacing.toAccumulates)
  intro host
  exact respects_pure hplacing.toAccumulates _

/-- Recovering the values of an open reference only places copies. -/
theorem respects_recover_open (reference : Reference) : Respects relates (do
    freeze (← spread (← reference.heldSnapshot))) := by
  apply respects_bind hplacing.toAccumulates (respects_heldSnapshot hplacing reference)
  intro held
  exact respects_bind hplacing.toAccumulates (respects_spread hplacing held)
    (respects_freeze hplacing)

theorem respects_ofRegistered (id : Value) : Respects relates (Handle.ofRegistered id) := by
  unfold Handle.ofRegistered
  apply respects_bind hplacing.toAccumulates (respects_get hplacing.toAccumulates)
  intro host
  split
  · exact respects_pure hplacing.toAccumulates _
  · exact respects_fail hplacing.toAccumulates _

theorem respects_bindData (handle : Handle) (data : List Datum) :
    Respects relates (handle.bind data) := by
  unfold Handle.bind
  apply respects_bind hplacing.toAccumulates (respects_freeze hplacing data)
  intro copies
  exact respects_pure hplacing.toAccumulates _

end

section

variable (hquiet : Quiet relates)
include hquiet

theorem respects_noteRefusal (id : Value) (reason : String) (failure : Failure) :
    Respects relates (do
      Envelope.noteRefusal id reason
      (fail failure : Operation Snapshot)) := by
  apply respects_bind hquiet.toAccumulates (hquiet.record _ _ _)
  intro _
  exact respects_fail hquiet.toAccumulates failure

theorem respects_openWith (envelope : Envelope) (key : Key) :
    Respects relates (envelope.openWith key) := by
  unfold Envelope.openWith
  split
  · apply respects_bind hquiet.toAccumulates (respects_ofExcept hquiet.toAccumulates _)
    intro associated
    split
    · exact respects_ofExcept hquiet.toAccumulates _
    · exact respects_fail hquiet.toAccumulates _
    · exact respects_noteRefusal hquiet _ _ _
  · exact respects_noteRefusal hquiet _ _ _

theorem respects_openUnder (envelope : Envelope) (keyValue : Value) :
    Respects relates (envelope.openUnder keyValue) := by
  unfold Envelope.openUnder
  apply respects_bind hquiet.toAccumulates (respects_ofExcept hquiet.toAccumulates _)
  intro key
  exact respects_openWith hquiet envelope key

theorem respects_recover (reference : Reference) (key : Value) :
    Respects relates (reference.recover key) := by
  unfold Reference.recover
  split
  · exact respects_recover_open hquiet.toPlacing reference
  · split
    · exact respects_fail hquiet.toAccumulates _
    · apply respects_bind hquiet.toAccumulates (respects_openUnder hquiet _ key)
      exact respects_mapM hquiet.toAccumulates hquiet.place

end

variable (hsilent : Silent relates)
include hsilent

theorem respects_ofItems (id values : Value) (key : Key) :
    Respects relates (Envelope.ofItems id values key) := by
  unfold Envelope.ofItems
  apply respects_bind hsilent.toAccumulates (respects_ofExcept hsilent.toAccumulates _)
  intro plaintext
  apply respects_bind hsilent.toAccumulates (hsilent.draw _)
  intro nonce
  apply respects_bind hsilent.toAccumulates (respects_ofExcept hsilent.toAccumulates _)
  intro associated
  split
  · exact respects_pure hsilent.toAccumulates _
  · exact respects_fail hsilent.toAccumulates _

theorem respects_sealRead (id : Value) {reading : Operation Value}
    (hreading : Respects relates reading) (keyValue : Value) :
    Respects relates (Envelope.sealRead id reading keyValue) := by
  unfold Envelope.sealRead
  apply respects_bind hsilent.toAccumulates (respects_ofExcept hsilent.toAccumulates _)
  intro key
  apply respects_bind hsilent.toAccumulates hreading
  intro values
  exact respects_ofItems hsilent _ _ _

theorem respects_sealWith (reference : Reference) (key : Value) :
    Respects relates (reference.sealWith key) := by
  unfold Reference.sealWith
  split
  · exact respects_pure hsilent.toAccumulates _
  · have hreading := respects_bind hsilent.toAccumulates
      (respects_heldSnapshot hsilent.toPlacing reference)
      (respects_view hsilent.toAccumulates)
    apply respects_bind hsilent.toAccumulates (respects_sealRead hsilent _ hreading key)
    intro envelope
    exact respects_pure hsilent.toAccumulates _

theorem respects_issue (service : Service) (id : Value) (data : List Datum) :
    Respects relates (service.issue id data) := by
  unfold Service.issue
  apply respects_bind hsilent.toAccumulates (respects_ofRegistered hsilent.toPlacing id)
  intro handle
  apply respects_bind hsilent.toAccumulates (respects_bindData hsilent.toPlacing handle data)
  intro reference
  exact respects_sealWith hsilent reference _

end Operation

end SealedCall
