import SealedCall.Host
import SealedCall.Proofs.Process

/-! # Performing operations

An operation is performed step by step: what one step answers goes into the next, on the host that
the step left, and a failure ends it there. Each basic step has one equation.
-/

namespace SealedCall

/-- A host on which nothing has happened yet, with a random source of zeros. -/
def Host.untouched : Host :=
  ⟨Roster.empty .null, Memory.empty, ⟨fun _ length => List.replicate length 0, 0⟩, [], [], [],
    Deployment.ofEnvironment [] []⟩

namespace Operation

variable {α β : Type}

@[simp]
theorem perform_pure (value : α) (host : Host) :
    perform (pure value : Operation α) host = (.ok value, host) := rfl

@[simp]
theorem perform_fail (failure : Failure) (host : Host) :
    perform (fail failure : Operation α) host = (.error failure, host) := rfl

@[simp]
theorem perform_ofExcept (outcome : Except Failure α) (host : Host) :
    perform (ofExcept outcome) host = (outcome, host) := by
  cases outcome <;> rfl

@[simp]
theorem perform_get (host : Host) : perform (get : Operation Host) host = (.ok host, host) := rfl

@[simp]
theorem perform_modify (change : Host → Host) (host : Host) :
    perform (modify change : Operation Unit) host = (.ok (), change host) := rfl

@[simp]
theorem perform_place (value : Value) (host : Host) :
    perform (place value) host =
      (.ok (host.memory.place value).2, { host with memory := (host.memory.place value).1 }) := rfl

@[simp]
theorem perform_draw (length : Nat) (host : Host) :
    perform (draw length) host =
      (.ok (host.random.draw length).1, { host with random := (host.random.draw length).2 }) := rfl

@[simp]
theorem perform_record (level : LogLevel) (logger : Logger) (message : Text) (host : Host) :
    perform (record level logger message) host =
      (.ok (), { host with log := host.log ++ [⟨level, logger, message⟩] }) := rfl

theorem perform_bind (operation : Operation α) (next : α → Operation β) (host : Host) :
    perform (operation >>= next) host =
      match perform operation host with
      | (.ok value, after) => perform (next value) after
      | (.error failure, after) => (.error failure, after) := by
  unfold perform
  simp only [ExceptT.run_bind, StateT.run_bind, Id.run_bind]
  generalize ((ExceptT.run operation).run host).run = result
  obtain ⟨outcome, after⟩ := result
  cases outcome with
  | ok value => rfl
  | error failure => rfl

@[simp]
theorem perform_view (datum : Datum) (host : Host) :
    perform (view datum) host =
      match host.memory.view datum with
      | some value => (.ok value, host)
      | none => (.error .tooDeep, host) := by
  rw [view, perform_bind, perform_get]
  simp only
  cases host.memory.view datum with
  | none => rfl
  | some value => rfl

/-- Where both parts succeed, so did the first, and the second went on from there. -/
theorem perform_bind_eq_ok {operation : Operation α} {next : α → Operation β} {host later : Host}
    {result : β} (hperform : perform (operation >>= next) host = (.ok result, later)) :
    ∃ value between, perform operation host = (.ok value, between) ∧
      perform (next value) between = (.ok result, later) := by
  rw [perform_bind] at hperform
  split at hperform
  · next value between hfirst => exact ⟨value, between, hfirst, hperform⟩
  · cases hperform

/-- Where the first part fails, so does the whole. -/
theorem outcome_bind_of_error {operation : Operation α} {next : α → Operation β} {host : Host}
    {failure : Failure} (hfails : (perform operation host).1 = .error failure) :
    (perform (operation >>= next) host).1 = .error failure := by
  rw [perform_bind]
  generalize perform operation host = result at hfails ⊢
  obtain ⟨outcome, after⟩ := result
  cases hfails
  rfl

/-- Placing values one after the other. -/
theorem perform_placeAll (values : List Value) (host : Host) :
    perform (values.mapM place) host =
      (.ok (host.memory.placeAll values).2,
        { host with memory := (host.memory.placeAll values).1 }) := by
  induction values generalizing host with
  | nil => rfl
  | cons value rest ih =>
      rw [List.mapM_cons, perform_bind, perform_place]
      simp only
      rw [perform_bind, ih]
      rfl

/-! ## What operations leave behind -/

/-- Whether an operation leaves every host, also when it fails, in some relation to what it was. -/
def Respects (relates : Host → Host → Prop) (operation : Operation α) : Prop :=
  ∀ host, relates host (operation.perform host).2

variable {relates : Host → Host → Prop}

theorem Respects.mono {other : Host → Host → Prop} {operation : Operation α}
    (hoperation : Respects relates operation)
    (himplies : ∀ host later, relates host later → other host later) : Respects other operation :=
  fun host => himplies host _ (hoperation host)

section

variable (haccumulates : Accumulates relates)
include haccumulates

theorem respects_pure (value : α) : Respects relates (pure value : Operation α) :=
  fun host => haccumulates.refl host

theorem respects_fail (failure : Failure) : Respects relates (fail failure : Operation α) :=
  fun host => haccumulates.refl host

theorem respects_ofExcept (outcome : Except Failure α) : Respects relates (ofExcept outcome) := by
  intro host
  rw [perform_ofExcept]
  exact haccumulates.refl host

theorem respects_get : Respects relates (get : Operation Host) :=
  fun host => haccumulates.refl host

theorem respects_view (datum : Datum) : Respects relates (view datum) := by
  intro host
  rw [perform_view]
  cases host.memory.view datum with
  | none => exact haccumulates.refl host
  | some value => exact haccumulates.refl host

theorem respects_bind {operation : Operation α} {next : α → Operation β}
    (hoperation : Respects relates operation) (hnext : ∀ value, Respects relates (next value)) :
    Respects relates (operation >>= next) := by
  intro host
  have hfirst := hoperation host
  rw [perform_bind]
  generalize operation.perform host = result at hfirst ⊢
  obtain ⟨outcome, between⟩ := result
  cases outcome with
  | error failure => exact hfirst
  | ok value => exact haccumulates.trans hfirst (hnext value between)

theorem respects_mapM {operation : α → Operation β}
    (hoperation : ∀ value, Respects relates (operation value)) (values : List α) :
    Respects relates (values.mapM operation) := by
  induction values with
  | nil => exact respects_pure haccumulates []
  | cons value rest ih =>
      rw [List.mapM_cons]
      exact respects_bind haccumulates (hoperation value) fun _ =>
        respects_bind haccumulates ih fun _ => respects_pure haccumulates _

end

end Operation

end SealedCall
