import Mathlib.Logic.Relation
import SealedCall.Proofs.Confinement.Activity
import SealedCall.Proofs.SealedAndOpen

/-! # Scenes

A scene is a host with what a program has in its hands there: data, binds that it declared,
references that were issued to it, and activities under way. The program reaches data through its
hands and through variables, and what it does next works on data that it reaches. The copies inside
an open reference are not among them.
-/

namespace SealedCall

open Memory Operation

/-- A reference that was issued, with the id and the key it was made for, the data that were
captured, and the host at the moment of the capture. -/
structure Issue where
  reference : Reference
  id : Value
  key : Option Key
  data : List Datum
  moment : Host

/-- A bind that was declared, with the data that reading its values starts from. -/
structure Deferral where
  deferred : DeferredBind
  captured : List Datum

/-- A host with what a program has in its hands. -/
structure Scene where
  host : Host
  held : List Datum
  declared : List Deferral
  issues : List Issue
  underway : List (Activity Datum)

namespace DeferredBind

/-- What a bind reads when it is called, and the host at that moment. -/
def reads (deferred : DeferredBind) (host : Host) : List Datum × Host :=
  match deferred.values.perform host with
  | (.ok datum, moment) => ((moment.memory.items? datum).getD [], moment)
  | (.error _, moment) => ([], moment)

/-- What a call of a bind does with what it has read. -/
def captureOf (deferred : DeferredBind) (datum : Datum) : Operation Reference := do
  let snapshot ← freeze (← spread datum)
  let reference := Reference.ofSnapshot deferred.id (.tuple snapshot)
  match deferred.key with
  | some key => reference.sealWith (.bytes key.octets)
  | none => pure reference

theorem evaluate_eq (deferred : DeferredBind) :
    deferred.evaluate = deferred.values >>= deferred.captureOf := rfl

end DeferredBind

namespace Scene

/-- The scene in which nothing has been done yet. -/
def initial (host : Host) : Scene := ⟨host, [], [], [], []⟩

/-- The data that a program can get at. -/
inductive Reaches (scene : Scene) : Datum → Prop
  | fixed (value : Value) : Reaches scene (.fixed value)
  | held {datum : Datum} (hmem : datum ∈ scene.held) : Reaches scene datum
  | bound {entry : Text × Datum} (hmem : entry ∈ scene.host.memory.bindings) :
      Reaches scene entry.2
  | tuple {items : List Datum} (hitems : ∀ item ∈ items, Reaches scene item) :
      Reaches scene (.tuple items)
  | component {items : List Datum} {item : Datum} (htuple : Reaches scene (.tuple items))
      (hmem : item ∈ items) : Reaches scene item
  | item {place : Nat} {items : List Datum} {item : Datum} (hplace : Reaches scene (.object place))
      (hobject : scene.host.memory.objects[place]? = some (.list items)) (hmem : item ∈ items) :
      Reaches scene item
  | value {place : Nat} {entries : List (Value × Datum)} {entry : Value × Datum}
      (hplace : Reaches scene (.object place))
      (hobject : scene.host.memory.objects[place]? = some (.dict entries))
      (hmem : entry ∈ entries) : Reaches scene entry.2

/-- The scene after an operation that hands out data. -/
def took (scene : Scene) : Except Failure (List Datum) × Host → Scene
  | (.ok data, host) => { scene with host := host, held := scene.held ++ data }
  | (.error _, host) => { scene with host := host }

/-- The scene after an operation that makes a reference. -/
def issued (scene : Scene) (issue : Reference → Issue) : Except Failure Reference × Host → Scene
  | (.ok reference, host) =>
    { scene with host := host, issues := scene.issues ++ [issue reference] }
  | (.error _, host) => { scene with host := host }

/-- The scene after an activity has had its turn. The result of one that is done is handed out. -/
def turned (scene : Scene) (place : Nat) (activity : Activity Datum) : Scene :=
  { scene with
    host := (activity.advance scene.host).2
    underway := scene.underway.set place (activity.advance scene.host).1
    held := scene.held ++
      match (activity.advance scene.host).1 with
      | .done (.ok datum) => [datum]
      | _ => [] }

/-- What may happen next: the program handles data, binds data to an action, open or sealed,
declares a bind or calls one, recovers what a reference holds, invokes a reference or a wire form,
or starts some other activity on what it reaches; an activity under way has its turn; or something
happens that memory has no part in. -/
inductive Step (service : Service) (behaviour : Behaviour) (scene : Scene) : Scene → Prop
  | handle (handling : Handling) (hdata : ∀ datum ∈ handling.data, scene.Reaches datum) :
      Step service behaviour scene
        (scene.took (((fun datum => [datum]) <$> handling.operation).perform scene.host))
  | bind (handle : Handle) {data : List Datum} (hdata : ∀ datum ∈ data, scene.Reaches datum) :
      Step service behaviour scene
        (scene.issued (fun reference => ⟨reference, handle.id, none, data, scene.host⟩)
          ((handle.bind data).perform scene.host))
  | issue (id : Value) {data : List Datum} (hdata : ∀ datum ∈ data, scene.Reaches datum) :
      Step service behaviour scene
        (scene.issued (fun reference => ⟨reference, id, some service.key, data, scene.host⟩)
          ((service.issue id data).perform scene.host))
  | declare (deferred : DeferredBind) {captured : List Datum}
      (hcaptured : ∀ datum ∈ captured, scene.Reaches datum)
      (hvalues : deferred.values.ConfinedOn captured) :
      Step service behaviour scene
        { scene with declared := scene.declared ++ [⟨deferred, captured⟩] }
  | evaluate {deferral : Deferral} (hmem : deferral ∈ scene.declared) :
      Step service behaviour scene
        (scene.issued (fun reference => ⟨reference, deferral.deferred.id,
          deferral.deferred.key, (deferral.deferred.reads scene.host).1,
          (deferral.deferred.reads scene.host).2⟩)
          (deferral.deferred.evaluate.perform scene.host))
  | recover {issue : Issue} (hmem : issue ∈ scene.issues) (keyValue : Value) :
      Step service behaviour scene
        (scene.took ((issue.reference.recover keyValue).perform scene.host))
  | invoke {issue : Issue} (hmem : issue ∈ scene.issues) {arguments : List Datum}
      (harguments : ∀ datum ∈ arguments, scene.Reaches datum) :
      Step service behaviour scene { scene with
        underway := scene.underway ++ [service.run behaviour issue.reference arguments] }
  | invokeWritten (data : Value) {arguments : List Datum}
      (harguments : ∀ datum ∈ arguments, scene.Reaches datum) :
      Step service behaviour scene { scene with
        underway := scene.underway ++ [service.runWritten behaviour data arguments] }
  | start {activity : Activity Datum} {data : List Datum}
      (hdata : ∀ datum ∈ data, scene.Reaches datum) (hactivity : activity.ConfinedOn data) :
      Step service behaviour scene { scene with underway := scene.underway ++ [activity] }
  | turn {place : Nat} {activity : Activity Datum}
      (hactivity : scene.underway[place]? = some activity) :
      Step service behaviour scene (scene.turned place activity)
  | elsewhere {host : Host} (hmemory : host.memory = scene.host.memory) :
      Step service behaviour scene { scene with host := host }

end Scene

end SealedCall
