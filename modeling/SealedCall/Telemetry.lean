import SealedCall.Host

/-! # Exporting spans

Exporting is switched on by a setting and set up once. It needs a kit, and without one nothing
happens but a warning; without the exporter that the settings ask for, spans go to the console.
-/

namespace SealedCall.Telemetry

/-- Where spans go: to the console, or over the network to an endpoint when one is set. -/
inductive Exporter
  | console
  | network (endpoint : Option Text)
deriving DecidableEq

/-- A provider of spans: its exporter and what it tells about the service, sorted by name. -/
structure Provider where
  exporter : Exporter
  attributes : List (Text × Value)

/-- The setting that switches exporting on. -/
def isEnabled (deployment : Deployment) : Bool :=
  deployment.isOn (Text.of "ACTIONSEAL_OTEL_ENABLED") false

/-- What is told about the service: its name, and the number of its actions when it has a
roster. -/
def attributes (deployment : Deployment) (roster : Option Roster) : List (Text × Value) :=
  (Text.of "service.name",
      .text (deployment.setting "ACTIONSEAL_OTEL_SERVICE_NAME" "actionseal")) ::
    match roster with
    | some roster => [(Text.of "actionseal.action_count", .int roster.ids.length)]
    | none => []

def warn (message : String) : Operation Unit :=
  Operation.record .warning .telemetry (Text.of message)

/-- The exporter that the settings ask for, as far as it is at hand. -/
def chooseExporter (deployment : Deployment) : Operation Exporter := do
  let wanted := (deployment.setting "ACTIONSEAL_OTEL_EXPORTER" "console").map CodePoint.asciiLower
  if wanted = Text.of "otlp" then
    if deployment.components.contains .networkExporter then
      let endpoint := deployment.setting "ACTIONSEAL_OTEL_OTLP_ENDPOINT" ""
      pure (.network (if endpoint.isEmpty then none else some endpoint))
    else
      warn "OTLP exporter not installed, falling back to console"
      pure .console
  else pure .console

/-- What setting up exporting comes to: whether spans are exported, and the provider that was
installed. -/
structure Setup where
  isExporting : Bool
  provider : Option Provider

/-- Sets up exporting for the service of a roster, once. -/
def configure (roster : Option Roster) : Operation Setup := do
  let deployment := (← get).deployment
  if !isEnabled deployment then return ⟨false, none⟩
  if deployment.isExporting then return ⟨true, none⟩
  if !deployment.components.contains .exportKit then
    warn "ACTIONSEAL_OTEL_ENABLED is set but opentelemetry-sdk is not installed"
    return ⟨false, none⟩
  let exporter ← chooseExporter deployment
  modify fun host => { host with deployment := { host.deployment with isExporting := true } }
  return ⟨true, some ⟨exporter, Json.sortedByKey (attributes deployment roster)⟩⟩

/-- Whether an endpoint is watched by the probe, which exporting has to be switched on for. -/
def instrument : Operation Bool := do
  let deployment := (← get).deployment
  if !isEnabled deployment then return false
  if deployment.components.contains .endpointProbe then return true
  warn "opentelemetry-instrumentation-fastapi is not installed"
  return false

end SealedCall.Telemetry
