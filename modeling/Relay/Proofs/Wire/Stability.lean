import Relay.Proofs.Wire.Envelope
import Relay.Proofs.Wire.Rpc
import Relay.Proofs.Wire.Settings

/-!
# What was read is read again

Readers take more than is ever written: fields in any order and fields that they do not know, nulls,
modes that do not exist, plain variants as objects and records as lists. Whatever a value was read as,
the written form of it is read as the same again (`Wire.stability`).

A reader never finds what is not read back: a value that may be absent is not null, a timestamp is valid,
and a double is finite if the numbers it was read from are those of JSON. All else is read back in any
case.
-/

namespace Relay

namespace Wire

section
variable {α : Type} [Wire α]

/-- whatever a value of JSON is read as, it is read as the same again once it has been written -/
def Stable (α : Type) [Wire α] : Prop :=
  ∀ (v : Json) (a : α), v.Representable → ofJson? v = some a → ofJson? (toJson a) = some a

theorem stable_of_faithful (h : ∀ a : α, Faithful a) : Stable α := fun _ a _ _ => h a

end

/-- **the types that travel or are configured are stable** -/
structure Stability : Prop where
  envelope : ∀ payload : Payload, Stable (Envelope payload.type)
  header : Stable Header
  trace : Stable Trace
  caller : Stable Caller
  place : Stable WorkflowPlace
  policy : Stable Policy
  mode : Stable Policy.Mode
  faultKind : Stable Fault.Kind
  notice : Stable Notice
  transport : Stable Transport
  toolCall : Stable Tool.Call
  toolAnswer : Stable Tool.Answer
  undo : Stable Plan.Undo
  step : Stable Plan.Step
  phase : Stable Plan.Phase
  schedule : Stable Plan.Schedule
  numbered : Stable Plan.Numbered
  definition : Stable Workflow.Definition
  request : Stable Workflow.Request
  state : Stable Workflow.State
  stepFailure : Stable Workflow.StepFailure
  report : Stable Workflow.Report
  settings : Stable Settings
  retry : Stable RetrySettings
  logging : Stable Settings.Logging
  service : Stable Settings.KnownService
  rpcParams : Stable Rpc.Params
  rpcRequest : Stable Rpc.Request
  rpcResponse : Stable Rpc.Response
  rpcError : Stable Rpc.ErrorObject

end Wire

/-! ## envelopes -/

theorem Payload.not_holdsNull_of_read {p : Payload} {v : Json} {a : p.type} (hpresent : v.isNull = false)
    (hread : Wire.ofJson? v = some a) : ¬p.HoldsNull a := by
  cases p with
  | value =>
    change some v = some a at hread
    obtain rfl := Option.some.inj hread
    rintro rfl
    cases hpresent
  | call | answer | request => exact id
  | report =>
    obtain ⟨hfailures, hundoFailures⟩ := Workflow.Report.read_ne_null hread
    rintro ⟨f, hf, hnull⟩
    rcases List.mem_append.mp hf with hf | hf
    · exact hfailures f hf hnull
    · exact hundoFailures f hf hnull

theorem Envelope.stable (p : Payload) : Wire.Stable (Envelope p.type) := by
  intro v e _ hread
  change Envelope.read v = some e at hread
  unfold Envelope.read at hread
  obtain ⟨r, -, hread⟩ := Option.bind_eq_some_iff.mp hread
  obtain ⟨header, hheader, hread⟩ := Option.bind_eq_some_iff.mp hread
  obtain ⟨data, hdata, hread⟩ := Option.bind_eq_some_iff.mp hread
  obtain ⟨error, herror, hread⟩ := Option.bind_eq_some_iff.mp hread
  obtain rfl := Option.some.inj hread
  obtain ⟨w, -, hw⟩ := Row.exists_of_required hheader
  have hvalid : ∀ t ∈ header.timestamp, t.isValid = true := Header.isValid_of_read hw
  have hnull : ¬(⟨header, data, error⟩ : Envelope p.type).HoldsNull := by
    rintro (⟨a, ha, hnull⟩ | ⟨n, hn, hnull⟩)
    · obtain rfl : data = some a := ha
      obtain ⟨w, -, hpresent, hw⟩ := Row.exists_of_elective hdata
      exact Payload.not_holdsNull_of_read hpresent hw hnull
    · obtain rfl : error = some n := hn
      obtain ⟨w, -, -, hw⟩ := Row.exists_of_elective herror
      exact Notice.read_ne_null hw hnull
  rw [Envelope.read_form hvalid, (Envelope.withoutNulls_eq_iff _).mpr hnull]

namespace Wire

theorem stability : Stability where
  envelope := Envelope.stable
  header _ _ _ h := Header.faithful (Header.isValid_of_read h)
  trace := stable_of_faithful Trace.faithful
  caller := stable_of_faithful Caller.faithful
  place := stable_of_faithful WorkflowPlace.faithful
  policy := stable_of_faithful Policy.faithful
  mode := stable_of_faithful faithful_mode
  faultKind := stable_of_faithful faithful_kind
  notice _ _ _ h := Notice.faithful (Notice.read_ne_null h)
  transport := stable_of_faithful faithful_transport
  toolCall := stable_of_faithful Tool.Call.faithful
  toolAnswer := stable_of_faithful Tool.Answer.faithful
  undo := stable_of_faithful Plan.Undo.faithful
  step := stable_of_faithful Plan.Step.faithful
  phase := stable_of_faithful Plan.Phase.faithful
  schedule := stable_of_faithful Plan.Schedule.faithful
  numbered := stable_of_faithful Plan.Numbered.faithful
  definition := stable_of_faithful Workflow.Definition.faithful
  request := stable_of_faithful Workflow.Request.faithful
  state := stable_of_faithful Workflow.faithful_state
  stepFailure _ _ _ h := Workflow.StepFailure.faithful (Workflow.StepFailure.read_ne_null h)
  report _ _ _ h :=
    Workflow.Report.faithful (Workflow.Report.read_ne_null h).1 (Workflow.Report.read_ne_null h).2
  settings _ _ hv h := Settings.faithful (Settings.isFinite_of_read hv h)
  retry _ _ hv h := RetrySettings.faithful (RetrySettings.isFinite_of_read hv h)
  logging := stable_of_faithful Settings.Logging.faithful
  service := stable_of_faithful Settings.KnownService.faithful
  rpcParams := stable_of_faithful Rpc.Params.faithful
  rpcRequest := stable_of_faithful Rpc.Request.faithful
  rpcResponse _ _ _ h :=
    Rpc.Response.faithful (Rpc.Response.read_ne_null h).1 (Rpc.Response.read_ne_null h).2
  rpcError _ _ _ h := Rpc.ErrorObject.faithful (Rpc.ErrorObject.read_ne_null h)

/-- a notice with its kind as an object, details that are null, and a field that nobody knows -/
def oddNotice : Json :=
  .obj [("kind", .obj [("timeout", .null)]), ("details", .null), ("seen", .int 3),
    ("message", .str "late")]

theorem stability_oddNotice : oddNotice.Representable ∧
    ofJson? oddNotice = some (⟨.timeout, "late", false, none, none⟩ : Notice) ∧
    ofJson? (toJson (⟨.timeout, "late", false, none, none⟩ : Notice)) =
      some (⟨.timeout, "late", false, none, none⟩ : Notice) := by
  have hkind : (Json.obj [("timeout", .null)]).Representable :=
    .obj (List.forall_mem_singleton.mpr .null)
  have hodd : oddNotice.Representable := by
    refine .obj ?_
    simp only [List.forall_mem_cons]
    exact ⟨hkind, .null, .int (by decide) (by decide), .str "late", fun _ h => absurd h List.not_mem_nil⟩
  have hread : ofJson? oddNotice = some (⟨.timeout, "late", false, none, none⟩ : Notice) := rfl
  exact ⟨hodd, hread, stability.notice _ _ hodd hread⟩

end Wire

end Relay
