import Relay.Envelope.Header
import Relay.Proofs.Wire.Reading

/-!
# Headers are read back

A header is read back as it was written, with all that it holds, if its timestamp is valid
(`Header.faithful`); the timestamp of a header that was read is (`Header.isValid_of_read`).
-/

namespace Relay

namespace Policy

def slots (p : Policy) : Slots :=
  [("mode", some (Wire.form p.mode)), ("retry_count", some (Wire.form p.retryCount)),
    ("timeout_ms", some (Wire.form p.timeoutMs)),
    ("rollback_on_failure", some (Wire.form p.rollbackOnFailure))]

theorem faithful (p : Policy) : Wire.Faithful p := by
  show Policy.read (Form.record p.slots.written).json = some p
  unfold Policy.read
  refine Row.read_written p.slots (by simp [slots]) fun r h => ?_
  simp only [Option.bind_eq_bind, Option.bind_some, h.defaulted "mode" rfl (Wire.faithful_mode _),
    h.defaulted "retry_count" rfl (Wire.faithful_uint32 _),
    h.defaulted "timeout_ms" rfl (Wire.faithful_uint64 _),
    h.defaulted "rollback_on_failure" rfl (Wire.faithful_bool _)]
  rfl

end Policy

namespace Trace

def slots (t : Trace) : Slots :=
  [("trace_id", some (Wire.form t.traceId)), ("span_id", some (Wire.form t.spanId)),
    ("parent_span_id", t.parentSpanId.map Wire.form)]

theorem form_eq (t : Trace) : t.form = .record t.slots.written := by
  unfold form
  simp only [Slots.field_eq, Slots.fieldIfSome_eq, ← Slots.written_append]
  rfl

theorem faithful (t : Trace) : Wire.Faithful t := by
  show Trace.read t.form.json = some t
  rw [form_eq]
  unfold Trace.read
  refine Row.read_written t.slots (by simp [slots]) fun r h => ?_
  simp only [Option.bind_eq_bind, Option.bind_some, h.required "trace_id" rfl (Wire.faithful_string _),
    h.required "span_id" rfl (Wire.faithful_string _),
    h.optional_faithful "parent_span_id" rfl fun s _ => ⟨Wire.faithful_string s, rfl⟩]
  rfl

end Trace

namespace Caller

def slots (c : Caller) : Slots :=
  [("principal", c.principal.map Wire.form), ("roles", Slots.ofList c.roles)]

theorem form_eq (c : Caller) : c.form = .record c.slots.written := by
  unfold form
  simp only [Slots.fieldIfSome_eq, Slots.fieldIfAny_eq, ← Slots.written_append]
  rfl

theorem faithful (c : Caller) : Wire.Faithful c := by
  show Caller.read c.form.json = some c
  rw [form_eq]
  unfold Caller.read
  refine Row.read_written c.slots (by simp [slots]) fun r h => ?_
  simp only [Option.bind_eq_bind, Option.bind_some,
    h.optional_faithful "principal" rfl fun s _ => ⟨Wire.faithful_string s, rfl⟩,
    h.defaulted_list "roles" rfl fun s _ => Wire.faithful_string s, List.map_id']
  rfl

end Caller

namespace WorkflowPlace

def slots (p : WorkflowPlace) : Slots :=
  [("workflow_id", some (Wire.form p.workflowId)), ("operation", some (Wire.form p.operation)),
    ("step", p.step.map Wire.form), ("index", p.index.map Wire.form), ("total", p.total.map Wire.form)]

theorem form_eq (p : WorkflowPlace) : p.form = .record p.slots.written := by
  unfold form
  simp only [Slots.field_eq, Slots.fieldIfSome_eq, ← Slots.written_append]
  rfl

theorem faithful (p : WorkflowPlace) : Wire.Faithful p := by
  show WorkflowPlace.read p.form.json = some p
  rw [form_eq]
  unfold WorkflowPlace.read
  refine Row.read_written p.slots (by simp [slots]) fun r h => ?_
  simp only [Option.bind_eq_bind, Option.bind_some,
    h.required "workflow_id" rfl (Wire.faithful_string _),
    h.required "operation" rfl (Wire.faithful_string _),
    h.optional_faithful "step" rfl fun s _ => ⟨Wire.faithful_string s, rfl⟩,
    h.optional_faithful "index" rfl fun n _ => ⟨Wire.faithful_nat n, rfl⟩,
    h.optional_faithful "total" rfl fun n _ => ⟨Wire.faithful_nat n, rfl⟩]
  rfl

end WorkflowPlace

namespace Header

def slots (h : Header) : Slots :=
  [("request_id", some (Wire.form h.requestId)),
    ("parent_request_id", h.parentRequestId.map Wire.form),
    ("child_request_id", h.childRequestId.map Wire.form), ("tenant", h.tenant.map Wire.form),
    ("session_id", h.sessionId.map Wire.form), ("agent_id", h.agentId.map Wire.form),
    ("timestamp", h.timestamp.map Wire.form), ("duration_ms", h.durationMs.map Wire.form),
    ("tracing", h.tracing.map Wire.form), ("security", h.security.map Wire.form),
    ("error_policy", h.errorPolicy.map Wire.form),
    ("workflow_context", h.workflowContext.map Wire.form)]

theorem form_eq (h : Header) : h.form = .record h.slots.written := by
  unfold form
  simp only [Slots.field_eq, Slots.fieldIfSome_eq, ← Slots.written_append]
  rfl

theorem faithful {h : Header} (hvalid : ∀ t ∈ h.timestamp, t.isValid = true) : Wire.Faithful h := by
  have htext : ∀ s : String, Wire.Faithful s ∧ (Wire.toJson s).isNull = false := fun s => ⟨rfl, rfl⟩
  show Header.read h.form.json = some h
  rw [form_eq]
  unfold Header.read
  refine Row.read_written h.slots (by simp [slots]) fun r hr => ?_
  simp only [Option.bind_eq_bind, Option.bind_some,
    hr.required "request_id" rfl (Wire.faithful_string _),
    hr.optional_faithful "parent_request_id" rfl fun s _ => htext s,
    hr.optional_faithful "child_request_id" rfl fun s _ => htext s,
    hr.optional_faithful "tenant" rfl fun s _ => htext s,
    hr.optional_faithful "session_id" rfl fun s _ => htext s,
    hr.optional_faithful "agent_id" rfl fun s _ => htext s,
    hr.optional_faithful "timestamp" rfl fun t ht => ⟨Wire.faithful_timestamp (hvalid t ht), rfl⟩,
    hr.optional_faithful "duration_ms" rfl fun n _ => ⟨Wire.faithful_uint64 n, rfl⟩,
    hr.optional_faithful "tracing" rfl fun t _ => ⟨t.faithful, rfl⟩,
    hr.optional_faithful "security" rfl fun c _ => ⟨c.faithful, rfl⟩,
    hr.optional_faithful "error_policy" rfl fun p _ => ⟨p.faithful, rfl⟩,
    hr.optional_faithful "workflow_context" rfl fun p _ => ⟨p.faithful, rfl⟩]
  rfl

theorem isValid_of_read {v : Json} {h : Header} (hread : Wire.ofJson? v = some h) :
    ∀ t ∈ h.timestamp, t.isValid = true := by
  change Header.read v = some h at hread
  unfold Header.read at hread
  obtain ⟨r, -, hread⟩ := Option.bind_eq_some_iff.mp hread
  iterate 6 obtain ⟨_, -, hread⟩ := Option.bind_eq_some_iff.mp hread
  obtain ⟨timestamp, htimestamp, hread⟩ := Option.bind_eq_some_iff.mp hread
  iterate 5 obtain ⟨_, -, hread⟩ := Option.bind_eq_some_iff.mp hread
  obtain rfl := Option.some.inj hread
  intro t ht
  obtain rfl : timestamp = some t := ht
  obtain ⟨w, -, -, hw⟩ := Row.exists_of_optional htimestamp
  exact Wire.isValid_of_read hw

end Header

end Relay
