import Relay.Proofs.Wire.Reading
import Relay.Workflow.Report

/-!
# Reports are read back

The report of a failed run travels in the details of a notice, and notices travel in a report. Null is
how absent details are read, so that a report is read back as it was, except that details which were null
are then absent (`read_back`); `ofNotice?_attached` says so of a report that is taken out of a notice.
-/

namespace Relay

theorem Wire.faithful_kind (k : Fault.Kind) : Wire.Faithful k := Fault.Kind.ofName?_name k

namespace Notice

def slots (n : Notice) : Slots :=
  [("kind", some (Wire.form n.kind)), ("message", some (Wire.form n.message)),
    ("retryable", some (Wire.form n.retryable)), ("code", n.code.map Wire.form),
    ("details", n.details.map Wire.form)]

theorem form_eq (n : Notice) : n.form = .record n.slots.written := by
  unfold form
  simp only [Slots.field_eq, Slots.fieldIfSome_eq, ← Slots.written_append]
  rfl

/-- the notice without details that are null -/
def withoutNulls (n : Notice) : Notice := { n with details := n.details.bind Json.nonNull? }

theorem withoutNulls_eq_iff (n : Notice) : n.withoutNulls = n ↔ n.details ≠ some .null := by
  obtain ⟨kind, message, retryable, code, details⟩ := n
  show Notice.mk kind message retryable code (details.bind Json.nonNull?) = _ ↔ _
  cases details with
  | none => simp
  | some v => cases v <;> simp [Json.nonNull?]

theorem read_back (n : Notice) : Wire.ofJson? (Wire.toJson n) = some n.withoutNulls := by
  show Notice.read n.form.json = some n.withoutNulls
  rw [form_eq]
  unfold Notice.read
  refine Row.read_written n.slots (by simp [slots]) fun r h => ?_
  simp only [Option.bind_eq_bind, Option.bind_some, h.required "kind" rfl (Wire.faithful_kind _),
    h.required "message" rfl (Wire.faithful_string _),
    h.defaulted "retryable" rfl (Wire.faithful_bool _),
    h.optional_faithful "code" rfl fun code _ => ⟨Wire.faithful_int64 code, rfl⟩,
    h.optional "details" rfl fun v _ => Row.readNullable_json v]
  rfl

theorem faithful {n : Notice} (h : n.details ≠ some .null) : Wire.Faithful n := by
  rw [Wire.Faithful, read_back, (withoutNulls_eq_iff n).mpr h]

theorem read_ne_null {v : Json} {n : Notice} (hread : Wire.ofJson? v = some n) :
    n.details ≠ some .null := by
  change Notice.read v = some n at hread
  unfold Notice.read at hread
  iterate 5 obtain ⟨_, -, hread⟩ := Option.bind_eq_some_iff.mp hread
  obtain ⟨details, hdetails, hread⟩ := Option.bind_eq_some_iff.mp hread
  obtain rfl := Option.some.inj hread
  exact Row.ne_null_of_optional hdetails

end Notice

namespace Workflow

theorem State.ofName?_name (s : State) : Named.ofName? (Named.name s) = some s := by
  cases s <;> rfl

theorem faithful_state (s : State) : Wire.Faithful s := State.ofName?_name s

namespace StepFailure

def slots (f : StepFailure) : Slots :=
  [("step", some (Wire.form f.step)), ("error", some (Wire.form f.error))]

def withoutNulls (f : StepFailure) : StepFailure := { f with error := f.error.withoutNulls }

theorem withoutNulls_eq_iff (f : StepFailure) : f.withoutNulls = f ↔ f.error.details ≠ some .null := by
  rw [← Notice.withoutNulls_eq_iff]
  obtain ⟨step, error⟩ := f
  simp [withoutNulls]

theorem read_back (f : StepFailure) : Wire.ofJson? (Wire.toJson f) = some f.withoutNulls := by
  show StepFailure.read (Form.record f.slots.written).json = some f.withoutNulls
  unfold StepFailure.read
  refine Row.read_written f.slots (by simp [slots]) fun r h => ?_
  simp only [Option.bind_eq_bind, Option.bind_some, h.required "step" rfl (Wire.faithful_string _),
    h.required "error" rfl (Notice.read_back _)]
  rfl

theorem faithful {f : StepFailure} (h : f.error.details ≠ some .null) : Wire.Faithful f := by
  rw [Wire.Faithful, read_back, (withoutNulls_eq_iff f).mpr h]

theorem read_ne_null {v : Json} {f : StepFailure} (hread : Wire.ofJson? v = some f) :
    f.error.details ≠ some .null := by
  change StepFailure.read v = some f at hread
  unfold StepFailure.read at hread
  iterate 2 obtain ⟨_, -, hread⟩ := Option.bind_eq_some_iff.mp hread
  obtain ⟨error, herror, hread⟩ := Option.bind_eq_some_iff.mp hread
  obtain rfl := Option.some.inj hread
  obtain ⟨w, -, hw⟩ := Row.exists_of_required herror
  exact Notice.read_ne_null hw

end StepFailure

namespace Report

def slots (r : Report) : Slots :=
  [("workflow_id", some (Wire.form r.workflowId)), ("operation", some (Wire.form r.operation)),
    ("state", some (Wire.form r.state)), ("results", some (.payload (.obj r.results))),
    ("completed", some (.list (r.completed.map Wire.form))), ("failed", r.failed.map Wire.form),
    ("failures", Slots.ofList r.failures), ("compensated", Slots.ofList r.compensated),
    ("compensation_failures", Slots.ofList r.compensationFailures),
    ("uncompensated", Slots.ofList r.uncompensated)]

theorem form_eq (r : Report) : r.form = .record r.slots.written := by
  have hresults : [("results", Form.payload (.obj r.results))] =
      Slots.written [("results", some (.payload (.obj r.results)))] := rfl
  unfold form
  simp only [Slots.field_eq, Slots.fieldIfSome_eq, Slots.fieldIfAny_eq, Slots.fieldList_eq, hresults,
    ← Slots.written_append]
  rfl

/-- the report without details that are null -/
def withoutNulls (r : Report) : Report :=
  { r with
    failures := r.failures.map StepFailure.withoutNulls
    compensationFailures := r.compensationFailures.map StepFailure.withoutNulls }

theorem withoutNulls_eq_iff (r : Report) : r.withoutNulls = r ↔
    (∀ f ∈ r.failures, f.error.details ≠ some .null) ∧
      ∀ f ∈ r.compensationFailures, f.error.details ≠ some .null := by
  have hlist : ∀ fs : List StepFailure, fs.map StepFailure.withoutNulls = fs ↔
      ∀ f ∈ fs, f.error.details ≠ some .null := by
    intro fs
    have hmap : fs.map StepFailure.withoutNulls = fs.map id ↔ ∀ f ∈ fs, f.withoutNulls = f :=
      List.map_inj_left
    rw [List.map_id] at hmap
    simp only [hmap, StepFailure.withoutNulls_eq_iff]
  rw [← hlist, ← hlist]
  obtain ⟨⟩ := r
  simp [withoutNulls]

/-- **a report is read back but for details that are null** -/
theorem read_back (r : Report) : Wire.ofJson? (Wire.toJson r) = some r.withoutNulls := by
  have hstrings : ∀ ss : List String, ∀ s ∈ ss, Wire.ofJson? (Wire.toJson s) = some (id s) :=
    fun _ s _ => Wire.faithful_string s
  have hfailures : ∀ fs : List StepFailure, ∀ f ∈ fs, Wire.ofJson? (Wire.toJson f) = some f.withoutNulls :=
    fun _ f _ => f.read_back
  show Report.read r.form.json = some r.withoutNulls
  rw [form_eq]
  unfold Report.read
  refine Row.read_written r.slots (by simp [slots]) fun row h => ?_
  have hresults : row.defaulted "results" readResults [] = some r.results := by
    rw [h.defaulted_form "results" rfl]
    unfold Form.json
    rfl
  have hcompleted : row.defaulted "completed" (readList Wire.read) [] = some r.completed := by
    rw [h.defaulted_form "completed" rfl]
    exact Row.readList_self (hstrings _)
  simp only [Option.bind_eq_bind, Option.bind_some,
    h.required "workflow_id" rfl (Wire.faithful_string _),
    h.required "operation" rfl (Wire.faithful_string _),
    h.required "state" rfl (faithful_state _), hresults, hcompleted,
    h.optional_faithful "failed" rfl fun s _ => ⟨Wire.faithful_string s, rfl⟩,
    h.defaulted_list "failures" rfl (hfailures _), h.defaulted_list "compensated" rfl (hstrings _),
    h.defaulted_list "compensation_failures" rfl (hfailures _),
    h.defaulted_list "uncompensated" rfl (hstrings _), List.map_id]
  rfl

theorem faithful {r : Report} (hf : ∀ f ∈ r.failures, f.error.details ≠ some .null)
    (hc : ∀ f ∈ r.compensationFailures, f.error.details ≠ some .null) : Wire.Faithful r := by
  rw [Wire.Faithful, read_back, (withoutNulls_eq_iff r).mpr ⟨hf, hc⟩]

theorem read_ne_null {v : Json} {r : Report} (hread : Wire.ofJson? v = some r) :
    (∀ f ∈ r.failures, f.error.details ≠ some .null) ∧
      ∀ f ∈ r.compensationFailures, f.error.details ≠ some .null := by
  change Report.read v = some r at hread
  unfold Report.read at hread
  iterate 7 obtain ⟨_, -, hread⟩ := Option.bind_eq_some_iff.mp hread
  obtain ⟨failures, hfailures, hread⟩ := Option.bind_eq_some_iff.mp hread
  obtain ⟨_, -, hread⟩ := Option.bind_eq_some_iff.mp hread
  obtain ⟨undoFailures, hundoFailures, hread⟩ := Option.bind_eq_some_iff.mp hread
  obtain ⟨_, -, hread⟩ := Option.bind_eq_some_iff.mp hread
  obtain rfl := Option.some.inj hread
  constructor
  · intro f hf
    obtain ⟨w, hw⟩ := Row.exists_of_defaulted_list hfailures f hf
    exact StepFailure.read_ne_null hw
  · intro f hf
    obtain ⟨w, hw⟩ := Row.exists_of_defaulted_list hundoFailures f hf
    exact StepFailure.read_ne_null hw

/-- a report is taken out of the notice that it was attached to -/
theorem ofNotice?_attached {r : Report} (h : Wire.Faithful r) (n : Notice) :
    ofNotice? { n with details := some (Wire.toJson r) } = some r := h

end Report

end Workflow

end Relay
