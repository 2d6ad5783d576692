import Relay.Envelope
import Relay.Proofs.Wire.Header
import Relay.Proofs.Wire.Plan
import Relay.Proofs.Wire.Report

/-!
# Envelopes are read back

What an envelope carries is a value, or the call or answer of a tool, or the request or report of a
workflow. It is read back as it was written, with one exception: a value that may be absent is read as
absent if it is null. That is so for data that are a value, and for the details of each notice, in the
envelope or in a report.

* `Payload`                what an envelope carries;
* `Envelope.withoutNulls`  the envelope without the values that are read as absent;
* `Envelope.HoldsNull`     there is such a value.

`Envelope.reads_withoutNulls` says that the former is read, and that it is the envelope itself unless the
latter holds.
-/

namespace Relay

/-- what an envelope carries -/
inductive Payload
  | value
  | call
  | answer
  | request
  | report

namespace Payload

def type : Payload → Type
  | value => Json
  | call => Tool.Call
  | answer => Tool.Answer
  | request => Workflow.Request
  | report => Workflow.Report

instance : (p : Payload) → Wire p.type
  | value => inferInstanceAs (Wire Json)
  | call => inferInstanceAs (Wire Tool.Call)
  | answer => inferInstanceAs (Wire Tool.Answer)
  | request => inferInstanceAs (Wire Workflow.Request)
  | report => inferInstanceAs (Wire Workflow.Report)

/-- the data as they are read back, if they are not absent then -/
def kept : (p : Payload) → p.type → Option p.type
  | value, v => Json.nonNull? v
  | call, c => some c
  | answer, a => some a
  | request, q => some q
  | report, r => some (Workflow.Report.withoutNulls r)

/-- the data are null, or have null where a value may be absent -/
def HoldsNull : (p : Payload) → p.type → Prop
  | value, v => v = Json.null
  | report, r => ∃ f ∈ Workflow.Report.failures r ++ Workflow.Report.compensationFailures r,
      f.error.details = some .null
  | _, _ => False

theorem kept_eq_iff (p : Payload) (a : p.type) : p.kept a = some a ↔ ¬p.HoldsNull a := by
  cases p with
  | value =>
    change Json at a
    show Json.nonNull? a = some a ↔ a ≠ Json.null
    cases a <;> simp [Json.nonNull?]
  | call | answer | request => simp [kept, HoldsNull]
  | report =>
    change Workflow.Report at a
    show some a.withoutNulls = some a ↔
      ¬∃ f ∈ a.failures ++ a.compensationFailures, f.error.details = some .null
    rw [Option.some.injEq, Workflow.Report.withoutNulls_eq_iff, ← List.forall_mem_append]
    simp only [not_exists, not_and, ne_eq]

theorem readNullable_form (p : Payload) (a : p.type) :
    readNullable Wire.read (Wire.toJson a) = some (p.kept a) := by
  cases p with
  | value => exact Row.readNullable_json a
  | call => exact Row.readNullable_of_present (Tool.Call.faithful a) rfl
  | answer => exact Row.readNullable_of_present (Tool.Answer.faithful a) rfl
  | request => exact Row.readNullable_of_present (Workflow.Request.faithful a) rfl
  | report => exact Row.readNullable_of_present (Workflow.Report.read_back a) rfl

end Payload

namespace Envelope

section
variable {p : Payload}

def withoutNulls (e : Envelope p.type) : Envelope p.type :=
  ⟨e.header, e.data.bind p.kept, e.error.map Notice.withoutNulls⟩

def HoldsNull (e : Envelope p.type) : Prop :=
  (∃ a ∈ e.data, p.HoldsNull a) ∨ ∃ n ∈ e.error, n.details = some .null

theorem withoutNulls_eq_iff (e : Envelope p.type) : e.withoutNulls = e ↔ ¬e.HoldsNull := by
  obtain ⟨header, data, error⟩ := e
  have hdata : data.bind p.kept = data ↔ ∀ a ∈ data, ¬p.HoldsNull a := by
    cases data with
    | none => simp
    | some a => simp [p.kept_eq_iff a]
  have herror : error.map Notice.withoutNulls = error ↔ ∀ n ∈ error, n.details ≠ some .null := by
    cases error with
    | none => simp
    | some n => simp [n.withoutNulls_eq_iff]
  simp only [withoutNulls, HoldsNull, mk.injEq, true_and, hdata, herror]
  simp

def slots (e : Envelope p.type) : Slots :=
  [("meta", some (Wire.form e.header)), ("data", some (Slots.orNull e.data)),
    ("error", some (Slots.orNull e.error))]

theorem form_eq (e : Envelope p.type) : e.form = .record e.slots.written := by
  unfold form
  simp only [Slots.field_eq, Slots.fieldOrNull_eq, ← Slots.written_append]
  rfl

theorem read_form {e : Envelope p.type} (h : ∀ t ∈ e.header.timestamp, t.isValid = true) :
    Wire.ofJson? (Wire.toJson e) = some e.withoutNulls := by
  have hnotice : ∀ n ∈ e.error, readNullable Wire.read (Wire.toJson n) = some (some n.withoutNulls) :=
    fun n _ => Row.readNullable_of_present n.read_back rfl
  show Envelope.read e.form.json = some e.withoutNulls
  rw [form_eq]
  unfold Envelope.read
  refine Row.read_written e.slots (by simp [slots]) fun r hr => ?_
  simp only [Option.bind_eq_bind, Option.bind_some, hr.required "meta" rfl (Header.faithful h),
    hr.elective "data" rfl fun a _ => p.readNullable_form a, hr.elective "error" rfl hnotice]
  rw [withoutNulls, Option.map_eq_bind]
  rfl

end

/-- **an envelope is read back, but for values that are read as absent** -/
theorem reads_withoutNulls (p : Payload) (e : Envelope p.type)
    (h : ∀ t ∈ e.header.timestamp, t.isValid = true) :
    Wire.ofJson? (Wire.toJson e) = some e.withoutNulls ∧ (e.withoutNulls = e ↔ ¬e.HoldsNull) :=
  ⟨read_form h, e.withoutNulls_eq_iff⟩

/-- the answer to a request whose run was softened; the details of both notices are null -/
def softened : Envelope (Payload.type .report) :=
  let notice : Notice := ⟨.timeout, "late", true, some 408, some .null⟩
  let report : Workflow.Report :=
    { workflowId := "w-1", operation := "quote", state := .partialSuccess
      failures := [⟨"price", notice⟩] }
  let header : Header := { requestId := "r-1", timestamp := some ⟨⟨2024, 2, 29⟩, 23, 59, 60, 500000000⟩ }
  ⟨header, some report, some notice⟩

theorem reads_withoutNulls_softened : (∀ t ∈ softened.header.timestamp, t.isValid = true) ∧
    Wire.ofJson? (Wire.toJson softened) = some softened.withoutNulls ∧
    softened.withoutNulls ≠ softened := by
  have hvalid : ∀ t ∈ softened.header.timestamp, t.isValid = true := by
    intro t ht
    obtain rfl := Option.some.inj ht
    decide
  have hnull : softened.HoldsNull := .inr ⟨_, rfl, rfl⟩
  obtain ⟨hread, hsame⟩ := reads_withoutNulls .report softened hvalid
  exact ⟨hvalid, hread, fun e => hsame.mp e hnull⟩

end Envelope

end Relay
