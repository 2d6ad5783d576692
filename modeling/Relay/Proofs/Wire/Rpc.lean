import Relay.Proofs.Wire.Reading
import Relay.Rpc

/-!
# Remote calls are read back

Requests are read back as they were written. The result of a response and the data of an error object are
values, and null is how they are absent; a response is read back as it was written unless one of them is
null (`Response.faithful`), and what was read never has one (`Response.read_ne_null`).
-/

namespace Relay.Rpc

theorem Params.faithful (p : Params) : Wire.Faithful p := by
  let slots : Slots := [("name", some (Wire.form p.name)), ("arguments", some (Wire.form p.arguments))]
  show Params.read (Form.record slots.written).json = some p
  unfold Params.read
  refine Row.read_written slots (by simp [slots]) fun r h => ?_
  simp only [Option.bind_eq_bind, Option.bind_some, h.required "name" rfl (Wire.faithful_string _),
    h.required "arguments" rfl (Wire.faithful_json _)]
  rfl

theorem Request.faithful (q : Request) : Wire.Faithful q := by
  let slots : Slots := [("jsonrpc", some (Wire.form q.jsonrpc)), ("id", some (Wire.form q.id)),
    ("method", some (Wire.form q.method)), ("params", some (Wire.form q.params))]
  show Request.read (Form.record slots.written).json = some q
  unfold Request.read
  refine Row.read_written slots (by simp [slots]) fun r h => ?_
  simp only [Option.bind_eq_bind, Option.bind_some, h.required "jsonrpc" rfl (Wire.faithful_string _),
    h.required "id" rfl (Wire.faithful_string _), h.required "method" rfl (Wire.faithful_string _),
    h.required "params" rfl (Params.faithful _)]
  rfl

namespace ErrorObject

def slots (e : ErrorObject) : Slots :=
  [("code", some (Wire.form e.code)), ("message", some (Wire.form e.message)),
    ("data", e.data.map Wire.form)]

theorem form_eq (e : ErrorObject) : e.form = .record e.slots.written := by
  unfold form
  simp only [Slots.field_eq, Slots.fieldIfSome_eq, ← Slots.written_append]
  rfl

theorem faithful {e : ErrorObject} (hdata : e.data ≠ some .null) : Wire.Faithful e := by
  show ErrorObject.read e.form.json = some e
  rw [form_eq]
  unfold ErrorObject.read
  refine Row.read_written e.slots (by simp [slots]) fun r h => ?_
  simp only [Option.bind_eq_bind, Option.bind_some, h.required "code" rfl (Wire.faithful_int64 _),
    h.required "message" rfl (Wire.faithful_string _), h.optional_value "data" rfl hdata]
  rfl

theorem read_ne_null {v : Json} {e : ErrorObject} (hread : Wire.ofJson? v = some e) :
    e.data ≠ some .null := by
  change ErrorObject.read v = some e at hread
  unfold ErrorObject.read at hread
  iterate 3 obtain ⟨_, -, hread⟩ := Option.bind_eq_some_iff.mp hread
  obtain ⟨data, hdata, hread⟩ := Option.bind_eq_some_iff.mp hread
  obtain rfl := Option.some.inj hread
  exact Row.ne_null_of_optional hdata

end ErrorObject

namespace Response

def slots (q : Response) : Slots :=
  [("jsonrpc", some (Wire.form q.jsonrpc)), ("id", some (Slots.orNull q.id)),
    ("result", q.result.map Wire.form), ("error", q.error.map Wire.form)]

theorem form_eq (q : Response) : q.form = .record q.slots.written := by
  unfold form
  simp only [Slots.field_eq, Slots.fieldOrNull_eq, Slots.fieldIfSome_eq, ← Slots.written_append]
  rfl

theorem faithful {q : Response} (hresult : q.result ≠ some .null)
    (herror : ∀ e ∈ q.error, e.data ≠ some .null) : Wire.Faithful q := by
  show Response.read q.form.json = some q
  rw [form_eq]
  unfold Response.read
  refine Row.read_written q.slots (by simp [slots]) fun r h => ?_
  simp only [Option.bind_eq_bind, Option.bind_some, h.required "jsonrpc" rfl (Wire.faithful_string _),
    h.optional_orNull "id" rfl fun id _ => ⟨Wire.faithful_string id, rfl⟩,
    h.optional_value "result" rfl hresult,
    h.optional_faithful "error" rfl fun e he => ⟨ErrorObject.faithful (herror e he), rfl⟩]
  rfl

theorem read_ne_null {v : Json} {q : Response} (hread : Wire.ofJson? v = some q) :
    q.result ≠ some .null ∧ ∀ e ∈ q.error, e.data ≠ some .null := by
  change Response.read v = some q at hread
  unfold Response.read at hread
  iterate 3 obtain ⟨_, -, hread⟩ := Option.bind_eq_some_iff.mp hread
  obtain ⟨result, hresult, hread⟩ := Option.bind_eq_some_iff.mp hread
  obtain ⟨error, herror, hread⟩ := Option.bind_eq_some_iff.mp hread
  obtain rfl := Option.some.inj hread
  refine ⟨Row.ne_null_of_optional hresult, fun e he => ?_⟩
  obtain rfl : error = some e := he
  obtain ⟨w, -, -, hw⟩ := Row.exists_of_optional herror
  exact ErrorObject.read_ne_null hw

end Response

end Relay.Rpc
