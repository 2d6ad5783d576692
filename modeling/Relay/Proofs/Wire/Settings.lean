import Relay.Proofs.Wire.Header
import Relay.Settings

/-!
# Settings are read back

Settings are read back as they were written if the jitter is finite (`Settings.faithful`), and the jitter
is finite if they were read from a value (`Settings.isFinite_of_read`).
-/

namespace Relay

namespace RetrySettings

theorem faithful {s : RetrySettings} (hjitter : s.jitter.isFinite = true) : Wire.Faithful s := by
  let slots : Slots := [("min_delay_ms", some (Wire.form s.minDelayMs)),
    ("max_delay_ms", some (Wire.form s.maxDelayMs)), ("jitter", some (Wire.form s.jitter))]
  show RetrySettings.read (Form.record slots.written).json = some s
  unfold RetrySettings.read
  refine Row.read_written slots (by simp [slots]) fun r h => ?_
  simp only [Option.bind_eq_bind, Option.bind_some,
    h.defaulted "min_delay_ms" rfl (Wire.faithful_uint64 _),
    h.defaulted "max_delay_ms" rfl (Wire.faithful_uint64 _),
    h.defaulted "jitter" rfl (Wire.faithful_double hjitter)]
  rfl

theorem isFinite_of_read {v : Json} {s : RetrySettings} (hv : v.Representable)
    (hread : Wire.ofJson? v = some s) : s.jitter.isFinite = true := by
  change RetrySettings.read v = some s at hread
  unfold RetrySettings.read at hread
  obtain ⟨r, hrow, hread⟩ := Option.bind_eq_some_iff.mp hread
  iterate 2 obtain ⟨_, -, hread⟩ := Option.bind_eq_some_iff.mp hread
  obtain ⟨jitter, hjitter, hread⟩ := Option.bind_eq_some_iff.mp hread
  obtain rfl := Option.some.inj hread
  rcases Row.exists_of_defaulted hjitter with rfl | ⟨w, hw, hread⟩
  · show Binary64.zero.isFinite = true
    decide
  · exact Wire.isFinite_of_read (Row.representable_of_given hv hrow w hw) hread

end RetrySettings

namespace Settings

theorem Logging.faithful (l : Logging) : Wire.Faithful l := by
  let slots : Slots := [("level", some (Wire.form l.level)), ("json", some (Wire.form l.json))]
  show Logging.read (Form.record slots.written).json = some l
  unfold Logging.read
  refine Row.read_written slots (by simp [slots]) fun r h => ?_
  simp only [Option.bind_eq_bind, Option.bind_some, h.defaulted "level" rfl (Wire.faithful_string _),
    h.defaulted "json" rfl (Wire.faithful_bool _)]
  rfl

namespace KnownService

def slots (s : KnownService) : Slots :=
  [("name", some (Wire.form s.name)), ("transport", some (Wire.form s.transport)),
    ("injector", s.injector.map Wire.form)]

theorem form_eq (s : KnownService) : s.form = .record s.slots.written := by
  unfold form
  simp only [Slots.field_eq, Slots.fieldIfSome_eq, ← Slots.written_append]
  rfl

theorem faithful (s : KnownService) : Wire.Faithful s := by
  show KnownService.read s.form.json = some s
  rw [form_eq]
  unfold KnownService.read
  refine Row.read_written s.slots (by simp [slots]) fun r h => ?_
  simp only [Option.bind_eq_bind, Option.bind_some, h.required "name" rfl (Wire.faithful_string _),
    h.required "transport" rfl (Wire.faithful_transport _),
    h.optional_faithful "injector" rfl fun name _ => ⟨Wire.faithful_string name, rfl⟩]
  rfl

end KnownService

theorem faithful {s : Settings} (hjitter : s.retry.jitter.isFinite = true) : Wire.Faithful s := by
  let slots : Slots := [("domain", some (Wire.form s.domain)),
    ("default_error_policy", some (Wire.form s.defaultPolicy)), ("retry", some (Wire.form s.retry)),
    ("logging", some (Wire.form s.logging)), ("services", some (.list (s.services.map Wire.form)))]
  show Settings.read (Form.record slots.written).json = some s
  unfold Settings.read
  refine Row.read_written slots (by simp [slots]) fun r h => ?_
  have hservices : r.defaulted "services" (readList Wire.read) ({} : Settings).services =
      some s.services := by
    rw [h.defaulted_form "services" rfl]
    exact Row.readList_self fun service _ => service.faithful
  simp only [Option.bind_eq_bind, Option.bind_some, h.defaulted "domain" rfl (Wire.faithful_string _),
    h.defaulted "default_error_policy" rfl (Policy.faithful _),
    h.defaulted "retry" rfl (RetrySettings.faithful hjitter),
    h.defaulted "logging" rfl (Logging.faithful _), hservices]
  rfl

theorem isFinite_of_read {v : Json} {s : Settings} (hv : v.Representable)
    (hread : Wire.ofJson? v = some s) : s.retry.jitter.isFinite = true := by
  change Settings.read v = some s at hread
  unfold Settings.read at hread
  obtain ⟨r, hrow, hread⟩ := Option.bind_eq_some_iff.mp hread
  iterate 2 obtain ⟨_, -, hread⟩ := Option.bind_eq_some_iff.mp hread
  obtain ⟨retry, hretry, hread⟩ := Option.bind_eq_some_iff.mp hread
  iterate 2 obtain ⟨_, -, hread⟩ := Option.bind_eq_some_iff.mp hread
  obtain rfl := Option.some.inj hread
  rcases Row.exists_of_defaulted hretry with rfl | ⟨w, hw, hread⟩
  · show Binary64.zero.isFinite = true
    decide
  · exact RetrySettings.isFinite_of_read (Row.representable_of_given hv hrow w hw) hread

end Settings

end Relay
