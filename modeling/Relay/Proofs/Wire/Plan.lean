import Relay.Plan.Numbering
import Relay.Proofs.Wire.Scalar
import Relay.Tool
import Relay.Workflow.Report

/-!
# Plans are read back

A plan is read back as it was written, with its steps and what undoes them. A phase is tagged with its
kind, and the fields of its only step stand beside the tag; the undo of a step is tagged as well, and a
reader of a tagged record takes more tags than one of a plain record. Neither makes a difference for what
was written (`Undo.readInside_form`, `Step.readInside_form`).
-/

namespace Relay

namespace Tool

theorem Call.faithful (c : Call) : Wire.Faithful c := by
  let slots : Slots := [("tool", some (Wire.form c.tool)), ("arguments", some (Wire.form c.arguments))]
  show Call.read (Form.record slots.written).json = some c
  unfold Call.read
  refine Row.read_written slots (by simp [slots]) fun r h => ?_
  simp only [Option.bind_eq_bind, Option.bind_some, h.required "tool" rfl (Wire.faithful_string _),
    h.defaulted "arguments" rfl (Wire.faithful_json _)]
  rfl

namespace Answer

def slots (a : Answer) : Slots :=
  [("tool", some (Wire.form a.tool)), ("content", some (Wire.form a.content)),
    ("from_fallback", Slots.ofFlag a.fromFallback)]

theorem form_eq (a : Answer) : a.form = .record a.slots.written := by
  unfold form
  simp only [Slots.field_eq, Slots.fieldIfTrue_eq, ← Slots.written_append]
  rfl

theorem faithful (a : Answer) : Wire.Faithful a := by
  show Answer.read a.form.json = some a
  rw [form_eq]
  unfold Answer.read
  refine Row.read_written a.slots (by simp [slots]) fun r h => ?_
  simp only [Option.bind_eq_bind, Option.bind_some, h.required "tool" rfl (Wire.faithful_string _),
    h.required "content" rfl (Wire.faithful_json _), h.defaulted_flag "from_fallback" rfl]
  rfl

end Answer

end Tool

namespace Plan

/-! ## steps -/

/-- an undo is read back, also inside a tagged record -/
theorem Undo.readInside_form (inside : Bool) (u : Undo) :
    Undo.readInside inside (Wire.toJson u) = some u := by
  cases u with
  | tool service called arguments =>
    let slots : Slots := [("service", some (Wire.form service)), ("tool", some (Wire.form called)),
      ("arguments", some (Wire.form arguments))]
    obtain ⟨r, h, htag, hrow⟩ := Row.exists_untagged "type" "tool" ["tool", "named"] slots inside
      (by simp) (by simp [slots])
    show Undo.readInside inside (Form.record (Slots.written (Row.tagged "type" "tool" slots))).json = _
    unfold Undo.readInside
    simp only [htag, hrow, Option.bind_eq_bind, Option.bind_some, ↓reduceIte,
      h.required "service" rfl (Wire.faithful_string _), h.required "tool" rfl (Wire.faithful_string _),
      h.defaulted "arguments" rfl (Wire.faithful_json _)]
    rfl
  | named handler =>
    let slots : Slots := [("name", some (Wire.form handler))]
    obtain ⟨r, h, htag, hrow⟩ := Row.exists_untagged "type" "named" ["tool", "named"] slots inside
      (by simp) (by simp [slots])
    show Undo.readInside inside (Form.record (Slots.written (Row.tagged "type" "named" slots))).json = _
    unfold Undo.readInside
    simp only [htag, hrow, Option.bind_eq_bind, Option.bind_some,
      if_neg (show ¬"named" = "tool" by decide), h.required "name" rfl (Wire.faithful_string _)]
    rfl

theorem Undo.faithful (u : Undo) : Wire.Faithful u := u.readInside_form false

namespace Step

def slots (s : Step) : Slots :=
  [("name", some (Wire.form s.name)), ("service", some (Wire.form s.service)),
    ("tool", some (Wire.form s.tool)), ("arguments", some (Wire.form s.arguments)),
    ("required", some (Wire.form s.required)), ("compensation", s.undo.map Wire.form)]

theorem fields_eq (s : Step) : s.fields = s.slots.written := by
  unfold fields
  simp only [Slots.field_eq, Slots.fieldIfSome_eq, ← Slots.written_append]
  rfl

theorem ofRow_slots {s : Step} {r : Row Json} (h : r.Holds s.slots) (inside : Bool) :
    Step.ofRow inside r = some s := by
  have hundo : ∀ u ∈ s.undo, readNullable (Undo.readInside inside) (Wire.toJson u) = some (some u) := by
    intro u _
    refine Row.readNullable_of_present (u.readInside_form inside) ?_
    cases u <;> rfl
  unfold ofRow
  simp only [Option.bind_eq_bind, Option.bind_some, h.required "name" rfl (Wire.faithful_string _),
    h.required "service" rfl (Wire.faithful_string _), h.required "tool" rfl (Wire.faithful_string _),
    h.defaulted "arguments" rfl (Wire.faithful_json _), h.defaulted "required" rfl (Wire.faithful_bool _),
    h.optional "compensation" rfl hundo, Option.bind_fun_some]
  rfl

/-- a step is read back, also inside a tagged record -/
theorem readInside_form (inside : Bool) (s : Step) : Step.readInside inside (Wire.toJson s) = some s := by
  show Step.readInside inside (Form.record s.fields).json = some s
  rw [fields_eq]
  unfold readInside
  exact Row.read_written s.slots (by simp [slots]) fun r h => ofRow_slots h inside

theorem faithful (s : Step) : Wire.Faithful s := s.readInside_form false

end Step

/-! ## phases -/

theorem Phase.faithful (p : Phase) : Wire.Faithful p := by
  cases p with
  | parallel name steps =>
    let slots : Slots := [("name", some (Wire.form name)), ("steps", some (.list (steps.map Wire.form)))]
    obtain ⟨r, h, htag, hrow⟩ := Row.exists_untagged "kind" "parallel" ["parallel", "sequential"] slots
      false (by simp) (by simp [slots])
    have hsteps : r.required "steps" (readList (Step.readInside true)) = some steps := by
      rw [h.required_form "steps" rfl]
      exact Row.readList_self fun s _ => s.readInside_form true
    show Phase.read (Form.record (Slots.written (Row.tagged "kind" "parallel" slots))).json = _
    unfold Phase.read
    simp only [htag, hrow, Option.bind_eq_bind, Option.bind_some, ↓reduceIte,
      h.required "name" rfl (Wire.faithful_string _), hsteps]
    rfl
  | sequential step =>
    obtain ⟨r, h, htag, hrow⟩ := Row.exists_untagged "kind" "sequential" ["parallel", "sequential"]
      step.slots false (by simp) (by simp [Step.slots])
    have hform : (Phase.sequential step).form =
        .record (Slots.written (Row.tagged "kind" "sequential" step.slots)) := by
      show Form.record (Wire.field "kind" "sequential" ++ step.fields) = _
      rw [Step.fields_eq]
      rfl
    show Phase.read (Phase.sequential step).form.json = _
    rw [hform]
    unfold Phase.read
    simp only [htag, hrow, Option.bind_eq_bind, Option.bind_some,
      if_neg (show ¬"sequential" = "parallel" by decide), Step.ofRow_slots h true]
    rfl

theorem Schedule.faithful (s : Schedule) : Wire.Faithful s := by
  cases s <;> rfl

namespace Numbered

def slots (n : Numbered) : Slots :=
  [("name", some (Wire.form n.name)), ("index", some (Wire.form n.index)),
    ("total", some (Wire.form n.total)), ("kind", some (Wire.form n.schedule)),
    ("compensating_action", n.undo.map Wire.form)]

theorem form_eq (n : Numbered) : n.form = .record n.slots.written := by
  unfold form
  simp only [Slots.field_eq, Slots.fieldIfSome_eq, ← Slots.written_append]
  rfl

theorem faithful (n : Numbered) : Wire.Faithful n := by
  have hundo : ∀ u ∈ n.undo, Wire.Faithful u ∧ (Wire.toJson u).isNull = false :=
    fun u _ => ⟨u.faithful, by cases u <;> rfl⟩
  show Numbered.read n.form.json = some n
  rw [form_eq]
  unfold Numbered.read
  refine Row.read_written n.slots (by simp [slots]) fun r h => ?_
  simp only [Option.bind_eq_bind, Option.bind_some, h.required "name" rfl (Wire.faithful_string _),
    h.required "index" rfl (Wire.faithful_nat _), h.required "total" rfl (Wire.faithful_nat _),
    h.required "kind" rfl (Schedule.faithful _), h.optional_faithful "compensating_action" rfl hundo]
  rfl

end Numbered

end Plan

namespace Workflow

theorem Definition.faithful (d : Definition) : Wire.Faithful d := by
  let slots : Slots := [("operation", some (Wire.form d.operation)),
    ("description", some (Wire.form d.description)), ("phases", some (.list (d.phases.map Wire.form)))]
  show Definition.read (Form.record slots.written).json = some d
  unfold Definition.read
  refine Row.read_written slots (by simp [slots]) fun r h => ?_
  have hphases : r.required "phases" (readList Wire.read) = some d.phases := by
    rw [h.required_form "phases" rfl]
    exact Row.readList_self fun p _ => Plan.Phase.faithful p
  simp only [Option.bind_eq_bind, Option.bind_some, h.required "operation" rfl (Wire.faithful_string _),
    h.defaulted "description" rfl (Wire.faithful_string _), hphases]
  rfl

namespace Request

def slots (q : Request) : Slots :=
  [("operation", some (Wire.form q.operation)), ("input", some (Wire.form q.input)),
    ("plan", q.plan.map fun phases => .list (phases.map Wire.form))]

theorem form_eq (q : Request) : q.form = .record q.slots.written := by
  have hplan : planField q.plan =
      Slots.written [("plan", q.plan.map fun phases => .list (phases.map Wire.form))] := by
    cases q.plan <;> rfl
  unfold form
  simp only [Slots.field_eq, hplan, ← Slots.written_append]
  rfl

theorem faithful (q : Request) : Wire.Faithful q := by
  show Request.read q.form.json = some q
  rw [form_eq]
  unfold Request.read
  refine Row.read_written q.slots (by simp [slots]) fun r h => ?_
  have hplan : ∀ phases ∈ q.plan, readNullable (readList Wire.read)
      (Form.list (phases.map Wire.form)).json = some (some phases) := by
    intro phases _
    refine Row.readNullable_of_present (Row.readList_self fun p _ => Plan.Phase.faithful p) ?_
    unfold Form.json
    rfl
  simp only [Option.bind_eq_bind, Option.bind_some, h.required "operation" rfl (Wire.faithful_string _),
    h.defaulted "input" rfl (Wire.faithful_json _), h.optional "plan" rfl hplan, Option.bind_fun_some]
  rfl

end Request

end Workflow

end Relay
