import Relay.Dispatch
import Relay.Proofs.Retry.Attempts

/-!
# What replies come to

A service replies to an attempt with a response or with a failure, and perhaps too late.

* `Response.Delivers`   the response is a result: it has no error object and is not marked as the
  failure of the tool;
* `Response.Refuses`    it tells of a fault instead;
* `Service.Ends`        how an attempt at the service ends, by what it replied and when.

Every response does the one or the other (`delivers_or_refuses`), and an attempt of a call ends as `Ends`
says and in no other way (`ends_iff`).
-/

namespace Relay

namespace Rpc.Response

/-- a response that is a result -/
structure Delivers (r : Response) (value : Json) : Prop where
  error : r.error = none
  result : r.result = some value
  unmarked : value.field? "isError" ≠ some (.bool true)

inductive Refuses (r : Response) (tool : String) : Fault → Prop
  | error (e : ErrorObject) (he : r.error = some e) : Refuses r tool e.fault
  | empty (he : r.error = none) (hr : r.result = none) :
    Refuses r tool (.protocolAdapter "response has neither result nor error")
  | marked (he : r.error = none) (value : Json) (hr : r.result = some value)
    (hm : value.field? "isError" = some (.bool true)) :
    Refuses r tool (.tool tool ((contentText? value).getD value.text))

theorem isMarkedError_iff (value : Json) :
    isMarkedError value = true ↔ value.field? "isError" = some (.bool true) := by
  unfold isMarkedError
  cases value.field? "isError" with
  | none => simp
  | some mark => cases mark <;> simp [Json.asBool?]

theorem output_of_delivers {r : Response} {value : Json} (h : r.Delivers value) (tool : String) :
    r.output tool = .ok value := by
  have hmark : ¬isMarkedError value = true := fun hm => h.unmarked ((isMarkedError_iff value).mp hm)
  unfold output
  simp only [h.error, h.result, hmark, Bool.false_eq_true, if_false]

theorem output_of_refuses {r : Response} {tool : String} {fault : Fault} (h : r.Refuses tool fault) :
    r.output tool = .error fault := by
  unfold output
  cases h with
  | error e he => simp only [he]
  | empty he hr => simp only [he, hr]
  | marked he value hr hm =>
    have hmark : isMarkedError value = true := (isMarkedError_iff value).mpr hm
    simp only [he, hr, hmark, if_true]

theorem delivers_or_refuses (r : Response) (tool : String) :
    (∃ value, r.Delivers value) ∨ ∃ fault, r.Refuses tool fault := by
  cases he : r.error with
  | some e => exact .inr ⟨_, .error e he⟩
  | none =>
    cases hr : r.result with
    | none => exact .inr ⟨_, .empty he hr⟩
    | some value =>
      by_cases hm : value.field? "isError" = some (.bool true)
      · exact .inr ⟨_, .marked he value hr hm⟩
      · exact .inl ⟨value, he, hr, hm⟩

end Rpc.Response

/-! ## attempts -/

namespace Service

section
variable (limit : Option UInt64) (name : String) (s : Service) (request : Rpc.Request) (n : Nat)

/-- the reply to an attempt does not come too late -/
def InTime : Prop := ∀ l ∈ limit, (s.answer request n).delayMs ≤ l.toNat

/-- how an attempt ends -/
inductive Ends : Except Fault Json → Prop
  | late (l : UInt64) (hl : limit = some l) (ht : l.toNat < (s.answer request n).delayMs) :
    Ends (.error (Retry.timeoutFault n l))
  | failed (ht : s.InTime limit request n) (failure : Rpc.Failure)
    (hr : (s.answer request n).outcome = .error failure) : Ends (.error (failure.fault s.transport name))
  | refused (ht : s.InTime limit request n) (response : Rpc.Response)
    (hr : (s.answer request n).outcome = .ok response) (fault : Fault)
    (hf : response.Refuses request.params.name fault) : Ends (.error fault)
  | delivered (ht : s.InTime limit request n) (response : Rpc.Response)
    (hr : (s.answer request n).outcome = .ok response) (value : Json) (hv : response.Delivers value) :
    Ends (.ok value)

/-- an attempt as it is made for a call -/
def ending : Except Fault Json :=
  Retry.ending limit (Dispatcher.attempt name request.params.name s request) n

variable {limit name s request n}

theorem ending_of_late {l : UInt64} (hl : limit = some l) (ht : l.toNat < (s.answer request n).delayMs) :
    s.ending limit name request n = .error (Retry.timeoutFault n l) := by
  subst hl
  unfold ending Retry.ending Retry.bounded
  have hlate : l.toNat < (Dispatcher.attempt name request.params.name s request n).durationMs := ht
  simp only [hlate, if_true]

theorem ending_of_inTime (ht : s.InTime limit request n) :
    s.ending limit name request n =
      match (s.answer request n).outcome with
      | .ok response => response.output request.params.name
      | .error failure => .error (failure.fault s.transport name) := by
  unfold ending Retry.ending Retry.bounded
  cases limit with
  | none => rfl
  | some l =>
    have hle : ¬l.toNat < (Dispatcher.attempt name request.params.name s request n).durationMs :=
      Nat.not_lt.mpr (ht l rfl)
    simp only [hle, if_false]
    rfl

theorem ends_ending (limit : Option UInt64) (name : String) (s : Service) (request : Rpc.Request)
    (n : Nat) : s.Ends limit name request n (s.ending limit name request n) := by
  by_cases ht : s.InTime limit request n
  · rw [ending_of_inTime ht]
    cases hr : (s.answer request n).outcome with
    | error failure => exact .failed ht failure hr
    | ok response =>
      show s.Ends limit name request n (response.output request.params.name)
      rcases response.delivers_or_refuses request.params.name with ⟨value, hv⟩ | ⟨fault, hf⟩
      · rw [Rpc.Response.output_of_delivers hv]
        exact .delivered ht response hr value hv
      · rw [Rpc.Response.output_of_refuses hf]
        exact .refused ht response hr fault hf
  · simp only [InTime, Classical.not_forall, Nat.not_le] at ht
    obtain ⟨l, hl, hlate⟩ := ht
    rw [ending_of_late hl hlate]
    exact .late l hl hlate

/-- **how an attempt of a call ends** -/
theorem ends_iff (o : Except Fault Json) :
    s.Ends limit name request n o ↔ o = s.ending limit name request n := by
  constructor
  · intro h
    cases h with
    | late l hl ht => exact (ending_of_late hl ht).symm
    | failed ht failure hr =>
      rw [ending_of_inTime ht, hr]
    | refused ht response hr fault hf =>
      rw [ending_of_inTime ht, hr]
      exact (Rpc.Response.output_of_refuses hf).symm
    | delivered ht response hr value hv =>
      rw [ending_of_inTime ht, hr]
      exact (Rpc.Response.output_of_delivers hv _).symm
  · intro h
    rw [h]
    exact ends_ending limit name s request n

theorem Ends.unique {o o' : Except Fault Json} (h : s.Ends limit name request n o)
    (h' : s.Ends limit name request n o') : o = o' :=
  ((ends_iff o).mp h).trans ((ends_iff o').mp h').symm

/-- only a response that is a result ends an attempt with a value -/
theorem Ends.delivers {value : Json} (h : s.Ends limit name request n (.ok value)) :
    ∃ response, (s.answer request n).outcome = .ok response ∧ response.Delivers value := by
  cases h with
  | delivered ht response hr value hv => exact ⟨response, hr, hv⟩

end

end Service

end Relay
