import Relay.Fault

/-!
# Faults that cross to another process

A fault is sent as its notice, and the peer makes a fault of the notice again. `Fault.received` is what
comes of the fault.

* `Fault.core`      the fault under a code, else the fault itself;
* `Fault.IsBare`    a kind and a message say all of the fault;
* `Fault.Keeps`     one fault means what another one does: nothing that is decided by a fault tells them
                    apart.

`received_keeps` says that the meaning is kept, and which faults come back as they were: a notice has room
for one code, and for a message but not for the name of a tool.
-/

namespace Relay

namespace Fault

/-- the fault that a peer makes of the notice -/
def received (f : Fault) : Fault := f.notice.fault

/-- the fault without its code; a code under that one stays -/
def core : Fault → Fault
  | coded _ inner => inner
  | f => f

/-- neither under a code nor without context, and not the failure of a tool that has a name -/
structure IsBare (f : Fault) : Prop where
  uncoded : ∀ code inner, f ≠ coded code inner
  inContext : f ≠ missingContext
  nameless : ∀ name reason, f = tool name reason → name = ""

structure Keeps (f g : Fault) : Prop where
  kind : g.kind = f.kind
  code : g.code? = f.code?
  detail : g.detail = f.detail
  isRetryable : g.isRetryable = f.isRetryable
  failsFast : g.failsFast = f.failsFast
  notice : g.notice = f.notice

/-! ## faults of a kind and a message -/

section
variable (kind : Kind) (message : String)

theorem code?_ofKind : (ofKind kind message).code? = none := by
  unfold ofKind
  split
  · rfl
  · rfl

theorem withCode_ofKind (code : Int64) :
    (ofKind kind message).withCode code = coded code (ofKind kind message) := by
  unfold ofKind
  split
  · rfl
  · rfl

theorem isBare_ofKind : IsBare (ofKind kind message) := by
  unfold ofKind
  split
  · refine ⟨fun code inner h => ?_, fun h => ?_, fun name reason h => ?_⟩
    · cases h
    · cases h
    · exact (Fault.tool.inj h).1.symm
  · refine ⟨fun code inner h => ?_, fun h => ?_, fun name reason h => ?_⟩
    · cases h
    · cases h
    · cases h

end

theorem ofKind_eq_iff (f : Fault) : ofKind f.kind f.detail = f ↔ f.IsBare := by
  constructor
  · intro h
    rw [← h]
    exact isBare_ofKind f.kind f.detail
  · intro h
    cases f with
    | plain kind message notTool => exact dif_neg notTool
    | tool name reason =>
      obtain rfl : name = "" := h.nameless name reason rfl
      rfl
    | missingContext => exact absurd rfl h.inContext
    | coded code inner => exact absurd rfl (h.uncoded code inner)

end Fault

/-- a fault of a notice has a notice of the same kind, message and code -/
theorem Notice.notice_fault (n : Notice) :
    n.fault.notice = { n with retryable := n.kind.isRetryable, details := none } := by
  obtain ⟨kind, message, retryable, code, details⟩ := n
  let bare := Fault.ofKind kind message
  have hkind : bare.kind = kind := Fault.kind_ofKind kind message
  have hdetail : bare.detail = message := Fault.detail_ofKind kind message
  cases code with
  | none =>
    show bare.notice = _
    rw [Fault.notice, Fault.isRetryable, hkind, hdetail, Fault.code?_ofKind]
  | some code =>
    show (bare.withCode code).notice = _
    rw [Fault.notice, Fault.isRetryable, Fault.kind_withCode, Fault.detail_withCode,
      Fault.code?_withCode, hkind, hdetail]

namespace Fault

theorem notice_received (f : Fault) : f.received.notice = f.notice := Notice.notice_fault f.notice

theorem keeps_of_notice {f g : Fault} (h : g.notice = f.notice) : Keeps f g := by
  have hkind : g.kind = f.kind := congrArg Notice.kind h
  refine ⟨hkind, congrArg Notice.code h, congrArg Notice.message h, congrArg Kind.isRetryable hkind,
    congrArg Kind.failsFast hkind, h⟩

theorem received_coded (code : Int64) (inner : Fault) :
    (coded code inner).received = coded code (ofKind inner.kind inner.detail) :=
  withCode_ofKind inner.kind inner.detail code

/-- only what lies under a code has to be made up again -/
theorem received_eq_iff (f : Fault) : f.received = f ↔ f.core.IsBare := by
  cases f with
  | plain kind message notTool => exact ofKind_eq_iff (plain kind message notTool)
  | tool name reason => exact ofKind_eq_iff (tool name reason)
  | missingContext => exact ofKind_eq_iff missingContext
  | coded code inner =>
    rw [received_coded, coded.injEq]
    show _ ↔ inner.IsBare
    rw [← ofKind_eq_iff inner]
    exact and_iff_right rfl

/-- **a fault keeps its meaning when it is received**, and a fault that was made of a notice is announced
by it but for what faults do not have -/
theorem received_keeps :
    (∀ f : Fault, Keeps f f.received ∧ (f.received = f ↔ f.core.IsBare)) ∧
      ∀ n : Notice, n.fault.notice = { n with retryable := n.kind.isRetryable, details := none } := by
  refine ⟨fun f => ⟨?_, f.received_eq_iff⟩, fun n => n.notice_fault⟩
  exact keeps_of_notice f.notice_received

end Fault

end Relay
