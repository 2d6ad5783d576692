import Relay.Proofs.Dispatch.Reply

/-!
# What becomes of a call

A call is refused before anything is sent, or its requests leave and the outcome of the last attempt is
turned into a result as the policy says.

* `CallRun.Refused`    a call that nothing was sent for, and no substitute asked for;
* `CallRun.Sent`       a call whose requests left: which request, how often, and how each attempt ended;
* `CallRun.Surfaces`   what the outcome of the last attempt becomes;
* `CallRun.Settles`    all of it, in the order in which a call is looked at.

`call_settles` is the whole of it, and `call_cases` what later modules take from here.
-/

namespace Relay

open Retry (limitOf)

namespace Dispatcher

def contextFor (d : Dispatcher) (header : Header) : Context := .ofHeader header d.defaultPolicy

/-- the arguments of a call after the injector of its service has added context to them -/
def injected (d : Dispatcher) (service : String) (header : Header) (call : Tool.Call) :
    Except Fault Json :=
  (d.board.resolve service call.tool).inject (d.contextFor header) call.tool call.arguments

/-- what the source of substitutes has for a tool, if there is a source -/
def substitute? (d : Dispatcher) (c : Context) (service tool : String) : Option Json :=
  d.fallback.bind fun source => source c service tool

end Dispatcher

/-! ## resolving -/

namespace Resolution

/-- a source is not asked only where its answer does not matter -/
theorem resolve_eq (source : Option FallbackSource) (c : Context) (service tool : String) (fault : Fault)
    (policy : Policy) :
    resolve source c service tool fault policy =
      decide fault policy (source.bind fun source => source c service tool) := by
  unfold resolve
  cases source with
  | none => rfl
  | some source =>
    unfold asksFallback decide
    cases hf : fault.failsFast <;> cases hm : policy.mode <;> rfl

theorem decide_unasked {fault : Fault} {policy : Policy} (h : asksFallback fault policy = false)
    (substitute : Option Json) : decide fault policy substitute = decide fault policy none := by
  unfold asksFallback at h
  unfold decide
  cases hfast : fault.failsFast with
  | true => rfl
  | false =>
    rw [hfast] at h
    cases hmode : policy.mode with
    | failFast | allowPartial => rfl
    | bestEffort =>
      rw [hmode] at h
      cases h

theorem asksFallback_iff (fault : Fault) (policy : Policy) :
    asksFallback fault policy = true ↔ policy.mode = .bestEffort ∧ fault.failsFast = false := by
  unfold asksFallback
  simp

end Resolution

/-! ## the three ways of a call -/

namespace CallRun

structure Refused (fault : Fault) (r : CallRun) : Prop where
  result : r.result = .error fault
  exchange : r.exchange = none
  askedFallback : r.askedFallback = false

/-- what the outcome `o` of the last attempt becomes -/
structure Surfaces (d : Dispatcher) (c : Context) (service tool : String) (header : Header)
    (o : Except Fault Json) (r : CallRun) : Prop where
  value : ∀ v, o = .ok v → r.result = .ok ⟨header, some ⟨tool, v, false⟩, none⟩
  fault : ∀ f, o = .error f →
    f.failsFast = true ∨ c.policy.mode = .failFast ∨
      c.policy.mode = .bestEffort ∧ d.substitute? c service tool = none →
    r.result = .error f
  partly : ∀ f, o = .error f → f.failsFast = false → c.policy.mode = .allowPartial →
    r.result = .ok ⟨header, none, some f.notice⟩
  substitute : ∀ f v, o = .error f → f.failsFast = false → c.policy.mode = .bestEffort →
    d.substitute? c service tool = some v →
    r.result = .ok ⟨header, some ⟨tool, v, true⟩, some f.notice⟩
  /-- the source of substitutes is asked only where its answer matters -/
  asked : r.askedFallback = true ↔
    d.fallback.isSome = true ∧ c.policy.mode = .bestEffort ∧ ∃ f, o = .error f ∧ f.failsFast = false

/-- a call of which the request `x.request` left for a service `k + 1` times -/
structure Sent (d : Dispatcher) (now : Timestamp) (service : String) (header : Header) (call : Tool.Call)
    (connection : Service) (arguments : Json) (x : Exchange) (k : Nat) (o : Except Fault Json)
    (r : CallRun) : Prop where
  exchange : r.exchange = some x
  service_eq : x.service = service
  request : x.request = .toolCall header.requestId call.tool arguments
  context : x.context = d.contextFor header
  attempts : x.starts.length = k + 1
  most : k ≤ (d.contextFor header).policy.retryCount.toNat
  /-- every attempt but the last ended in a fault that may be tried again -/
  again : ∀ i < k, ∃ f,
    connection.Ends (limitOf (d.contextFor header).policy) service x.request i (.error f) ∧
      f.isRetryable = true
  last : connection.Ends (limitOf (d.contextFor header).policy) service x.request k o
  /-- the last one could not be tried again, or no attempts were left -/
  enough : k = min (d.contextFor header).policy.retryCount.toNat 0xFFFFFFFE ∨
    ∀ f, o = .error f → f.isRetryable = false
  surfaces : ∃ elapsed,
    r.Surfaces d (d.contextFor header) service call.tool (header.respond now elapsed) o

/-- **what becomes of the call of an envelope**, in the order in which the call is looked at -/
structure Settles (d : Dispatcher) (now : Timestamp) (service : String) (request : Envelope Tool.Call)
    (r : CallRun) : Prop where
  empty : request.data = none → ∃ f : Fault, f.kind = .validation ∧ r.Refused f
  unknown : ∀ call, request.data = some call → d.services.lookup service = none →
    ∃ f : Fault, f.kind = .notFound ∧ r.Refused f
  uninjected : ∀ call connection f, request.data = some call →
    d.services.lookup service = some connection → d.injected service request.header call = .error f →
    r.Refused f
  sent : ∀ call connection arguments, request.data = some call →
    d.services.lookup service = some connection →
    d.injected service request.header call = .ok arguments →
    ∃ x k o, r.Sent d now service request.header call connection arguments x k o
  /-- what a source would have said does not matter where it was not asked -/
  unasked : d.fallback.isSome = true → r.askedFallback = false →
    ∀ source, ({ d with fallback := source } : Dispatcher).call now service request = r

end CallRun

/-! ## sending -/

namespace Dispatcher

section
variable {d : Dispatcher} {c : Context} {service tool : String} {header : Header} {r : CallRun}

theorem surfaces_answered {v : Json} (hr : r.result = .ok (answered header tool v))
    (ha : r.askedFallback = false) : r.Surfaces d c service tool header (.ok v) := by
  constructor
  case value =>
    intro v' hv
    cases hv
    exact hr
  case fault | partly => exact fun f hf => by cases hf
  case substitute => exact fun f v' hf => by cases hf
  case asked =>
    rw [ha]
    constructor
    · exact fun h => by cases h
    · rintro ⟨_, _, f, hf, _⟩
      cases hf

theorem surfaces_resolved {f : Fault}
    (hr : r.result = resolved header tool (.decide f c.policy (d.substitute? c service tool)))
    (ha : r.askedFallback = (d.fallback.isSome && Resolution.asksFallback f c.policy)) :
    r.Surfaces d c service tool header (.error f) := by
  unfold Resolution.decide at hr
  constructor
  case value => exact fun v hv => by cases hv
  case fault =>
    intro f' hf' hcond
    cases hf'
    rw [hr]
    cases hfast : f.failsFast with
    | true => rfl
    | false =>
      rcases hcond with h | h | ⟨h, hs⟩
      · cases hfast.symm.trans h
      · rw [h]
        rfl
      · rw [h, hs]
        rfl
  case partly =>
    intro f' hf' hfast hmode
    cases hf'
    rw [hr, hfast, hmode]
    rfl
  case substitute =>
    intro f' v hf' hfast hmode hs
    cases hf'
    rw [hr, hfast, hmode, hs]
    rfl
  case asked =>
    rw [ha, Bool.and_eq_true, Resolution.asksFallback_iff]
    constructor
    · exact fun h => ⟨h.1, h.2.1, f, rfl, h.2.2⟩
    · rintro ⟨hsome, hmode, f', hf', hfast⟩
      cases hf'
      exact ⟨hsome, hmode, hfast⟩

end

section
variable (d : Dispatcher) (now : Timestamp) (c : Context) (service : String) (header : Header)
  (call : Tool.Call) (connection : Service) (rpc : Rpc.Request)

/-- the attempts of a call -/
def attempts : Retry.Run Json :=
  Retry.run (Retry.Budget.ofPolicy d.settings c.policy) d.fractions
    (attempt service call.tool connection rpc)

theorem send_of_ok {v : Json} (ho : (d.attempts c service call connection rpc).outcome = .ok v) :
    d.send now c service header call connection rpc =
      { result := .ok (answered (header.respond now
          (UInt64.ofNat (d.attempts c service call connection rpc).elapsedMs)) call.tool v)
        exchange := some ⟨service, rpc, c, (d.attempts c service call connection rpc).starts⟩
        elapsedMs := (d.attempts c service call connection rpc).elapsedMs } := by
  unfold attempts at ho ⊢
  unfold send
  simp only [ho]

theorem send_of_error {f : Fault}
    (ho : (d.attempts c service call connection rpc).outcome = .error f) :
    d.send now c service header call connection rpc =
      { result := resolved (header.respond now
          (UInt64.ofNat (d.attempts c service call connection rpc).elapsedMs)) call.tool
          (.decide f c.policy (d.substitute? c service call.tool))
        exchange := some ⟨service, rpc, c, (d.attempts c service call connection rpc).starts⟩
        askedFallback := d.fallback.isSome && Resolution.asksFallback f c.policy
        elapsedMs := (d.attempts c service call connection rpc).elapsedMs } := by
  unfold attempts at ho ⊢
  unfold send
  simp only [ho, Resolution.resolve_eq]
  rfl

theorem exchange_send : (d.send now c service header call connection rpc).exchange =
    some ⟨service, rpc, c, (d.attempts c service call connection rpc).starts⟩ := by
  cases ho : (d.attempts c service call connection rpc).outcome with
  | ok v => rw [send_of_ok d now c service header call connection rpc ho]
  | error f => rw [send_of_error d now c service header call connection rpc ho]

theorem surfaces_send : ∃ elapsed,
    (d.send now c service header call connection rpc).Surfaces d c service call.tool
      (header.respond now elapsed) (d.attempts c service call connection rpc).outcome := by
  refine ⟨UInt64.ofNat (d.attempts c service call connection rpc).elapsedMs, ?_⟩
  cases ho : (d.attempts c service call connection rpc).outcome with
  | ok v =>
    rw [send_of_ok d now c service header call connection rpc ho]
    exact surfaces_answered rfl rfl
  | error f =>
    rw [send_of_error d now c service header call connection rpc ho]
    exact surfaces_resolved rfl rfl

/-- a source that is not asked might as well be another -/
theorem send_fallback (h : ∀ f, (d.attempts c service call connection rpc).outcome = .error f →
      Resolution.asksFallback f c.policy = false) (source : Option FallbackSource) :
    ({ d with fallback := source } : Dispatcher).send now c service header call connection rpc =
      d.send now c service header call connection rpc := by
  have hattempts : ({ d with fallback := source } : Dispatcher).attempts c service call connection rpc =
      d.attempts c service call connection rpc := rfl
  cases ho : (d.attempts c service call connection rpc).outcome with
  | ok v =>
    rw [send_of_ok d now c service header call connection rpc ho,
      send_of_ok _ now c service header call connection rpc (hattempts.symm ▸ ho), hattempts]
  | error f =>
    rw [send_of_error d now c service header call connection rpc ho,
      send_of_error _ now c service header call connection rpc (hattempts.symm ▸ ho), hattempts,
      h f ho, Resolution.decide_unasked (h f ho) (d.substitute? c service call.tool),
      Resolution.decide_unasked (h f ho), Bool.and_false, Bool.and_false]

end

/-! ## calling -/

section
variable {d : Dispatcher} {now : Timestamp} {service : String} {request : Envelope Tool.Call}
  {call : Tool.Call} {connection : Service}

theorem prepare_of_empty (h : request.data = none) :
    d.prepare (d.contextFor request.header) service request = .error (emptyFault request.header) := by
  unfold prepare
  rw [h]
  rfl

theorem prepare_of_unknown (h : request.data = some call) (hs : d.services.lookup service = none) :
    d.prepare (d.contextFor request.header) service request = .error (Service.unknownFault service) := by
  unfold prepare Service.connect
  rw [h, hs]
  rfl

theorem prepare_of_injected (h : request.data = some call)
    (hs : d.services.lookup service = some connection) :
    d.prepare (d.contextFor request.header) service request =
      (d.injected service request.header call).map fun arguments =>
        (call, connection, .toolCall request.header.requestId call.tool arguments) := by
  unfold prepare Service.connect injected
  rw [h, hs]
  cases hi : (d.board.resolve service call.tool).inject (d.contextFor request.header) call.tool
    call.arguments with
  | error f =>
    simp only [hi, bind, Except.bind]
    rfl
  | ok arguments =>
    simp only [hi, bind, Except.bind]
    rfl

theorem prepare_of_uninjected {f : Fault} (h : request.data = some call)
    (hs : d.services.lookup service = some connection)
    (hi : d.injected service request.header call = .error f) :
    d.prepare (d.contextFor request.header) service request = .error f := by
  rw [prepare_of_injected h hs, hi]
  rfl

theorem call_of_unprepared {f : Fault}
    (h : d.prepare (d.contextFor request.header) service request = .error f) :
    d.call now service request = { result := .error f } := by
  unfold contextFor at h
  unfold Dispatcher.call
  simp only [h]

theorem call_of_prepared {rpc : Rpc.Request}
    (h : d.prepare (d.contextFor request.header) service request = .ok (call, connection, rpc)) :
    d.call now service request =
      d.send now (d.contextFor request.header) service request.header call connection rpc := by
  unfold contextFor at h
  unfold Dispatcher.call
  simp only [h]
  rfl

theorem refused_call {f : Fault}
    (h : d.prepare (d.contextFor request.header) service request = .error f) :
    (d.call now service request).Refused f := by
  rw [call_of_unprepared h]
  exact ⟨rfl, rfl, rfl⟩

theorem prepare_of_arguments {arguments : Json} (h : request.data = some call)
    (hs : d.services.lookup service = some connection)
    (hi : d.injected service request.header call = .ok arguments) :
    d.prepare (d.contextFor request.header) service request =
      .ok (call, connection, .toolCall request.header.requestId call.tool arguments) := by
  rw [prepare_of_injected h hs, hi]
  rfl

theorem sent_call {arguments : Json} (h : request.data = some call)
    (hs : d.services.lookup service = some connection)
    (hi : d.injected service request.header call = .ok arguments) :
    ∃ x k o, (d.call now service request).Sent d now service request.header call connection arguments
      x k o := by
  rw [call_of_prepared (prepare_of_arguments h hs hi)]
  -- the attempts of the run are counted from 0, as those of the service are
  obtain ⟨k, hmost, hk⟩ := Retry.run_repeats
    (attempt service call.tool connection (.toolCall request.header.requestId call.tool arguments))
    d.settings (d.contextFor request.header).policy d.fractions
  refine ⟨_, k, _, exchange_send .., rfl, rfl, rfl, hk.attempts, hmost, ?_, ?_, ?_, surfaces_send ..⟩
  · intro i hi
    obtain ⟨f, hf, hr⟩ := hk.again i hi
    rw [Nat.zero_add] at hf
    exact ⟨f, (Service.ends_iff _).mpr hf.symm, hr⟩
  · rw [Service.ends_iff]
    have ho := hk.outcome
    rw [Nat.zero_add] at ho
    exact ho
  · refine hk.enough.imp_right fun hstop f hf => ?_
    exact Bool.eq_false_iff.mpr fun hr => hstop ⟨f, hf, hr⟩

theorem asked_send {c : Context} {header : Header} {rpc : Rpc.Request} {f : Fault}
    (ho : (d.attempts c service call connection rpc).outcome = .error f) :
    (d.send now c service header call connection rpc).askedFallback =
      (d.fallback.isSome && Resolution.asksFallback f c.policy) := by
  rw [send_of_error d now c service header call connection rpc ho]

/-- **a call is refused, or its requests leave** -/
theorem call_cases (d : Dispatcher) (now : Timestamp) (service : String) (request : Envelope Tool.Call) :
    (∃ f, (d.call now service request).Refused f) ∨
      ∃ call connection arguments x k o, request.data = some call ∧
        d.services.lookup service = some connection ∧
        (d.call now service request).Sent d now service request.header call connection arguments x k o := by
  cases hd : request.data with
  | none => exact .inl ⟨_, refused_call (prepare_of_empty hd)⟩
  | some call =>
    cases hs : d.services.lookup service with
    | none => exact .inl ⟨_, refused_call (prepare_of_unknown hd hs)⟩
    | some connection =>
      cases hi : d.injected service request.header call with
      | error f => exact .inl ⟨f, refused_call (prepare_of_uninjected hd hs hi)⟩
      | ok arguments =>
        have hsent : ∃ x k o, (d.call now service request).Sent d now service request.header call
            connection arguments x k o := sent_call hd hs hi
        obtain ⟨x, k, o, hsent⟩ := hsent
        exact .inr ⟨call, connection, arguments, x, k, o, rfl, rfl, hsent⟩

theorem call_fallback (h : ∀ call connection rpc f,
      d.prepare (d.contextFor request.header) service request = .ok (call, connection, rpc) →
      (d.attempts (d.contextFor request.header) service call connection rpc).outcome = .error f →
      Resolution.asksFallback f (d.contextFor request.header).policy = false)
    (source : Option FallbackSource) :
    ({ d with fallback := source } : Dispatcher).call now service request =
      d.call now service request := by
  have hprepare : ({ d with fallback := source } : Dispatcher).prepare (d.contextFor request.header)
      service request = d.prepare (d.contextFor request.header) service request := rfl
  have hcontext : ({ d with fallback := source } : Dispatcher).contextFor request.header =
      d.contextFor request.header := rfl
  cases hp : d.prepare (d.contextFor request.header) service request with
  | error f => rw [call_of_unprepared hp, call_of_unprepared (hprepare.trans hp)]
  | ok prepared =>
    obtain ⟨call, connection, rpc⟩ := prepared
    rw [call_of_prepared hp, call_of_prepared (hprepare.trans hp), hcontext]
    exact send_fallback d now _ service request.header call connection rpc
      (fun f hf => h call connection rpc f hp hf) source

/-- a source that was not asked might as well be another -/
theorem call_unasked (hd : d.fallback.isSome = true)
    (ha : (d.call now service request).askedFallback = false) (source : Option FallbackSource) :
    ({ d with fallback := source } : Dispatcher).call now service request =
      d.call now service request := by
  refine call_fallback (fun call connection rpc f hp hf => ?_) source
  rw [call_of_prepared hp, asked_send hf, hd, Bool.true_and] at ha
  exact ha

/-- in a call that may only fail no source is asked -/
theorem call_failFast (h : (d.contextFor request.header).policy.mode = .failFast) :
    (d.call now service request).askedFallback = false ∧
      ∀ source, ({ d with fallback := source } : Dispatcher).call now service request =
        d.call now service request := by
  have hasks (f : Fault) : Resolution.asksFallback f (d.contextFor request.header).policy = false := by
    refine Bool.eq_false_iff.mpr fun ha => ?_
    cases h.symm.trans ((Resolution.asksFallback_iff _ _).mp ha).1
  refine ⟨?_, call_fallback fun _ _ _ f _ _ => hasks f⟩
  rcases call_cases d now service request with ⟨f, hr⟩ | ⟨_, _, _, _, _, _, _, _, hsent⟩
  · exact hr.askedFallback
  · obtain ⟨_, hs⟩ := hsent.surfaces
    refine Bool.eq_false_iff.mpr fun ha => ?_
    cases h.symm.trans (hs.asked.mp ha).2.1

end

/-- **a call fails before anything is sent, or the last of its attempts decides** -/
theorem call_settles (d : Dispatcher) (now : Timestamp) (service : String) (request : Envelope Tool.Call) :
    (d.call now service request).Settles d now service request := by
  constructor
  case empty => exact fun hd => ⟨_, rfl, refused_call (prepare_of_empty hd)⟩
  case unknown => exact fun call hd hs => ⟨_, rfl, refused_call (prepare_of_unknown hd hs)⟩
  case uninjected =>
    exact fun call connection f hd hs hi => refused_call (prepare_of_uninjected hd hs hi)
  case sent => exact fun call connection arguments hd hs hi => sent_call hd hs hi
  case unasked => exact fun hd ha source => call_unasked hd ha source

end Dispatcher

end Relay
