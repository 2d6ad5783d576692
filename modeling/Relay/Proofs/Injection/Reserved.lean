import Relay.Proofs.Injection.Accepted

/-!
# Reserved places

A built-in injector puts what it knows of the context into places of its own: fields of the arguments, or
headers among them. What a caller has put there before it counts for nothing, except where the context
has nothing to put in its place.

* `Place`, `Place.read`   a place, and what is found there;
* `BuiltIn.filled`        the places of an injector, each with what the context has for it;
* `Place.IsOpen`          the places that are left to the caller, for want of a trace or a tenant.

`inject_reserved` compares two callers: in a place that is not open both results have what the context
says, in an open one each has what its caller put there. So a caller can pose as a tenant where there is
none (`inject_admits_posing`).
-/

namespace Relay.Injection

inductive Place
  | field (key : String)
  | header (key : String)
deriving DecidableEq

namespace Place

def read : Place → Json → Option Json
  | field key, arguments => arguments.field? key
  | header key, arguments => (arguments.field? "headers").bind (Json.field? key)

def IsOpen (c : Context) : Place → Prop
  | field key => key = "_trace" ∧ c.trace = none
  | header key => (key = "x-tenant-id" ∧ c.tenant = none) ∨ (key = "traceparent" ∧ c.trace = none)

end Place

namespace BuiltIn

def filled (c : Context) : BuiltIn → List (Place × Option Json)
  | standard => [(.field "_context", some (contextObject c))]
  | database _ =>
    [(.field "tenant_id", c.tenant.map .str), (.field "_trace", c.trace.map Wire.toJson)]
  | filesystem root _ =>
    [(.field "tenant_id", c.tenant.map .str),
      (.field "tenant_root", c.tenant.map fun tenant => .str (root.join tenant).lossyText)]
  | http _ =>
    [(.header "x-request-id", some (.str c.requestId)),
      (.header "x-tenant-id", c.tenant.map .str),
      (.header "traceparent", c.trace.map fun t => .str (traceparent t))]

/-! ## headers -/

section
variable (c : Context) (headers : Table Json)

theorem lookup_requestId :
    (putHeaders c headers).lookup "x-request-id" = some (.str c.requestId) := by
  unfold putHeaders
  rw [lookup_putSome_of_ne _ _ _ (by decide), lookup_putSome_of_ne _ _ _ (by decide),
    Table.lookup_put_self]

theorem lookup_tenantId : (putHeaders c headers).lookup "x-tenant-id" =
    (c.tenant.map Json.str).or (headers.lookup "x-tenant-id") := by
  unfold putHeaders
  rw [lookup_putSome_of_ne _ _ _ (by decide), lookup_putSome_self,
    Table.lookup_put_of_ne (by decide)]

theorem lookup_traceparent : (putHeaders c headers).lookup "traceparent" =
    (c.trace.map fun t => Json.str (traceparent t)).or (headers.lookup "traceparent") := by
  unfold putHeaders
  rw [lookup_putSome_self, lookup_putSome_of_ne _ _ _ (by decide),
    Table.lookup_put_of_ne (by decide)]

end

theorem read_header_put {fields headers : Table Json} (key : String) :
    (Place.header key).read (.obj (fields.put "headers" (.obj headers))) = headers.lookup key := by
  show ((fields.put "headers" (.obj headers)).lookup "headers").bind (Json.field? key) = _
  rw [Table.lookup_put_self]
  rfl

/-! ## what is found in a place -/

section
variable {b : BuiltIn} {c : Context} {arguments result : Json}

/-- **what the context has for a place, else what the caller has put there** -/
theorem read_inject (h : b.inject c arguments = .ok result) :
    ∀ x ∈ b.filled c, x.1.read result = x.2.or (x.1.read arguments) := by
  cases b with
  | standard =>
    obtain ⟨fields, _, rfl⟩ := (inject_standard_iff c arguments result).mp h
    intro x hx
    obtain rfl := List.mem_singleton.mp hx
    exact Table.lookup_put_self _ _ _
  | database tools =>
    obtain ⟨tenant, htenant, fields, hfields, rfl⟩ :=
      (inject_database_iff c arguments result tools).mp h
    rw [filled, htenant, List.forall_mem_cons, List.forall_mem_singleton]
    constructor
    · show List.lookup _ (putSome _ _ _) = _
      rw [lookup_putSome_of_ne _ _ _ (by decide), Table.lookup_put_self]
      rfl
    · show List.lookup _ (putSome _ _ _) = _
      rw [lookup_putSome_self, Table.lookup_put_of_ne (by decide), ← field?_eq_lookup hfields]
      rfl
  | filesystem root tools =>
    obtain ⟨tenant, htenant, _, fields, _, rfl⟩ :=
      (inject_filesystem_iff c arguments result root tools).mp h
    rw [filled, htenant, List.forall_mem_cons, List.forall_mem_singleton]
    constructor
    · show List.lookup _ (Table.put _ _ _) = _
      rw [Table.lookup_put_of_ne (by decide), Table.lookup_put_self]
      rfl
    · show List.lookup _ (Table.put _ _ _) = _
      rw [Table.lookup_put_self]
      rfl
  | http tools =>
    obtain ⟨fields, hfields, headers, hheaders, rfl⟩ :=
      (inject_http_iff c arguments result tools).mp h
    have hcaller : ∀ key, (Place.header key).read arguments = headers.lookup key := by
      intro key
      show (arguments.field? "headers").bind _ = _
      rw [field?_eq_lookup hfields, header_eq_lookup hheaders]
    rw [filled, List.forall_mem_cons, List.forall_mem_cons, List.forall_mem_singleton]
    simp only [read_header_put, hcaller]
    exact ⟨lookup_requestId c headers, lookup_tenantId c headers, lookup_traceparent c headers⟩

/-- the context has something for every place of an injector that is not open -/
theorem isOpen_iff (h : b.inject c arguments = .ok result) :
    ∀ x ∈ b.filled c, x.1.IsOpen c ↔ x.2 = none := by
  cases b with
  | standard => simp [filled, Place.IsOpen]
  | database tools =>
    obtain ⟨tenant, htenant, _⟩ := (inject_database_iff c arguments result tools).mp h
    simp [filled, Place.IsOpen, htenant]
  | filesystem root tools =>
    obtain ⟨tenant, htenant, _⟩ := (inject_filesystem_iff c arguments result root tools).mp h
    simp [filled, Place.IsOpen, htenant]
  | http tools => simp [filled, Place.IsOpen]

end

/-- **in a place that is not open two callers are told the same, in an open one what each says** -/
theorem inject_reserved {b : BuiltIn} {c : Context} {p₁ p₂ q₁ q₂ : Json}
    (h₁ : b.inject c p₁ = .ok q₁) (h₂ : b.inject c p₂ = .ok q₂) :
    ∀ x ∈ b.filled c,
      (¬x.1.IsOpen c → x.2.isSome ∧ x.1.read q₁ = x.2 ∧ x.1.read q₂ = x.2) ∧
      (x.1.IsOpen c → x.2 = none ∧ x.1.read q₁ = x.1.read p₁ ∧ x.1.read q₂ = x.1.read p₂) := by
  intro x hx
  have hread₁ := read_inject h₁ x hx
  have hread₂ := read_inject h₂ x hx
  rw [isOpen_iff h₁ x hx]
  cases hvalue : x.2 with
  | none =>
    rw [hvalue, Option.none_or] at hread₁ hread₂
    exact ⟨fun hclosed => absurd rfl hclosed, fun _ => ⟨rfl, hread₁, hread₂⟩⟩
  | some value =>
    rw [hvalue, Option.some_or] at hread₁ hread₂
    exact ⟨fun _ => ⟨rfl, hread₁, hread₂⟩, fun hopen => absurd hopen (Option.some_ne_none value)⟩

/-! ## posing as a tenant -/

namespace Posing

/-- a request of a tenant, or of nobody -/
def context (tenant : Option String) : Context := .ofHeader { requestId := "r", tenant } {}

/-- arguments that say of themselves whose they are -/
def arguments : Json := .obj [("headers", .obj [("x-tenant-id", .str "victim")])]

/-- what the service is told of a request of the tenant `acme` -/
def told : Json :=
  .obj [("headers", .obj [("x-request-id", .str "r"), ("x-tenant-id", .str "acme")])]

end Posing

theorem inject_reserved_posing :
    (http .any).inject (Posing.context (some "acme")) Posing.arguments = .ok Posing.told ∧
    (http .any).inject (Posing.context (some "acme")) .null = .ok Posing.told ∧
    ∀ x ∈ (http .any).filled (Posing.context (some "acme")),
      (¬x.1.IsOpen (Posing.context (some "acme")) →
        x.2.isSome ∧ x.1.read Posing.told = x.2 ∧ x.1.read Posing.told = x.2) ∧
      (x.1.IsOpen (Posing.context (some "acme")) → x.2 = none ∧
        x.1.read Posing.told = x.1.read Posing.arguments ∧
        x.1.read Posing.told = x.1.read .null) := by
  have hposing : (http .any).inject (Posing.context (some "acme")) Posing.arguments =
      .ok Posing.told := rfl
  have hnull : (http .any).inject (Posing.context (some "acme")) .null = .ok Posing.told := rfl
  exact ⟨hposing, hnull, inject_reserved hposing hnull⟩

/-- who is nobody's tenant may say whose request it is -/
theorem inject_admits_posing : ¬∀ (b : BuiltIn) (c : Context) (p₁ p₂ q₁ q₂ : Json),
    b.inject c p₁ = .ok q₁ → b.inject c p₂ = .ok q₂ →
      ∀ x ∈ b.filled c, x.1.read q₁ = x.1.read q₂ := by
  intro h
  have hsame := h (http .any) (Posing.context none) Posing.arguments .null
    (.obj [("headers", .obj [("x-request-id", .str "r"), ("x-tenant-id", .str "victim")])])
    (.obj [("headers", .obj [("x-request-id", .str "r")])]) rfl rfl
    (.header "x-tenant-id", none) (by decide)
  exact absurd hsame (by decide)

end BuiltIn

end Relay.Injection
