import Relay.Proofs.Injection.Tenant

/-!
# What an injector changes

A built-in injector makes a round of bindings (`putAll`) in the fields of the arguments, or in the headers
among them. A round leaves all other keys alone, and when it is made again it changes nothing: different
keys may be bound in either order, and of two bindings of one key the later counts.

* `reserved`, `reservedHeaders`   the keys that an injector binds;
* `inject_idempotent`             what an injector has put out it lets through as it is;
* `Refuses`                       why an injector turns arguments down;
* `inject_frames`                 all fields and headers but the reserved ones stay, and nothing but what `Refuses`
  lists makes an injector fail.
-/

namespace Relay.Injection

/-! ## rounds of bindings -/

theorem putSome_putSome_self (key : String) (value : Option Json) (t : Table Json) :
    putSome key value (putSome key value t) = putSome key value t := by
  cases value with
  | none => rfl
  | some v => exact Table.put_put_self key v v t

theorem putSome_comm {k j : String} (h : k ≠ j) (v w : Option Json) (t : Table Json) :
    putSome k v (putSome j w t) = putSome j w (putSome k v t) := by
  cases v with
  | none => rfl
  | some v =>
    cases w with
    | none => rfl
    | some w => exact Table.put_comm h v w t

/-- makes bindings one after the other, each if there is a value for it -/
def putAll (bs : List (String × Option Json)) (t : Table Json) : Table Json :=
  bs.foldl (fun t b => putSome b.1 b.2 t) t

theorem putAll_cons (b : String × Option Json) (bs : List (String × Option Json)) (t : Table Json) :
    putAll (b :: bs) t = putAll bs (putSome b.1 b.2 t) := rfl

theorem lookup_putAll_of_not_mem {bs : List (String × Option Json)} {key : String}
    (h : key ∉ bs.map Prod.fst) (t : Table Json) : (putAll bs t).lookup key = t.lookup key := by
  induction bs generalizing t with
  | nil => rfl
  | cons b bs ih =>
    rw [List.map_cons, List.mem_cons, not_or] at h
    rw [putAll_cons, ih h.2, lookup_putSome_of_ne _ _ _ h.1]

theorem putSome_putAll {bs : List (String × Option Json)} {key : String}
    (h : key ∉ bs.map Prod.fst) (value : Option Json) (t : Table Json) :
    putSome key value (putAll bs t) = putAll bs (putSome key value t) := by
  induction bs generalizing t with
  | nil => rfl
  | cons b bs ih =>
    rw [List.map_cons, List.mem_cons, not_or] at h
    rw [putAll_cons, ih h.2, putSome_comm h.1, putAll_cons]

/-- **a round of bindings made again** -/
theorem putAll_putAll {bs : List (String × Option Json)} (h : (bs.map Prod.fst).Nodup)
    (t : Table Json) : putAll bs (putAll bs t) = putAll bs t := by
  induction bs generalizing t with
  | nil => rfl
  | cons b bs ih =>
    obtain ⟨hb, hbs⟩ := List.nodup_cons.mp h
    -- the first binding is moved over the others to the one that it repeats
    rw [putAll_cons, putAll_cons, putSome_putAll hb, putSome_putSome_self, ih hbs]

/-! ## the rounds of the injectors -/

namespace BuiltIn

/-- the fields that an injector binds -/
def reserved : BuiltIn → List String
  | standard => ["_context"]
  | database _ => ["tenant_id", "_trace"]
  | filesystem _ _ => ["tenant_id", "tenant_root"]
  | http _ => ["headers"]

/-- the headers that `http` binds -/
def reservedHeaders : List String := ["x-request-id", "x-tenant-id", "traceparent"]

section
variable (c : Context) (tenant : String) (root : RawPath)

def databaseRound : List (String × Option Json) :=
  [("tenant_id", some (.str tenant)), ("_trace", c.trace.map Wire.toJson)]

def filesystemRound : List (String × Option Json) :=
  [("tenant_id", some (.str tenant)), ("tenant_root", some (.str (root.join tenant).lossyText))]

def headersRound : List (String × Option Json) :=
  [("x-request-id", some (.str c.requestId)), ("x-tenant-id", c.tenant.map .str),
    ("traceparent", c.trace.map fun t => .str (traceparent t))]

theorem keys_databaseRound (tools : ToolSet) :
    (databaseRound c tenant).map Prod.fst = (database tools).reserved := rfl

theorem keys_filesystemRound (tools : ToolSet) :
    (filesystemRound tenant root).map Prod.fst = (filesystem root tools).reserved := rfl

theorem keys_headersRound : (headersRound c).map Prod.fst = reservedHeaders := rfl

theorem putHeaders_eq (headers : Table Json) : putHeaders c headers = putAll (headersRound c) headers :=
  rfl

end

theorem injector_inject (b : BuiltIn) (c : Context) (tool : String) (p : Json) :
    b.injector.inject c tool p = b.inject c p := rfl

theorem nodup_reserved (b : BuiltIn) : b.reserved.Nodup := by
  cases b <;> simp [reserved]

theorem putHeaders_putHeaders (c : Context) (headers : Table Json) :
    putHeaders c (putHeaders c headers) = putHeaders c headers := by
  have hkeys : ((headersRound c).map Prod.fst).Nodup := by
    rw [keys_headersRound]
    decide
  rw [putHeaders_eq, putHeaders_eq, putAll_putAll hkeys]

/-- **what an injector has put out it lets through as it is** -/
theorem inject_idempotent {b : BuiltIn} {c : Context} {tool : String} {p q : Json}
    (h : b.injector.inject c tool p = .ok q) : b.injector.inject c tool q = .ok q := by
  have hkeys := b.nodup_reserved
  cases b with
  | standard =>
    obtain ⟨fields, _, rfl⟩ := (inject_standard_iff c p q).mp h
    refine (inject_standard_iff c _ _).mpr ⟨_, rfl, ?_⟩
    rw [Table.put_put_self]
  | database tools =>
    obtain ⟨tenant, htenant, fields, _, rfl⟩ := (inject_database_iff c p q tools).mp h
    refine (inject_database_iff c _ _ tools).mpr ⟨tenant, htenant, _, rfl, congrArg Json.obj ?_⟩
    rw [← keys_databaseRound c tenant] at hkeys
    exact putAll_putAll hkeys fields
  | filesystem root tools =>
    obtain ⟨tenant, htenant, hname, fields, _, rfl⟩ := (inject_filesystem_iff c p q root tools).mp h
    refine (inject_filesystem_iff c _ _ root tools).mpr
      ⟨tenant, htenant, hname, _, rfl, congrArg Json.obj ?_⟩
    rw [← keys_filesystemRound tenant root] at hkeys
    exact putAll_putAll hkeys fields
  | http tools =>
    obtain ⟨fields, _, headers, _, rfl⟩ := (inject_http_iff c p q tools).mp h
    refine (inject_http_iff c _ _ tools).mpr ⟨_, rfl, putHeaders c headers, ?_, ?_⟩
    · rw [Table.lookup_put_self]
      rfl
    · rw [putHeaders_putHeaders, Table.put_put_self]

namespace Spoofing

/-- a request of the tenant `acme` -/
def context : Context :=
  .ofHeader { requestId := "r", tenant := some "acme", tracing := some ⟨"t", "s", none⟩ } {}

/-- arguments that have one header of their own, and one that is not theirs to set -/
def arguments : Json :=
  .obj [("headers", .obj [("accept", .str "json"), ("x-tenant-id", .null)]), ("path", .str "a.txt")]

def sent : Json :=
  .obj [("headers", .obj [("accept", .str "json"), ("traceparent", .str "00-t-s-01"),
    ("x-request-id", .str "r"), ("x-tenant-id", .str "acme")]), ("path", .str "a.txt")]

end Spoofing

theorem inject_idempotent_spoofed :
    (http .any).injector.inject Spoofing.context "get" Spoofing.arguments = .ok Spoofing.sent ∧
      (http .any).injector.inject Spoofing.context "get" Spoofing.sent = .ok Spoofing.sent := by
  have honce : (http .any).injector.inject Spoofing.context "get" Spoofing.arguments =
      .ok Spoofing.sent := rfl
  exact ⟨honce, inject_idempotent honce⟩

/-! ## what stays, and what is refused -/

/-- an object, or null in place of one -/
def IsRecord : Json → Prop
  | .obj _ | .null => True
  | _ => False

theorem argumentFields_iff (v : Json) : (∃ fields, argumentFields v = .ok fields) ↔ IsRecord v := by
  unfold argumentFields
  cases v <;> simp [IsRecord]

theorem headerFields_iff (value : Option Json) :
    (∃ headers, headerFields value = .ok headers) ↔ ∀ v, value = some v → IsRecord v := by
  cases value with
  | none => simp [headerFields]
  | some v => cases v <;> simp [headerFields, IsRecord]

/-- whether an injector does nothing without a tenant -/
def needsTenant : BuiltIn → Bool
  | standard | http _ => false
  | database _ | filesystem _ _ => true

/-- why an injector turns arguments down -/
inductive Refuses (c : Context) (p : Json) : BuiltIn → Prop
  | arguments (b : BuiltIn) (h : ¬IsRecord p) : Refuses c p b
  | headers (tools : ToolSet) (v : Json) (hv : p.field? "headers" = some v) (h : ¬IsRecord v) :
    Refuses c p (http tools)
  | noTenant (b : BuiltIn) (hb : b.needsTenant = true) (h : c.tenant = none) : Refuses c p b
  | badTenant (root : RawPath) (tools : ToolSet) (tenant : String) (ht : c.tenant = some tenant)
    (h : ∀ name, Path.components tenant ≠ [.normal name]) : Refuses c p (filesystem root tools)

/-- what an injector leaves as it is -/
structure Leaves (b : BuiltIn) (p q : Json) : Prop where
  object : ∃ fields, q = .obj fields
  /-- every other field, and none comes in -/
  fields : ∀ key ∉ b.reserved, q.field? key = p.field? key
  /-- of the headers too -/
  headers : ∀ tools, b = http tools → ∃ headers, q.field? "headers" = some (.obj headers) ∧
    ∀ key ∉ reservedHeaders, headers.lookup key = (p.field? "headers").bind (Json.field? key)

section
variable {b : BuiltIn} {c : Context} {tool : String} {p q : Json}

theorem leaves_of_inject (h : b.injector.inject c tool p = .ok q) : b.Leaves p q := by
  cases b with
  | standard =>
    obtain ⟨fields, hfields, rfl⟩ := (inject_standard_iff c p q).mp h
    refine ⟨⟨_, rfl⟩, fun key hkey => ?_, fun tools hb => by cases hb⟩
    rw [field?_eq_lookup hfields]
    exact Table.lookup_put_of_ne (List.ne_of_not_mem_cons hkey) _ _
  | database tools =>
    obtain ⟨tenant, _, fields, hfields, rfl⟩ := (inject_database_iff c p q tools).mp h
    refine ⟨⟨_, rfl⟩, fun key hkey => ?_, fun tools hb => by cases hb⟩
    rw [field?_eq_lookup hfields]
    rw [← keys_databaseRound c tenant] at hkey
    exact lookup_putAll_of_not_mem hkey fields
  | filesystem root tools =>
    obtain ⟨tenant, _, _, fields, hfields, rfl⟩ := (inject_filesystem_iff c p q root tools).mp h
    refine ⟨⟨_, rfl⟩, fun key hkey => ?_, fun tools hb => by cases hb⟩
    rw [field?_eq_lookup hfields]
    rw [← keys_filesystemRound tenant root] at hkey
    exact lookup_putAll_of_not_mem hkey fields
  | http tools =>
    obtain ⟨fields, hfields, headers, hheaders, rfl⟩ := (inject_http_iff c p q tools).mp h
    refine ⟨⟨_, rfl⟩, fun key hkey => ?_, fun tools hb => ?_⟩
    · rw [field?_eq_lookup hfields]
      exact Table.lookup_put_of_ne (List.ne_of_not_mem_cons hkey) _ _
    · refine ⟨putHeaders c headers, Table.lookup_put_self _ _ _, fun key hkey => ?_⟩
      rw [field?_eq_lookup hfields, header_eq_lookup hheaders]
      rw [← keys_headersRound c] at hkey
      exact lookup_putAll_of_not_mem hkey headers

theorem exists_fields_of_inject (h : b.injector.inject c tool p = .ok q) :
    ∃ fields, argumentFields p = .ok fields := by
  cases b with
  | standard =>
    obtain ⟨fields, hfields, _⟩ := (inject_standard_iff c p q).mp h
    exact ⟨fields, hfields⟩
  | database tools =>
    obtain ⟨_, _, fields, hfields, _⟩ := (inject_database_iff c p q tools).mp h
    exact ⟨fields, hfields⟩
  | filesystem root tools =>
    obtain ⟨_, _, _, fields, hfields, _⟩ := (inject_filesystem_iff c p q root tools).mp h
    exact ⟨fields, hfields⟩
  | http tools =>
    obtain ⟨fields, hfields, _⟩ := (inject_http_iff c p q tools).mp h
    exact ⟨fields, hfields⟩

/-- without a tenant nothing else is looked at -/
theorem inject_of_noTenant (hb : b.needsTenant = true) (h : c.tenant = none) :
    b.injector.inject c tool p =
      .error (.tenantExtraction ("request " ++ c.requestId ++ " carries no tenant")) := by
  cases b with
  | standard | http => cases hb
  | database | filesystem =>
    rw [injector_inject]
    unfold inject
    rw [Context.requireTenant_of_none h]
    rfl

theorem not_refuses_of_inject (h : b.injector.inject c tool p = .ok q) : ¬Refuses c p b := by
  intro hrefuses
  cases hrefuses with
  | arguments _ hp => exact hp ((argumentFields_iff p).mp (exists_fields_of_inject h))
  | headers tools v hv hheaders =>
    obtain ⟨fields, hfields, headers, hok, _⟩ := (inject_http_iff c p q tools).mp h
    rw [← field?_eq_lookup hfields] at hok
    exact hheaders ((headerFields_iff _).mp ⟨headers, hok⟩ v hv)
  | noTenant _ hb hc => cases (inject_of_noTenant hb hc).symm.trans h
  | badTenant root tools tenant ht hname =>
    obtain ⟨tenant', ht', hdirectory, _⟩ := (inject_filesystem_iff c p q root tools).mp h
    cases ht.symm.trans ht'
    obtain ⟨name, hsingle⟩ := (isDirectoryName_iff tenant).mp hdirectory
    exact hname name hsingle

theorem exists_inject_of_not_refuses (h : ¬Refuses c p b) :
    ∃ q, b.injector.inject c tool p = .ok q := by
  have hrecord : IsRecord p := by
    by_contra hp
    exact h (.arguments b hp)
  have htenant : b.needsTenant = true → ∃ tenant, c.tenant = some tenant := by
    intro hb
    rw [← Option.ne_none_iff_exists']
    exact fun hc => h (.noTenant b hb hc)
  obtain ⟨fields, hfields⟩ := (argumentFields_iff p).mpr hrecord
  cases b with
  | standard => exact ⟨_, (inject_standard_iff c p _).mpr ⟨fields, hfields, rfl⟩⟩
  | database tools =>
    obtain ⟨tenant, ht⟩ := htenant rfl
    exact ⟨_, (inject_database_iff c p _ tools).mpr ⟨tenant, ht, fields, hfields, rfl⟩⟩
  | filesystem root tools =>
    obtain ⟨tenant, ht⟩ := htenant rfl
    have hdirectory : isDirectoryName tenant = true := by
      by_contra hnot
      refine h (.badTenant root tools tenant ht fun name hname => hnot ?_)
      exact (isDirectoryName_iff tenant).mpr ⟨name, hname⟩
    exact ⟨_, (inject_filesystem_iff c p _ root tools).mpr
      ⟨tenant, ht, hdirectory, fields, hfields, rfl⟩⟩
  | http tools =>
    have hrecords : ∀ v, p.field? "headers" = some v → IsRecord v := by
      intro v hv
      by_contra hnot
      exact h (.headers tools v hv hnot)
    obtain ⟨headers, hheaders⟩ := (headerFields_iff _).mpr hrecords
    rw [field?_eq_lookup hfields] at hheaders
    exact ⟨_, (inject_http_iff c p _ tools).mpr ⟨fields, hfields, headers, hheaders, rfl⟩⟩

end

/-- **what comes of injecting into arguments** -/
structure Frames (b : BuiltIn) (c : Context) (tool : String) (p : Json) : Prop where
  accepted : ∀ q, b.injector.inject c tool p = .ok q → b.Leaves p q
  refused : (∃ fault, b.injector.inject c tool p = .error fault) ↔ Refuses c p b
  /-- whatever else is wrong with the arguments -/
  tenantFirst : b.needsTenant = true → c.tenant = none → b.injector.inject c tool p =
    .error (.tenantExtraction ("request " ++ c.requestId ++ " carries no tenant"))

/-- **an injector changes its reserved keys only** -/
theorem inject_frames (b : BuiltIn) (c : Context) (tool : String) (p : Json) :
    b.Frames c tool p := by
  constructor
  case accepted => exact fun q h => leaves_of_inject h
  case refused =>
    constructor
    · rintro ⟨fault, hfault⟩
      by_contra hnot
      have haccepted : ∃ q, b.injector.inject c tool p = .ok q := exists_inject_of_not_refuses hnot
      obtain ⟨q, hq⟩ := haccepted
      cases hfault.symm.trans hq
    · intro hrefuses
      cases h : b.injector.inject c tool p with
      | error fault => exact ⟨fault, rfl⟩
      | ok q => exact absurd hrefuses (not_refuses_of_inject h)
  case tenantFirst => exact inject_of_noTenant

end BuiltIn

end Relay.Injection
