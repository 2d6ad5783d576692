import Relay.Hub
import Relay.Proofs.Checks
import Relay.Proofs.Settings.Validity
import Relay.Proofs.Subject

/-!
# Routes of configured services

The check of settings and that of subjects are two: the first lets blanks pass, the second does not.

`routes_configured` says what comes of it for a hub with checked settings. Without a blank in the domain
and in the name of a service there is a route to the service and one back, whose text says both words;
with a blank there is none (`routes_lack_blanks`).
-/

namespace Relay

def Text.hasBlank (s : String) : Bool := s.toList.any isBlank

theorem isSegment_of_isSingle {s : String} (h : Settings.isSingle s = true) :
    isSegment s = !Text.hasBlank s := by
  unfold Settings.isSingle at h
  simp only [Bool.and_eq_true, decide_eq_true_eq, Bool.not_eq_true', List.contains_eq_mem,
    decide_eq_false_iff_not] at h
  rw [Bool.eq_iff_iff, isSegment_iff]
  simp [Text.hasBlank, h.1, h.2]

namespace Subject

theorem make_of_badDomain {domain : String} (hne : domain ≠ "") (h : isSegment domain = false)
    (service : String) (direction : Direction) :
    make domain service direction = .error (.badSegment "domain" domain) := by
  unfold make segmentFlaw
  rw [dif_neg (by rw [h]; decide), if_neg hne]

theorem make_of_badService {domain service : String} (hdomain : isSegment domain = true)
    (hne : service ≠ "") (h : isSegment service = false) (direction : Direction) :
    make domain service direction = .error (.badSegment "service" service) := by
  unfold make segmentFlaw
  rw [dif_pos hdomain, dif_neg (by rw [h]; decide), if_neg hne]

end Subject

namespace Hub

theorem settings_of_assemble {settings : Settings} {parts : Parts} {h : Hub}
    (hassemble : assemble settings parts = .ok h) : h.settings = settings := by
  unfold assemble at hassemble
  obtain ⟨board, _, hassemble⟩ := Checks.bind_eq_ok_iff.mp hassemble
  obtain ⟨engine, _, hassemble⟩ := Checks.bind_eq_ok_iff.mp hassemble
  rw [← Checks.pure_eq_ok_iff.mp hassemble]

/-- **the routes of a hub to a service of a name, and back from it** -/
structure Routes (h : Hub) (domain service : String) (direction : Direction) : Prop where
  /-- a route that is read back from its text -/
  routed : Text.hasBlank domain = false → Text.hasBlank service = false →
    ∃ s, h.subject service direction = .ok s ∧ Subject.parse s.text = .ok s ∧
      s.domain = domain ∧ s.service = service ∧ s.direction = direction
  badDomain : Text.hasBlank domain = true →
    h.subject service direction = .error (.badSegment "domain" domain)
  badService : Text.hasBlank domain = false → Text.hasBlank service = true →
    h.subject service direction = .error (.badSegment "service" service)

theorem routes_configured {settings : Settings} {parts : Parts} {h : Hub}
    (hcheck : settings.check = .ok ()) (hassemble : assemble settings parts = .ok h) :
    ∀ service ∈ settings.services, ∀ direction,
      h.Routes settings.domain service.name direction := by
  have hvalid := (Settings.check_eq_ok_iff settings).mp hcheck
  intro service hservice direction
  have hsubject : h.subject service.name direction =
      Subject.make settings.domain service.name direction := by
    rw [subject, settings_of_assemble hassemble]
  have hdomain := isSegment_of_isSingle hvalid.domain
  have hname := isSegment_of_isSingle (hvalid.services service hservice)
  have hne : ∀ {name : String}, Settings.isSingle name = true → name ≠ "" := by
    intro name hsingle hempty
    rw [hempty] at hsingle
    exact absurd hsingle (by decide)
  constructor
  case routed =>
    intro hd hs
    rw [hd] at hdomain
    rw [hs] at hname
    let s : Subject := ⟨settings.domain, service.name, direction, hdomain, hname⟩
    exact ⟨s, hsubject.trans s.make_eq_ok, s.parse_text, rfl, rfl, rfl⟩
  case badDomain =>
    intro hd
    rw [hd] at hdomain
    exact hsubject.trans (Subject.make_of_badDomain (hne hvalid.domain) hdomain _ _)
  case badService =>
    intro hd hs
    rw [hd] at hdomain
    rw [hs] at hname
    exact hsubject.trans (Subject.make_of_badService hdomain
      (hne (hvalid.services service hservice)) hname _)

/-! ## names with blanks -/

namespace Office

/-- a domain of the given name with a database -/
def settings (domain : String) : Settings :=
  { domain, services := [{ name := "db", transport := .rpc, injector := some "database" }] }

end Office

theorem routes_configured_office : (Office.settings "acme").check = .ok () ∧
    ∃ h, assemble (Office.settings "acme") {} = .ok h ∧
      ∃ service ∈ (Office.settings "acme").services,
        h.Routes (Office.settings "acme").domain service.name .request := by
  have hcheck : (Office.settings "acme").check = .ok () := by decide
  have hassemble : ∃ h, assemble (Office.settings "acme") {} = .ok h := ⟨_, rfl⟩
  obtain ⟨h, hassemble⟩ := hassemble
  exact ⟨hcheck, h, hassemble, _, List.mem_cons_self,
    routes_configured hcheck hassemble _ List.mem_cons_self _⟩

/-- settings with a blank in the domain are accepted, and lead to no service -/
theorem routes_lack_blanks : ¬∀ (settings : Settings) (parts : Parts) (h : Hub),
    settings.check = .ok () → assemble settings parts = .ok h →
      ∀ service ∈ settings.services, ∀ direction,
        ∃ s, h.subject service.name direction = .ok s := by
  intro hroutes
  have hcheck : (Office.settings "my office").check = .ok () := by decide
  obtain ⟨s, hs⟩ := hroutes (Office.settings "my office") {} _ hcheck rfl _ List.mem_cons_self
    .request
  cases hs

end Hub

end Relay
