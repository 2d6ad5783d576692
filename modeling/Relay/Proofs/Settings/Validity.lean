import Mathlib.Data.List.Basic
import Relay.Settings.Flaw

/-!
# Settings without flaws

`Valid` says which settings can be used, without an order in which to look: the domain and the names of
the services are single words between dots, no two services have one name, and the delays and the jitter
are in range. `check_eq_ok_iff` says that `Settings.check` accepts exactly these.
-/

namespace Relay.Settings

structure Valid (s : Settings) : Prop where
  domain : isSingle s.domain = true
  delays : s.retry.minDelayMs ≤ s.retry.maxDelayMs
  jitter : s.retry.jitter.inUnitInterval = true
  services : ∀ service ∈ s.services, isSingle service.name = true
  nodup : (s.services.map KnownService.name).Nodup

theorem checkServices_eq_ok_iff (seen : List String) (services : List KnownService) :
    checkServices seen services = .ok () ↔
      (∀ service ∈ services, isSingle service.name = true) ∧
        (services.map KnownService.name).Nodup ∧
        (services.map KnownService.name).Disjoint seen := by
  induction services generalizing seen with
  | nil => simp [checkServices]
  | cons service services ih =>
    unfold checkServices
    cases hsingle : isSingle service.name with
    | false => simp [hsingle]
    | true =>
      by_cases hseen : service.name ∈ seen
      · simp [hseen]
      · -- of the names that are left none may be this one, whether as seen or as one of the rest
        rw [if_neg (by decide), if_neg hseen, ih, List.forall_mem_cons, List.map_cons,
          List.nodup_cons, List.disjoint_cons_left, List.disjoint_cons_right]
        constructor
        · rintro ⟨hrest, hnodup, hnew, hdisjoint⟩
          exact ⟨⟨hsingle, hrest⟩, ⟨hnew, hnodup⟩, hseen, hdisjoint⟩
        · rintro ⟨⟨_, hrest⟩, ⟨hnew, hnodup⟩, _, hdisjoint⟩
          exact ⟨hrest, hnodup, hnew, hdisjoint⟩

/-- **the check accepts exactly the settings without flaws** -/
theorem check_eq_ok_iff (s : Settings) : s.check = .ok () ↔ s.Valid := by
  unfold check
  cases hdomain : isSingle s.domain with
  | false =>
    refine ⟨fun h => (by cases h), fun h => ?_⟩
    rw [h.domain] at hdomain
    cases hdomain
  | true =>
    rw [if_neg (by decide)]
    by_cases hdelays : s.retry.maxDelayMs < s.retry.minDelayMs
    · rw [if_pos hdelays]
      exact ⟨fun h => (by cases h), fun h => absurd hdelays (UInt64.not_lt.mpr h.delays)⟩
    · rw [if_neg hdelays]
      cases hjitter : s.retry.jitter.inUnitInterval with
      | false =>
        refine ⟨fun h => (by cases h), fun h => ?_⟩
        rw [h.jitter] at hjitter
        cases hjitter
      | true =>
        rw [if_neg (by decide), checkServices_eq_ok_iff]
        constructor
        · rintro ⟨hservices, hnodup, _⟩
          exact ⟨hdomain, UInt64.not_lt.mp hdelays, hjitter, hservices, hnodup⟩
        · exact fun h => ⟨h.services, h.nodup, List.disjoint_nil_right _⟩

end Relay.Settings
