import Mathlib.Logic.Function.Basic
import Relay.Subject

/-!
# The text of a subject

A subject is read back from its text (`parse_text`): its words have no dot in them (`isSegment_iff`), so
the text falls apart at the dots into the three that it was made of (`split_text`). No other text is read
as it (`parse_eq_ok_iff`), since the runs between the dots of a text make up the text again.

* `IsWord`             a word that may stand in a route;
* `Subject.Spells`     a text of two words and a direction, with dots between them;
* `text_corresponds`   subjects and these texts correspond one to one.
-/

namespace Relay

theorem isSegment_iff (s : String) : isSegment s = true ↔
    s ≠ "" ∧ '.' ∉ s.toList ∧ ∀ c ∈ s.toList, Text.isBlank c = false := by
  unfold isSegment
  simp only [Bool.and_eq_true, decide_eq_true_eq, List.all_eq_true, Bool.not_eq_true']
  constructor
  · rintro ⟨hne, hall⟩
    exact ⟨hne, fun hdot => (hall '.' hdot).1 rfl, fun c hc => (hall c hc).2⟩
  · rintro ⟨hne, hdot, hblank⟩
    exact ⟨hne, fun c hc => ⟨fun e => hdot (e ▸ hc), hblank c hc⟩⟩

structure IsWord (s : String) : Prop where
  ne_empty : s ≠ ""
  dot_not_mem : '.' ∉ s.toList
  not_blank : ∀ c ∈ s.toList, Text.isBlank c = false

theorem isWord_iff (s : String) : IsWord s ↔ isSegment s = true := by
  rw [isSegment_iff]
  constructor
  · intro h
    exact ⟨h.ne_empty, h.dot_not_mem, h.not_blank⟩
  · intro h
    exact ⟨h.1, h.2.1, h.2.2⟩

namespace Direction

theorem ofName?_name (d : Direction) : Named.ofName? d.name = some d := by
  cases d <;> rfl

theorem name_of_ofName? {word : String} {d : Direction} (h : Named.ofName? word = some d) :
    d.name = word := by
  unfold Named.ofName? at h
  have hname := List.find?_some h
  exact beq_iff_eq.mp hname

theorem dot_not_mem (d : Direction) : '.' ∉ d.name.toList := by
  cases d <;> decide

end Direction

namespace Subject

/-! ## from a subject to its text and back -/

theorem make_eq_ok (s : Subject) : make s.domain s.service s.direction = .ok s := by
  unfold make
  rw [dif_pos s.domain_isSegment, dif_pos s.service_isSegment]

theorem parts_of_make {domain service : String} {direction : Direction} {s : Subject}
    (h : make domain service direction = .ok s) :
    s.domain = domain ∧ s.service = service ∧ s.direction = direction := by
  unfold make at h
  split at h
  · split at h
    · cases h
      exact ⟨rfl, rfl, rfl⟩
    · cases h
  · cases h

theorem toList_text (s : Subject) : s.text.toList =
    s.domain.toList ++ '.' :: (s.service.toList ++ '.' :: s.direction.name.toList) := by
  simp [text]

theorem split_text (s : Subject) : Text.split '.' s.text.toList =
    [s.domain.toList, s.service.toList, s.direction.name.toList] := by
  have hdomain := ((isSegment_iff s.domain).mp s.domain_isSegment).2.1
  have hservice := ((isSegment_iff s.service).mp s.service_isSegment).2.1
  rw [toList_text, Text.split_append_sep, Text.split_append_sep, Text.split_of_not_mem hdomain,
    Text.split_of_not_mem hservice, Text.split_of_not_mem s.direction.dot_not_mem]
  rfl

/-- **a subject is read back from its text** -/
theorem parse_text (s : Subject) : parse s.text = .ok s := by
  unfold parse
  rw [split_text]
  simp only [String.ofList_toList, Direction.ofName?_name]
  exact s.make_eq_ok

theorem text_injective : Function.Injective text := by
  intro s s' h
  have hparse := s'.parse_text
  rw [← h, parse_text] at hparse
  exact Except.ok.inj hparse

/-! ## from a text to its subject and back -/

theorem text_of_parse {t : String} {s : Subject} (h : parse t = .ok s) : s.text = t := by
  unfold parse at h
  split at h
  case h_1 domain service word hsplit =>
    split at h
    case h_1 direction hword =>
      obtain ⟨hdomain, hservice, hdirection⟩ := parts_of_make h
      have hname := Direction.name_of_ofName? hword
      have hjoin := Text.join_split '.' t.toList
      rw [hsplit] at hjoin
      rw [← String.toList_inj, toList_text, hdomain, hservice, hdirection, hname, ← hjoin]
      simp only [String.toList_ofList, Text.join]
    case h_2 => cases h
  case h_2 => cases h

theorem parse_eq_ok_iff (t : String) (s : Subject) : parse t = .ok s ↔ s.text = t := by
  constructor
  · exact text_of_parse
  · intro h
    rw [← h]
    exact s.parse_text

/-- a text of two words and a direction, with dots between them -/
structure Spells (t domain service : String) (direction : Direction) : Prop where
  text : t = domain ++ "." ++ service ++ "." ++ direction.name
  domain : IsWord domain
  service : IsWord service

theorem spells_text (s : Subject) : Spells s.text s.domain s.service s.direction := by
  have hdomain := (isWord_iff s.domain).mpr s.domain_isSegment
  have hservice := (isWord_iff s.service).mpr s.service_isSegment
  exact ⟨rfl, hdomain, hservice⟩

theorem spells_iff (t domain service : String) (direction : Direction) :
    Spells t domain service direction ↔ ∃ s, parse t = .ok s ∧
      s.domain = domain ∧ s.service = service ∧ s.direction = direction := by
  constructor
  · intro h
    have hdomain := (isWord_iff domain).mp h.domain
    have hservice := (isWord_iff service).mp h.service
    refine ⟨⟨domain, service, direction, hdomain, hservice⟩, ?_, rfl, rfl, rfl⟩
    rw [parse_eq_ok_iff, h.text]
    rfl
  · rintro ⟨s, hparse, rfl, rfl, rfl⟩
    rw [← text_of_parse hparse]
    exact s.spells_text

/-! ## the correspondence -/

theorem not_spells_of_parse {t : String} {flaw : Flaw} (h : parse t = .error flaw)
    (domain service : String) (direction : Direction) : ¬Spells t domain service direction := by
  intro hspells
  obtain ⟨s, hparse, -⟩ := (spells_iff t domain service direction).mp hspells
  cases h.symm.trans hparse

theorem not_words_of_make {domain service : String} {direction : Direction} {flaw : Flaw}
    (h : make domain service direction = .error flaw) : ¬(IsWord domain ∧ IsWord service) := by
  rintro ⟨hdomain, hservice⟩
  have hdomain := (isWord_iff domain).mp hdomain
  have hservice := (isWord_iff service).mp hservice
  have hmake := make_eq_ok ⟨domain, service, direction, hdomain, hservice⟩
  cases h.symm.trans hmake

/-- **subjects and the texts that spell a route correspond one to one** -/
structure Corresponds : Prop where
  /-- a text is read if it spells a route, and then as the parts that it spells -/
  reads : ∀ t domain service direction, Spells t domain service direction ↔
    ∃ s, parse t = .ok s ∧ s.domain = domain ∧ s.service = service ∧ s.direction = direction
  prints : ∀ t s, parse t = .ok s → s.text = t
  unread : ∀ t flaw, parse t = .error flaw →
    flaw.fault.kind = .validation ∧ ∀ domain service direction, ¬Spells t domain service direction
  made : ∀ domain service direction s, make domain service direction = .ok s →
    parse s.text = .ok s ∧ s.domain = domain ∧ s.service = service ∧ s.direction = direction
  unmade : ∀ domain service direction flaw, make domain service direction = .error flaw →
    flaw.fault.kind = .validation ∧ ¬(IsWord domain ∧ IsWord service)
  distinct : Function.Injective text
  /-- the subject of an answer could have been made from its parts -/
  reply : ∀ s : Subject, make s.domain s.service .response = .ok s.reply ∧
    parse s.reply.text = .ok s.reply ∧ s.reply.domain = s.domain ∧ s.reply.service = s.service ∧
      s.reply.reply = s.reply

theorem text_corresponds : Corresponds := by
  constructor
  case reads => exact spells_iff
  case prints => exact fun t s h => text_of_parse h
  case unread => exact fun t flaw h => ⟨rfl, not_spells_of_parse h⟩
  case made => exact fun domain service direction s h => ⟨s.parse_text, parts_of_make h⟩
  case unmade => exact fun domain service direction flaw h => ⟨rfl, not_words_of_make h⟩
  case distinct => exact text_injective
  case reply => exact fun s => ⟨s.reply.make_eq_ok, s.reply.parse_text, rfl, rfl, rfl⟩

end Subject

end Relay
