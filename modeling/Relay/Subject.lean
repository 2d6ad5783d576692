import Relay.Fault
import Relay.Text.Blank
import Relay.Text.Split

/-!
# Subjects

A `Subject` names the route of a message, `domain.service.request` or `domain.service.response`. The
domain and the service are segments: not empty, and without dots and blanks. The type keeps this, so
that every subject has a text that reads back as it.
-/

namespace Relay

/-- which half of an exchange a message is -/
inductive Direction
  | request
  | response
deriving DecidableEq, Repr

namespace Direction

def name : Direction → String
  | request => "request"
  | response => "response"

instance : Named Direction := ⟨[request, response], name⟩

end Direction

/-- a word that may stand between the dots of a subject -/
def isSegment (s : String) : Bool :=
  s ≠ "" && s.toList.all (fun c => c ≠ '.' && !Text.isBlank c)

/-- the route of a message -/
structure Subject where
  domain : String
  service : String
  direction : Direction
  domain_isSegment : isSegment domain = true
  service_isSegment : isSegment service = true
deriving DecidableEq

namespace Subject

/-- why something is no subject -/
inductive Flaw
  | form (text : String)
  | direction (word : String)
  | empty (part : String)
  | badSegment (part segment : String)
deriving DecidableEq, Repr

namespace Flaw

def message : Flaw → String
  | form text => "subject '" ++ text ++ "' must have the form domain.service.request|response"
  | direction word => "unknown subject direction '" ++ word ++ "'"
  | empty part => "subject " ++ part ++ " is empty"
  | badSegment part segment =>
    "subject " ++ part ++ " '" ++ segment ++ "' may not contain dots or whitespace"

def fault (f : Flaw) : Fault := .validation f.message

end Flaw

def segmentFlaw (part segment : String) : Flaw :=
  if segment = "" then .empty part else .badSegment part segment

def make (domain service : String) (direction : Direction) : Except Flaw Subject :=
  if hd : isSegment domain then
    if hs : isSegment service then .ok ⟨domain, service, direction, hd, hs⟩
    else .error (segmentFlaw "service" service)
  else .error (segmentFlaw "domain" domain)

/-- the subject of the answer to a request -/
def reply (s : Subject) : Subject := { s with direction := .response }

/-- the written form -/
def text (s : Subject) : String := s.domain ++ "." ++ s.service ++ "." ++ s.direction.name

/-- reads the written form -/
def parse (text : String) : Except Flaw Subject :=
  match Text.split '.' text.toList with
  | [domain, service, direction] =>
    match Named.ofName? (String.ofList direction) with
    | some direction => make (String.ofList domain) (String.ofList service) direction
    | none => .error (.direction (String.ofList direction))
  | _ => .error (.form text)

end Subject

end Relay
