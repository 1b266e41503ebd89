import StatesLanguage.Value.Access

/-!
# Transports

A transport reaches a service through clients that it makes when they are first needed, one for
each pair of an endpoint and a region. A call may name a pair of its own; what it leaves open is as
configured.
-/

namespace StatesLanguage.Client

inductive Service where
  | lambda
  | ecs
  deriving DecidableEq, Inhabited

def Service.name : Service → String
  | lambda => "lambda"
  | ecs => "ecs"

/-- Where the requests of a client go. -/
structure Target where
  endpoint : Value
  region : Value
  deriving Inhabited

namespace Target

/-- Whether a part of a target is another's: an equal one, or the very same number, which need not be
equal to itself. -/
def samePart : Value → Value → Bool
  | .float x, .float y => x.toBits == y.toBits || (Value.float x).same (.float y)
  | a, b => a.same b

/-- Whether two targets have one client. -/
def same (a b : Target) : Bool :=
  samePart a.endpoint b.endpoint && samePart a.region b.region

def arguments (t : Target) : Members :=
  (if t.endpoint.truthy then [("endpoint_url", t.endpoint)] else []) ++
    (if t.region.truthy then [("region_name", t.region)] else [])

/-- Checks that clients can be kept under a target. -/
def check (t : Target) : Outcome Unit := do
  let _ ← t.endpoint.asKey
  let _ ← t.region.asKey

end Target

/-- The clients of one service. Nothing needs to be known of a client to keep it. -/
structure Pool (κ : Type) where
  service : Service
  configured : Target
  clients : List (Target × κ)
  deriving Inhabited

/-- What came of seeing to a client for a call. -/
structure Connection (κ : Type) where
  /-- The arguments with which a client was asked for, if there was none to be had. -/
  asked : Option Members
  client : Outcome κ
  pool : Pool κ

namespace Pool

variable {κ : Type}

def ofConfig (service : Service) (config : Value) : Outcome (Pool κ) := do
  let config := config.orElse (.obj [])
  let part ← config.memberOr service.name (.obj [])
  let endpoint ← part.memberOr "endpoint" .null
  let region ← part.memberOr "region" .null
  return ⟨service, ⟨endpoint, region⟩, []⟩

/-- A pool with a client that was made before, under the target of the configuration. -/
def withClient (p : Pool κ) (client : κ) : Outcome (Pool κ) := do
  p.configured.check
  return { p with clients := [(p.configured, client)] }

/-- The target of a call: what the call says of it, and what the configuration says otherwise. -/
def resolve (p : Pool κ) (override : Target) : Target :=
  ⟨override.endpoint.orElse p.configured.endpoint, override.region.orElse p.configured.region⟩

def find? (p : Pool κ) (target : Target) : Option κ :=
  (p.clients.find? fun entry => target.same entry.1).map (·.2)

/-- Sees to a client for a call, given what making one comes to. Nothing is kept of one that could not
be made. -/
def connect (p : Pool κ) (make : Members → Outcome κ) (override : Target) : Connection κ :=
  let target := p.resolve override
  match target.check with
  | .error e => ⟨none, .error e, p⟩
  | .ok () =>
    match p.find? target with
    | some client => ⟨none, .ok client, p⟩
    | none =>
      match make target.arguments with
      | .error e => ⟨some target.arguments, .error e, p⟩
      | .ok client =>
        ⟨some target.arguments, .ok client, { p with clients := p.clients ++ [(target, client)] }⟩

end Pool

/-- A way to a service of which every client answers alike. -/
abbrev Transport := Pool Unit

namespace Transport

def ofConfig (service : Service) (config : Value) : Outcome Transport :=
  Pool.ofConfig service config

def withClient (t : Transport) : Outcome Transport :=
  Pool.withClient t ()

end Transport

end StatesLanguage.Client
