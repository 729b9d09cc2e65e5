import BreezeGateway.RedisAdmission.Policy
import BreezeGateway.RedisAdmission.Task

/-!
# The Redis admission provider

`src/redis_admission.rs`, `discovery.rs` and the reading side of `registration.rs`.  The drop of
a `Lookup` guard is the operation `dropLookup`, performed wherever the guard leaves its scope.
-/

namespace BreezeGateway

open Effects

/-! ## Recorder discovery -/

def recorderRetryInterval : ℕ := seconds 10

/-- The state behind the lock of `RecorderDiscovery`. -/
structure Discovery where
  retryAfter : Option ℕ
  checking : Bool
deriving DecidableEq

inductive LookupUnavailable where
  | coolingDown
  | inProgress
deriving DecidableEq

namespace Discovery

def default : Discovery := ⟨none, false⟩

def tryLookup (d : Discovery) (now : ℕ) : Except LookupUnavailable Discovery :=
  if d.retryAfter.any (now < ·) then .error .coolingDown
  else if d.checking then .error .inProgress
  else .ok { d with checking := true }

def dropLookup (now : ℕ) (available : Bool) : Discovery where
  checking := false
  retryAfter := if available then none else some (now + recorderRetryInterval)

end Discovery

/-! ## Registered origins -/

def registrationOrigin {Index : Type} (lib : Libraries Index) (bytes : Bytes) :
    Except AdmissionError Uri := do
  let text ← (fromUtf8 bytes).elim (throw .invalidRecorderUrl) pure
  let url ←
    if (trimStart text).head? = some '{' then
      match lib.decodeAddress text with
      | none => throw .invalidRecorderUrl
      | some address =>
          if trimIsEmpty address.owner then throw .invalidRecorderUrl else pure address.url
    else pure text
  match lib.parseUri url with
  | .ok uri => pure uri
  | .error _ => throw .invalidRecorderUrl

/-! ## The provider -/

inductive RedisAdmissionConfigError where
  | recorderKeyConflict
  | emptyPrefix
  | emptyRecorderKey
  | invalidTtl
deriving DecidableEq

/-- What all clones of a provider share besides the discovery and the policy. -/
structure RedisAdmissionProvider where
  keyPrefix : String
  recorderUrlKey : String
  ttlMs : ℕ
deriving DecidableEq

inductive AdmissionOp where
  | isParticipating
  /-- `self.policy.snapshot()`. -/
  | snapshot
  | tryLookup
  | dropLookup (available : Bool)
  /-- The two `rand::random::<u128>()` of a token. -/
  | randomToken

abbrev admissionSig (Index : Type) : Sig where
  Op := AdmissionOp
  Ans
    | .isParticipating => Bool
    | .snapshot => Option (CompiledPolicy Index)
    | .tryLookup => Except LookupUnavailable Unit
    | .dropLookup _ => Unit
    | .randomToken => Fin (2 ^ 128) × Fin (2 ^ 128)

def acquisitionToken (random : Fin (2 ^ 128) × Fin (2 ^ 128)) : String :=
  hex32 random.1 ++ hex32 random.2

namespace RedisAdmissionProvider

def countsKey (p : RedisAdmissionProvider) : String := p.keyPrefix ++ ":api-counts"

def key (p : RedisAdmissionProvider) (scope : String) : String :=
  p.keyPrefix ++ ":inflight:" ++ scope

def withTtl (keyPrefix recorderUrlKey : String) (ttl : ℕ) :
    Except RedisAdmissionConfigError RedisAdmissionProvider :=
  if keyPrefix = "" then .error .emptyPrefix
  else if recorderUrlKey = "" then .error .emptyRecorderKey
  else if recorderUrlKey = keyPrefix ++ ":api-policy" ∨ recorderUrlKey = keyPrefix ++ ":api-counts" then
    .error .recorderKeyConflict
  else if ttl / 1000000 = 0 ∨ ttl / 1000000 > i64Max ∨ ttl % 1000000000 % 1000000 ≠ 0 then
    .error .invalidTtl
  else .ok ⟨keyPrefix, recorderUrlKey, ttl / 1000000⟩

section

variable {Index : Type}

abbrev AdmissionTask (Index α : Type) := Task (admissionSig Index) α

def isParticipating : AdmissionTask Index Bool :=
  Task.perform (L := admissionSig Index) .isParticipating

def snapshot : AdmissionTask Index (Option (CompiledPolicy Index)) :=
  Task.perform (L := admissionSig Index) .snapshot

def tryLookup : AdmissionTask Index (Except LookupUnavailable Unit) :=
  Task.perform (L := admissionSig Index) .tryLookup

def dropLookup (available : Bool) : AdmissionTask Index Unit :=
  Task.perform (L := admissionSig Index) (.dropLookup available)

def randomToken : AdmissionTask Index (Fin (2 ^ 128) × Fin (2 ^ 128)) :=
  Task.perform (L := admissionSig Index) .randomToken

def countOf : Value → Except AdmissionError ℕ
  | .nil => .ok 0
  | .bulkString bytes =>
      match parseDigits u64Max bytes with
      | some n => .ok n
      | none => .error (Policy.invalid "API count must be a nonnegative integer")
  | _ => .error (Policy.invalid "API count must be a nonnegative integer")

variable (lib : Libraries Index) (p : RedisAdmissionProvider)

/-- The origin in the reply to the lookup of the recorder; `none` is `Value::Nil`. -/
def recorderOrigin : Value → Except AdmissionError (Option Uri)
  | .nil => .ok none
  | .bulkString bytes => some <$> registrationOrigin lib bytes
  | _ => .error .invalidRecorderUrl

def exhausted (quota : Option (String × ℕ)) : AdmissionTask Index Bool :=
  match quota with
  | none => pure false
  | some (api, limit) => do
      let count ← Task.ofResult (countOf (← Task.command (.hget p.countsKey api)))
      pure (decide (limit ≤ count))

def countAdmission (quota : Option (String × ℕ)) : AdmissionTask Index Unit :=
  match quota with
  | none => pure ()
  | some (api, _) => do
      match ← Task.command (.hincrby p.countsKey api 1) with
      | .int n =>
          if 0 < n then pure ()
          else throw (Policy.invalid "unexpected API count increment response")
      | _ => throw (Policy.invalid "unexpected API count increment response")

/-- From the new token on; the second component is set by `lookup_guard.available()`. -/
def claimSlot (scope : String) (quota : Option (String × ℕ)) (origin : Uri) :
    AdmissionTask Index (AcquireOutcome × Bool) := do
  let token := acquisitionToken (← randomToken)
  let ticket ← Task.ofResult (AdmissionTicket.new scope token >>= (·.withOrigin origin))
  if ← reserve (p.key scope) ticket.token p.ttlMs then
    countAdmission p quota
    -- An unused reservation remains until completion or its expiry.
    if ← isParticipating then pure (.acquired ticket, true)
    else throw .participationLost
  else pure (.busy, true)

/-- The part of `acquire` during which the guard is alive. -/
def lookup (scope : String) (quota : Option (String × ℕ)) :
    AdmissionTask Index (AcquireOutcome × Bool) := do
  match ← Task.ofResult (recorderOrigin lib (← Task.command (.get p.recorderUrlKey))) with
  | none => pure (.noRecorder, false)
  | some origin =>
      if ← exhausted p quota then pure (.quotaExhausted, true)
      else claimSlot p scope quota origin

/-- Run the guarded part and drop the guard, whichever way it returns. -/
def guarded (body : AdmissionTask Index (AcquireOutcome × Bool)) :
    AdmissionTask Index AcquireOutcome :=
  ExceptT.mk do
    match ← body.run with
    | .ok (outcome, available) =>
        let _ ← (dropLookup available).run
        pure (.ok outcome)
    | .error e =>
        let _ ← (dropLookup false).run
        pure (.error e)

def acquire (scope : String) (quota : Option (String × ℕ)) : AdmissionTask Index AcquireOutcome := do
  if ← isParticipating then
    if p.key scope = p.recorderUrlKey then
      throw (.backend "recorder URL key conflicts with slot key")
    else
      match ← tryLookup with
      | .error .coolingDown => pure .noRecorder
      | .error .inProgress => pure .busy
      | .ok () => guarded (lookup lib p scope quota)
  else pure .notParticipant

/-- Recorder-side and legacy route admission retain the lock-only path. -/
def tryAcquire (scope : String) : AdmissionTask Index AcquireOutcome := acquire lib p scope none

def tryAcquireRequest (scope path : String) : AdmissionTask Index AcquireOutcome := do
  if ← isParticipating then
    match ← snapshot with
    | none => pure .notEligible
    | some policy =>
        match policy.api lib path with
        | none => pure .notEligible
        | some api => acquire lib p scope (policy.caseLimit.map fun limit => (api, limit))
  else pure .notParticipant

def unexpectedTransition : String := "unexpected Redis admission transition response"

def complete (ticket : AdmissionTicket) : AdmissionTask Index Bool :=
  transition (.complete (p.key ticket.scope) (utf8 ticket.token)) unexpectedTransition

def renew (ticket : AdmissionTicket) : AdmissionTask Index Bool :=
  transition (.renew (p.key ticket.scope) (utf8 ticket.token) p.ttlMs) unexpectedTransition

def owns (ticket : AdmissionTicket) : AdmissionTask Index Bool := do
  match ← Task.command (.get (p.key ticket.scope)) with
  | .nil => pure false
  | .bulkString value => pure (decide (value = utf8 ticket.token))
  | _ => throw (.backend "unexpected Redis reservation response")

end

end RedisAdmissionProvider

/-! ## Calls -/

inductive Call where
  | tryAcquire (scope : String)
  | tryAcquireRequest (scope path : String)
  | complete (ticket : AdmissionTicket)
  | renew (ticket : AdmissionTicket)
  | owns (ticket : AdmissionTicket)

inductive CallResult where
  | outcome (r : Except AdmissionError AcquireOutcome)
  | done (r : Except AdmissionError Bool)

namespace Call

def isAcquire : Call → Bool
  | .tryAcquire _ => true
  | .tryAcquireRequest _ _ => true
  | _ => false

def scope : Call → String
  | .tryAcquire scope => scope
  | .tryAcquireRequest scope _ => scope
  | .complete ticket => ticket.scope
  | .renew ticket => ticket.scope
  | .owns ticket => ticket.scope

def run {Index : Type} (lib : Libraries Index) (p : RedisAdmissionProvider) :
    Call → Prog (redisSig (admissionSig Index)) CallResult
  | .tryAcquire scope => .outcome <$> (p.tryAcquire lib scope).run
  | .tryAcquireRequest scope path => .outcome <$> (p.tryAcquireRequest lib scope path).run
  | .complete ticket => .done <$> (p.complete ticket).run
  | .renew ticket => .done <$> (p.renew ticket).run
  | .owns ticket => .done <$> (p.owns ticket).run

end Call

end BreezeGateway
