import BreezeGateway.RedisAdmission.Task

/-!
# The participation lease of one gateway

`src/redis_admission/lease.rs`.  The background task `run` repeats `refresh` under a timeout.
Its memory outside the program is the shared deadline `valid_until` and the variable
`owned_slot`, which survives a timed-out `refresh` because it is borrowed from `run`.
-/

namespace BreezeGateway

open Effects

/-- Durations are nanoseconds. -/
structure GatewayLeaseConfig where
  instanceId : String
  leaseTtl : ℕ
  refreshInterval : ℕ

inductive GatewayLeaseConfigError where
  | invalidTiming
  | alreadyConfigured
  | recorderKeyConflict
  | noRuntime
deriving DecidableEq

def asMillis (d : ℕ) : ℕ := d / 1000000

def subsecNanos (d : ℕ) : ℕ := d % 1000000000

namespace GatewayLeaseConfig

def new (instanceId : String) : GatewayLeaseConfig where
  instanceId := instanceId
  leaseTtl := seconds 30
  refreshInterval := seconds 10

def validate (config : GatewayLeaseConfig) : Except GatewayLeaseConfigError Unit :=
  if asMillis config.leaseTtl = 0
      ∨ asMillis config.leaseTtl > i64Max
      ∨ subsecNanos config.leaseTtl % 1000000 ≠ 0
      ∨ asMillis config.refreshInterval = 0
      ∨ subsecNanos config.refreshInterval % 1000000 ≠ 0
      ∨ config.refreshInterval > config.leaseTtl / 3 then
    .error .invalidTiming
  else .ok ()

theorem millis_leaseTtl {config : GatewayLeaseConfig} (h : config.validate = .ok ()) :
    millis (asMillis config.leaseTtl) = config.leaseTtl := by
  unfold validate at h
  split at h
  · cases h
  · rename_i hcond
    simp only [subsecNanos, not_or, not_not] at hcond
    have hwhole := hcond.2.2.1
    unfold millis asMillis
    omega

end GatewayLeaseConfig

inductive LeaseOp where
  /-- `Instant::now()`. -/
  | now
  /-- `rand::random::<usize>()`. -/
  | random
  /-- A write of `valid_until`. -/
  | setValidUntil (deadline : Option ℕ)
  | ownedSlot
  | setOwnedSlot (slot : Option ℕ)

abbrev leaseSig : Sig where
  Op := LeaseOp
  Ans
    | .now => ℕ
    | .random => ℕ
    | .setValidUntil _ => Unit
    | .ownedSlot => Option ℕ
    | .setOwnedSlot _ => Unit

abbrev LeaseTask (α : Type) := Task leaseSig α

namespace Lease

def now : LeaseTask ℕ := Task.perform (L := leaseSig) .now

def random : LeaseTask ℕ := Task.perform (L := leaseSig) .random

def ownedSlot : LeaseTask (Option ℕ) := Task.perform (L := leaseSig) .ownedSlot

def setOwnedSlot (slot : Option ℕ) : LeaseTask Unit :=
  Task.perform (L := leaseSig) (.setOwnedSlot slot)

/-- The local validity window starts when the command is sent. -/
def publish (started ttl : ℕ) : LeaseTask Unit :=
  Task.perform (L := leaseSig) (.setValidUntil (some (started + ttl)))

def clear : LeaseTask Unit := Task.perform (L := leaseSig) (.setValidUntil none)

def maxGatewaysKey (keyPrefix : String) : String := keyPrefix ++ ":max-gateways"

def slotKey (keyPrefix : String) (slot : ℕ) : String := keyPrefix ++ ":gateway:" ++ toString slot

theorem slotKey_inj {keyPrefix : String} {i j : ℕ} :
    slotKey keyPrefix i = slotKey keyPrefix j ↔ i = j := by
  constructor
  · intro h
    exact toString_nat_injective ((String.append_right_inj _).mp h)
  · rintro rfl
    rfl

def invalidLimit : AdmissionError :=
  .backend "Redis max-gateways must be a nonnegative decimal integer that fits usize"

def readLimit (key : String) : LeaseTask ℕ := do
  match ← Task.command (.get key) with
  | .nil => pure 0
  | .bulkString bytes =>
      match parseDigits usizeMax bytes with
      | some limit => pure limit
      | none => throw invalidLimit
  | _ => throw invalidLimit

def unexpectedTransition : String := "unexpected Redis participation transition response"

/-- The loop over the slots of an election; `break` is the end of the recursion. -/
def elect (keyPrefix token : String) (config : GatewayLeaseConfig) : List ℕ → LeaseTask Unit
  | [] => pure ()
  | slot :: rest => do
      let started ← now
      -- Set before awaiting, so that a lost reply keeps the possible owner.
      setOwnedSlot (some slot)
      if ← reserve (slotKey keyPrefix slot) token (asMillis config.leaseTtl) then
        publish started config.leaseTtl
      else
        setOwnedSlot none
        elect keyPrefix token config rest

/-- The part of `refresh` after a slot outside the limit has been released. -/
def renewOrElect (keyPrefix token : String) (config : GatewayLeaseConfig) (limit : ℕ) :
    LeaseTask Unit := do
  if limit = 0 then
    clear
  else
    match ← ownedSlot with
    | some slot =>
        let started ← now
        if ← transition (.renew (slotKey keyPrefix slot) (utf8 token) (asMillis config.leaseTtl))
            unexpectedTransition then
          publish started config.leaseTtl
        else
          clear
          setOwnedSlot none
    | none =>
        let first := (← random) % limit
        elect keyPrefix token config (List.range' first (limit - first) ++ List.range first)

def releaseOutside (keyPrefix token : String) (limit : ℕ) : Option ℕ → LeaseTask Unit
  | some slot =>
      if slot ≥ limit then do
        clear
        let _ ← transition (.complete (slotKey keyPrefix slot) (utf8 token)) unexpectedTransition
        setOwnedSlot none
      else pure ()
  | none => pure ()

def refresh (keyPrefix token : String) (config : GatewayLeaseConfig) : LeaseTask Unit := do
  let limit ← readLimit (maxGatewaysKey keyPrefix)
  releaseOutside keyPrefix token limit (← ownedSlot)
  renewOrElect keyPrefix token config limit

/-- One pass of the loop in `run` up to the handling of the result of `refresh`.  The policy
load and the sleep that follow send nothing to a participation key. -/
def iterate (keyPrefix token : String) (config : GatewayLeaseConfig) :
    Prog (redisSig leaseSig) Unit := do
  match ← (refresh keyPrefix token config).run with
  | .ok () => pure ()
  | .error _ =>
      let _ ← clear.run
      pure ()

end Lease

/-- The state shared between the task and the provider's eligibility checks. -/
structure LeaseState where
  validUntil : Option ℕ
  ownedSlot : Option ℕ
  dropped : Bool

def LeaseState.isValid (s : LeaseState) (now : ℕ) : Bool :=
  match s.validUntil with
  | some deadline => decide (now < deadline)
  | none => false

end BreezeGateway
