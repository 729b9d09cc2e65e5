import BreezeGateway.RedisAdmission.LeaseContract
import BreezeGateway.RedisAdmission.Provider

/-!
# Providers with a gateway limit

`with_gateway_limit` and `GatewayLease::start`.
-/

namespace BreezeGateway

def stripPrefix (start text : String) : Option String :=
  if start.toList <+: text.toList then some (String.ofList (text.toList.drop start.toList.length))
  else none

/-- `text.parse::<usize>().ok()`: digits, also with a plus sign before them. -/
def parseUsize (text : String) : Option ℕ :=
  parseDigits usizeMax (if (utf8 text).head? = some 43 then (utf8 text).tail else utf8 text)

namespace GatewayTask

/-- `GatewayLease::start`.  The runtime and the two `rand::random::<u128>()` come from outside. -/
def start (runtime : Bool) (random : Fin (2 ^ 128) × Fin (2 ^ 128)) (config : GatewayLeaseConfig) :
    Except GatewayLeaseConfigError GatewayTask :=
  match hvalid : config.validate with
  | .error e => .error e
  | .ok () =>
      if runtime then
        let instanceId :=
          if trimIsEmpty config.instanceId then "gw-" ++ hex32 random.1 else config.instanceId
        .ok {
          token := instanceId ++ ":" ++ hex32 random.2
          config := { config with instanceId := instanceId }
          valid := hvalid }
      else .error .noRuntime

end GatewayTask

/-- A provider and its participation. -/
structure LimitedProvider extends RedisAdmissionProvider where
  participation : Option GatewayTask

namespace LimitedProvider

/-- What `RedisAdmissionProvider::with_ttl` returns. -/
def ofProvider (p : RedisAdmissionProvider) : LimitedProvider := { p with participation := none }

def withGatewayLimit (self : LimitedProvider) (runtime : Bool)
    (random : Fin (2 ^ 128) × Fin (2 ^ 128)) (config : GatewayLeaseConfig) :
    Except GatewayLeaseConfigError LimitedProvider :=
  if self.participation.isSome then .error .alreadyConfigured
  else if self.recorderUrlKey = Lease.maxGatewaysKey self.keyPrefix ∨
      ((stripPrefix (self.keyPrefix ++ ":gateway:") self.recorderUrlKey).bind parseUsize).isSome then
    .error .recorderKeyConflict
  else do
    let task ← GatewayTask.start runtime random config
    pure { self with participation := some task }

end LimitedProvider

/-! ## What the checks establish -/

theorem utf8_toString (n : ℕ) : utf8 (toString n) = decimal n := by
  have hchars : (toString n).toList = Nat.toDigits 10 n := by
    rw [Nat.toString_eq_repr, Nat.toList_repr]
  have hascii : isAscii (toString n) = true := by
    unfold isAscii
    rw [hchars, List.all_eq_true]
    intro c hc
    have hdigit := toUInt8_of_isDigit (Nat.isDigit_of_mem_toDigits (by decide) (by decide) hc)
    rw [decide_eq_true_eq]
    omega
  rw [utf8_of_isAscii hascii, hchars, decimal]

theorem parseUsize_toString {n : ℕ} (h : n ≤ usizeMax) : parseUsize (toString n) = some n := by
  have hplus : (decimal n).head? ≠ some 43 := by
    intro hhead
    exact absurd (isAsciiDigit_of_mem_decimal (List.mem_of_head? hhead)) (by decide)
  unfold parseUsize
  rw [utf8_toString, if_neg hplus]
  exact parseDigits_of_le h

theorem stripPrefix_append (start text : String) : stripPrefix start (start ++ text) = some text := by
  unfold stripPrefix
  rw [String.toList_append, if_pos (List.prefix_append _ _), List.drop_left, String.ofList_toList]

/-- The recorder key is none of the keys that the gateways share. -/
structure RecorderApart (p : RedisAdmissionProvider) : Prop where
  policy : p.recorderUrlKey ≠ p.keyPrefix ++ ":api-policy"
  counts : p.recorderUrlKey ≠ p.countsKey
  maxGateways : p.recorderUrlKey ≠ Lease.maxGatewaysKey p.keyPrefix
  gateway : ∀ slot ≤ usizeMax, p.recorderUrlKey ≠ Lease.slotKey p.keyPrefix slot

theorem recorderApart_of_withGatewayLimit {keyPrefix recorderUrlKey : String} {ttl : ℕ}
    {p : RedisAdmissionProvider} {q : LimitedProvider} {runtime : Bool}
    {random : Fin (2 ^ 128) × Fin (2 ^ 128)} {config : GatewayLeaseConfig}
    (h : RedisAdmissionProvider.withTtl keyPrefix recorderUrlKey ttl = .ok p)
    (hlimit : (LimitedProvider.ofProvider p).withGatewayLimit runtime random config = .ok q) :
    RecorderApart q.toRedisAdmissionProvider := by
  have hbase : p.recorderUrlKey ≠ p.keyPrefix ++ ":api-policy" ∧ p.recorderUrlKey ≠ p.countsKey := by
    unfold RedisAdmissionProvider.withTtl at h
    split at h
    · cases h
    · split at h
      · cases h
      · split at h
        · cases h
        · rename_i hconflict
          split at h
          · cases h
          · obtain rfl := Except.ok.inj h
            exact not_or.mp hconflict
  unfold LimitedProvider.withGatewayLimit at hlimit
  split at hlimit
  · cases hlimit
  · split at hlimit
    · cases hlimit
    · rename_i hconflict
      obtain ⟨hmax, hslot⟩ := not_or.mp hconflict
      obtain ⟨task, -, hlimit⟩ := except_bind_ok hlimit
      obtain rfl := Except.ok.inj hlimit
      refine ⟨hbase.1, hbase.2, hmax, ?_⟩
      intro slot hle hkey
      apply hslot
      have hslotKey : (LimitedProvider.ofProvider p).recorderUrlKey =
          (LimitedProvider.ofProvider p).keyPrefix ++ ":gateway:" ++ toString slot := hkey
      rw [hslotKey, stripPrefix_append, Option.bind_some, parseUsize_toString hle]
      rfl

theorem participation_of_withGatewayLimit {self q : LimitedProvider} {runtime : Bool}
    {random : Fin (2 ^ 128) × Fin (2 ^ 128)} {config : GatewayLeaseConfig}
    (h : self.withGatewayLimit runtime random config = .ok q) :
    ∃ task, q.participation = some task := by
  unfold LimitedProvider.withGatewayLimit at h
  split at h
  · cases h
  · split at h
    · cases h
    · obtain ⟨task, -, h⟩ := except_bind_ok h
      obtain rfl := Except.ok.inj h
      exact ⟨task, rfl⟩

end BreezeGateway
