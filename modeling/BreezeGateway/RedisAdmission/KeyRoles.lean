import BreezeGateway.Effects.Substitution
import BreezeGateway.RedisAdmission.CommandTrace
import BreezeGateway.RedisAdmission.GatewayLimit
import BreezeGateway.RedisAdmission.PolicyStore
import BreezeGateway.RedisAdmission.ProviderContract

/-!
# The roles of keys

Which keys a provider uses, for what, and why no two of them are one.
-/

namespace BreezeGateway

open Effects RedisAdmissionProvider

inductive KeyRole where
  | recorder
  | policy
  | counts
  | maxGateways
  | gateway (slot : ℕ)
  | inflight (scope : String)

namespace KeyRole

def key (p : RedisAdmissionProvider) : KeyRole → String
  | recorder => p.recorderUrlKey
  | policy => PolicyStore.key p.keyPrefix
  | counts => p.countsKey
  | maxGateways => Lease.maxGatewaysKey p.keyPrefix
  | gateway slot => Lease.slotKey p.keyPrefix slot
  | inflight scope => p.key scope

/-- A slot is a `usize`, and a scope has passed the check of `acquire`. -/
def Used (p : RedisAdmissionProvider) : KeyRole → Prop
  | gateway slot => slot ≤ usizeMax
  | inflight scope => p.key scope ≠ p.recorderUrlKey
  | _ => True

/-- What follows the prefix, in the roles whose keys have one. -/
def suffix : KeyRole → String
  | recorder => ""
  | policy => ":api-policy"
  | counts => ":api-counts"
  | maxGateways => ":max-gateways"
  | gateway slot => ":gateway:" ++ toString slot
  | inflight scope => ":inflight:" ++ scope

/-- The first characters of a suffix; they tell the roles apart. -/
def tag : KeyRole → List Char
  | recorder => []
  | policy => [':', 'a', 'p', 'i', '-', 'p']
  | counts => [':', 'a', 'p', 'i', '-', 'c']
  | maxGateways => [':', 'm', 'a', 'x', '-', 'g']
  | gateway _ => [':', 'g', 'a', 't', 'e', 'w']
  | inflight _ => [':', 'i', 'n', 'f', 'l', 'i']

theorem take_suffix (r : KeyRole) : r.suffix.toList.take 6 = r.tag := by
  have happend : ∀ (s t : String), 6 ≤ s.toList.length →
      (s ++ t).toList.take 6 = s.toList.take 6 := by
    intro s t h
    rw [String.toList_append, List.take_append_of_le_length h]
  cases r with
  | gateway slot => exact happend _ _ (by decide)
  | inflight scope => exact happend _ _ (by decide)
  | _ => rfl

theorem suffix_injective {r r' : KeyRole} (h : r.suffix = r'.suffix) : r = r' := by
  have htag : r.tag = r'.tag := by rw [← take_suffix, ← take_suffix, h]
  cases r with
  | gateway slot =>
      cases r' with
      | gateway slot' =>
          rw [toString_nat_injective ((String.append_right_inj _).mp h)]
      | _ => exact absurd htag (by simp [tag])
  | inflight scope =>
      cases r' with
      | inflight scope' => rw [(String.append_right_inj _).mp h]
      | _ => exact absurd htag (by simp [tag])
  | _ =>
      cases r' with
      | _ => first | rfl | exact absurd htag (by simp [tag])

variable {p : RedisAdmissionProvider}

theorem key_eq {r : KeyRole} (h : r ≠ recorder) : r.key p = p.keyPrefix ++ r.suffix := by
  cases r with
  | recorder => exact absurd rfl h
  | gateway slot => exact String.append_assoc
  | inflight scope => exact String.append_assoc
  | _ => rfl

theorem eq_recorder {r : KeyRole} (hp : RecorderApart p) (hused : r.Used p)
    (h : r.key p = p.recorderUrlKey) : r = recorder := by
  cases r with
  | recorder => rfl
  | policy => exact absurd h.symm hp.policy
  | counts => exact absurd h.symm hp.counts
  | maxGateways => exact absurd h.symm hp.maxGateways
  | gateway slot => exact absurd h.symm (hp.gateway slot hused)
  | inflight scope => exact absurd h hused

theorem key_injective {r r' : KeyRole} (hp : RecorderApart p) (hused : r.Used p)
    (hused' : r'.Used p) (h : r.key p = r'.key p) : r = r' := by
  by_cases hr : r = recorder
  · subst hr
    exact (eq_recorder hp hused' h.symm).symm
  · by_cases hr' : r' = recorder
    · subst hr'
      exact eq_recorder hp hused h
    · rw [key_eq hr, key_eq hr'] at h
      exact suffix_injective ((String.append_right_inj _).mp h)

end KeyRole

/-! ## What a command touches -/

def Command.key : Command → String
  | .get key => key
  | .set key _ _ => key
  | .complete key _ => key
  | .renew key _ _ => key
  | .hget key _ => key
  | .hincrby key _ _ => key

/-- The command neither changes the key nor depends on it. -/
def Leaves (c : Command) (k : String) : Prop :=
  ∀ (now : ℕ) (db : Db),
    (db.exec now c).1.strings k = db.strings k ∧ (db.exec now c).1.hashes k = db.hashes k ∧
    ∀ db' : Db, (∀ j, j ≠ k → db'.strings j = db.strings j ∧ db'.hashes j = db.hashes j) →
      (db'.exec now c).2 = (db.exec now c).2

theorem strings_exec_of_ne {c : Command} {k : String} (h : k ≠ c.key) (now : ℕ) (db : Db) :
    (db.exec now c).1.strings k = db.strings k := by
  cases c with
  | get key => rfl
  | hget key field => rfl
  | hincrby key field n =>
      simp only [Db.exec]
      split
      · rfl
      · split <;> rfl
  | set key value px =>
      simp only [Db.exec, Store.putIfAbsent]
      split
      · exact Function.update_of_ne h _ _
      · rfl
  | complete key token =>
      simp only [Db.exec, Store.removeIf]
      split
      · exact Function.update_of_ne h _ _
      · rfl
  | renew key token px =>
      simp only [Db.exec, Store.extendIf]
      split
      · exact Function.update_of_ne h _ _
      · rfl

theorem hashes_exec_of_ne {c : Command} {k : String} (h : k ≠ c.key) (now : ℕ) (db : Db) :
    (db.exec now c).1.hashes k = db.hashes k := by
  cases c with
  | hincrby key field n =>
      simp only [Db.exec]
      split
      · rfl
      · split
        · exact Function.update_of_ne h _ _
        · rfl
  | _ => rfl

theorem reply_exec_congr {c : Command} {db db' : Db} (now : ℕ)
    (hstrings : db'.strings c.key = db.strings c.key) (hhashes : db'.hashes c.key = db.hashes c.key) :
    (db'.exec now c).2 = (db.exec now c).2 := by
  have hread : db'.strings.read now c.key = db.strings.read now c.key := Store.read_of_eq hstrings
  cases c with
  | get key => exact congrArg Db.readReply hread
  | hget key field => exact congrArg (fun fields => Db.fieldReply (fields field)) hhashes
  | hincrby key field n =>
      have hfield : db'.hashes key field = db.hashes key field := congrFun hhashes field
      simp only [Db.exec, hfield]
      split
      · rfl
      · split <;> rfl
  | set key value px =>
      have hkey : db'.strings.read now key = db.strings.read now key := hread
      simp only [Db.exec, Store.putIfAbsent, hkey]
      split <;> rfl
  | complete key token =>
      have hkey : db'.strings.read now key = db.strings.read now key := hread
      simp only [Db.exec, Store.removeIf, hkey]
      split <;> rfl
  | renew key token px =>
      have hkey : db'.strings.read now key = db.strings.read now key := hread
      simp only [Db.exec, Store.extendIf, hkey]
      split <;> rfl

theorem leaves_of_ne {c : Command} {k : String} (h : c.key ≠ k) : Leaves c k := by
  intro now db
  refine ⟨strings_exec_of_ne h.symm now db, hashes_exec_of_ne h.symm now db, ?_⟩
  intro db' hsame
  obtain ⟨hstrings, hhashes⟩ := hsame c.key h
  exact reply_exec_congr now hstrings hhashes

/-! ## The commands of a provider -/

namespace KeyRole

inductive OfCall (call : Call) : KeyRole → Prop where
  | recorder : OfCall call recorder
  | counts : OfCall call counts
  | inflight : OfCall call (inflight call.scope)

inductive OfLease : KeyRole → Prop where
  | maxGateways : OfLease maxGateways
  | gateway (slot : ℕ) : OfLease (gateway slot)

end KeyRole

section

variable {p : RedisAdmissionProvider} {Index : Type} {lib : Libraries Index}

theorem role_of_acquires {scope : String} {s : Story} {c : Command} (h : Acquires p scope s c) :
    c.key = p.recorderUrlKey ∨ c.key = p.countsKey ∨ c.key = p.key scope := by
  cases c with
  | get key => exact Or.inl h
  | hget key field => exact Or.inr (Or.inl h)
  | hincrby key field n => exact Or.inr (Or.inl h.1)
  | set key value px =>
      obtain ⟨token, -, hkey, -⟩ := h
      exact Or.inr (Or.inr hkey)
  | complete key token => exact absurd h id
  | renew key token px => exact absurd h id

theorem role_of_issues {call : Call} {s : Story} {c : Command} (h : Issues p s c call) :
    ∃ r, KeyRole.OfCall call r ∧ c.key = r.key p := by
  have hacquires : Acquires p call.scope s c → ∃ r, KeyRole.OfCall call r ∧ c.key = r.key p := by
    intro h
    rcases role_of_acquires h with hkey | hkey | hkey
    · exact ⟨_, .recorder, hkey⟩
    · exact ⟨_, .counts, hkey⟩
    · exact ⟨_, .inflight, hkey⟩
  cases call with
  | tryAcquire scope => exact hacquires h.2
  | tryAcquireRequest scope path => exact hacquires h.2
  | complete ticket =>
      obtain rfl : c = _ := h
      exact ⟨_, .inflight, rfl⟩
  | renew ticket =>
      obtain rfl : c = _ := h
      exact ⟨_, .inflight, rfl⟩
  | owns ticket =>
      obtain rfl : c = _ := h
      exact ⟨_, .inflight, rfl⟩

def Story.next (s : Story) (e : AdmissionEvent Index) : Story := s.after e.1 e.2

theorem role_of_call {call : Call} {tr : List (AdmissionEvent Index)} {c : Command}
    {k : Reply → Prog (redisSig (admissionSig Index)) CallResult}
    (h : Prog.Steps (call.run lib p) tr (.op (.inl c) k)) :
    ∃ r, KeyRole.OfCall call r ∧ c.key = r.key p := by
  have hnext : ∀ (s : Story) (o : (redisSig (admissionSig Index)).Op)
      (x : (redisSig (admissionSig Index)).Ans o),
      (callContract p call).post s o x (s.next ⟨o, x⟩) := fun _ _ _ => rfl
  exact role_of_issues ((meets_call lib p call).steps hnext h).1

/-- `acquire` looks for the recorder exactly if its key check passes. -/
theorem looksUp_iff {scope : String} {quota : Option (String × ℕ)} :
    (∃ tr k, Prog.Steps (acquire lib p scope quota).run tr (.op (.inr .tryLookup) k)) ↔
      p.key scope ≠ p.recorderUrlKey := by
  constructor
  · rintro ⟨tr, k, hsteps⟩ hkey
    have havoids : (acquire lib p scope quota).run.Avoids
        fun o : (redisSig (admissionSig Index)).Op => o = .inr .tryLookup := by
      unfold acquire
      simp only [hkey, if_true]
      refine ⟨Sum.inr_injective.ne AdmissionOp.noConfusion, ?_⟩
      intro participating
      cases participating with
      | false => trivial
      | true => trivial
    exact havoids.of_steps hsteps rfl
  · intro hkey
    have hlooked : Prog.Steps (acquire lib p scope quota).run
        ([⟨.inr .isParticipating, true⟩] ++ ⟨.inr .tryLookup, .ok ()⟩ :: [])
        (guarded (lookup lib p scope quota)).run := steps_acquire hkey
    obtain ⟨k, hsteps⟩ := hlooked.before
    exact ⟨_, k, hsteps⟩

end

/-! ## The commands of the background task -/

/-- What `owned_slot` holds is a `usize`. -/
def Fits (e : Event (redisSig leaseSig)) : Prop :=
  ∀ slot, e = ⟨.inr .ownedSlot, some slot⟩ → slot ≤ usizeMax

def leaseKeys (p : RedisAdmissionProvider) : Contract (redisSig leaseSig) Unit where
  pre _ o := ∀ c, o = .inl c → ∃ r : KeyRole, r.OfLease ∧ r.Used p ∧ c.key = r.key p
  post _ o x _ := Fits ⟨o, x⟩

section

open Lease

variable {p : RedisAdmissionProvider} {token : String} {config : GatewayLeaseConfig}

theorem leaseKeys_local (o : LeaseOp) : (leaseKeys p).pre () (.inr o) := by
  intro c h
  cases h

theorem leaseKeys_slot {c : Command} {slot : ℕ} (hslot : slot ≤ usizeMax)
    (hkey : c.key = slotKey p.keyPrefix slot) : (leaseKeys p).pre () (.inl c) := by
  intro c' h
  obtain rfl := Sum.inl.inj h
  exact ⟨_, .gateway slot, hslot, hkey⟩

theorem parseDigits_le {largest n : ℕ} {bytes : Bytes} (h : parseDigits largest bytes = some n) :
    n ≤ largest := by
  unfold parseDigits at h
  split at h
  · rename_i hfits
    obtain rfl := Option.some.inj h
    exact hfits.2.2
  · cases h

theorem keys_readLimit {Q : Unit → Except AdmissionError ℕ → Prop}
    (hok : ∀ limit ≤ usizeMax, Q () (.ok limit)) (herr : ∀ e, Q () (.error e)) :
    (readLimit (maxGatewaysKey p.keyPrefix)).run.Meets (leaseKeys p) () Q := by
  have hpre : (leaseKeys p).pre () (.inl (.get (maxGatewaysKey p.keyPrefix))) := by
    intro c h
    obtain rfl := Sum.inl.inj h
    exact ⟨_, .maxGateways, trivial, rfl⟩
  unfold readLimit
  rw [meets_bind_ok]
  refine meets_command hpre ?_ fun m _ _ => herr _
  intro v _ _
  cases v with
  | nil => exact hok 0 (Nat.zero_le _)
  | bulkString bytes =>
      dsimp only
      cases hparse : parseDigits usizeMax bytes with
      | some limit => exact hok limit (parseDigits_le hparse)
      | none => exact herr _
  | _ => exact herr _

theorem keys_elect (slots : List ℕ) (hslots : ∀ slot ∈ slots, slot ≤ usizeMax) :
    (elect p.keyPrefix token config slots).run.Meets (leaseKeys p) () fun _ _ => True := by
  induction slots with
  | nil => trivial
  | cons slot rest ih =>
      obtain ⟨hslot, hrest⟩ := List.forall_mem_cons.mp hslots
      unfold elect
      rw [meets_bind_ok]
      refine meets_perform (leaseKeys_local _) fun started _ _ => ?_
      dsimp only
      rw [meets_bind_ok]
      refine meets_perform (leaseKeys_local _) fun _ _ _ => ?_
      dsimp only
      rw [meets_bind_ok]
      refine meets_reserve (leaseKeys_slot hslot rfl) ?_ ?_ fun _ _ _ _ => trivial
      · intro v _ _ _
        simp only [if_true]
        exact meets_perform (leaseKeys_local _) fun _ _ _ => trivial
      · intro _ _
        simp only [Bool.false_eq_true, if_false]
        rw [meets_bind_ok]
        exact meets_perform (leaseKeys_local _) fun _ _ _ => ih hrest

theorem keys_renewOrElect {limit : ℕ} (hlimit : limit ≤ usizeMax) :
    (renewOrElect p.keyPrefix token config limit).run.Meets (leaseKeys p) () fun _ _ => True := by
  unfold renewOrElect
  split
  · exact meets_perform (leaseKeys_local _) fun _ _ _ => trivial
  · rename_i hpos
    rw [meets_bind_ok]
    refine meets_perform (leaseKeys_local _) fun owned _ hfits => ?_
    cases owned with
    | some slot =>
        dsimp only
        rw [meets_bind_ok]
        refine meets_perform (leaseKeys_local _) fun started _ _ => ?_
        dsimp only
        rw [meets_bind_ok]
        refine meets_transition (leaseKeys_slot (hfits slot rfl) rfl) ?_ ?_ fun _ _ _ _ => trivial
        · intro _ _
          simp only [if_true]
          exact meets_perform (leaseKeys_local _) fun _ _ _ => trivial
        · intro _ _
          simp only [Bool.false_eq_true, if_false]
          rw [meets_bind_ok]
          refine meets_perform (leaseKeys_local _) fun _ _ _ => ?_
          exact meets_perform (leaseKeys_local _) fun _ _ _ => trivial
    | none =>
        dsimp only
        rw [meets_bind_ok]
        refine meets_perform (leaseKeys_local _) fun first _ _ => ?_
        apply keys_elect
        intro slot hslot
        have hlt := lt_of_mem_slots hslot (Nat.mod_lt first (Nat.pos_of_ne_zero hpos))
        exact (Nat.le_of_lt hlt).trans hlimit

theorem keys_releaseOutside {limit : ℕ} {owned : Option ℕ} {Q : Unit → Except AdmissionError Unit → Prop}
    (howned : ∀ slot, owned = some slot → slot ≤ usizeMax) (hQ : ∀ r, Q () r) :
    (releaseOutside p.keyPrefix token limit owned).run.Meets (leaseKeys p) () Q := by
  cases owned with
  | none => exact hQ _
  | some slot =>
      simp only [releaseOutside]
      split
      · rw [meets_bind_ok]
        refine meets_perform (leaseKeys_local _) fun _ _ _ => ?_
        dsimp only
        rw [meets_bind_ok]
        refine meets_transition (leaseKeys_slot (howned slot rfl) rfl) ?_ ?_ fun _ _ _ _ => hQ _
        · exact fun _ _ => meets_perform (leaseKeys_local _) fun _ _ _ => hQ _
        · exact fun _ _ => meets_perform (leaseKeys_local _) fun _ _ _ => hQ _
      · exact hQ _

theorem keys_iterate :
    (iterate p.keyPrefix token config).Meets (leaseKeys p) () fun _ _ => True := by
  have hrefresh : (refresh p.keyPrefix token config).run.Meets (leaseKeys p) () fun _ _ => True := by
    unfold refresh
    rw [meets_bind_ok]
    refine keys_readLimit ?_ fun _ => trivial
    intro limit hlimit
    dsimp only
    rw [meets_bind_ok]
    refine meets_perform (leaseKeys_local _) fun owned _ hfits => ?_
    dsimp only
    rw [meets_bind_ok]
    apply keys_releaseOutside
    · rintro slot rfl
      exact hfits slot rfl
    · intro r
      cases r with
      | error e => trivial
      | ok u => exact keys_renewOrElect hlimit
  unfold iterate
  rw [Prog.meets_bind]
  refine hrefresh.mono ?_
  intro _ r _
  cases r with
  | ok u => trivial
  | error e =>
      dsimp only
      rw [Prog.meets_bind]
      exact meets_perform (leaseKeys_local _) fun _ _ _ => trivial

theorem role_of_lease {tr : List (Event (redisSig leaseSig))} {c : Command}
    {k : Reply → Prog (redisSig leaseSig) Unit} (htr : ∀ e ∈ tr, Fits e)
    (h : Prog.Steps (iterate p.keyPrefix token config) tr (.op (.inl c) k)) :
    ∃ r : KeyRole, r.OfLease ∧ r.Used p ∧ c.key = r.key p :=
  (keys_iterate.admitted htr h).1 c rfl

end

/-! ## The command of a policy load -/

section

open PolicyStore

variable {Index : Type} {lib : Libraries Index} {keyPrefix : String}

def PolicyStore.Stage.next (s : PolicyStore.Stage) (e : Event (redisSig (policySig Index))) :
    PolicyStore.Stage := stageTale.after s e.1 e.2

theorem role_of_load {tr : List (Event (redisSig (policySig Index)))} {c : Command}
    {k : Reply → Prog (redisSig (policySig Index)) (Except AdmissionError Unit)}
    (h : Prog.Steps (load lib keyPrefix).run tr (.op (.inl c) k)) :
    c = .get (PolicyStore.key keyPrefix) := by
  have hnext : ∀ (s : PolicyStore.Stage) (o : (redisSig (policySig Index)).Op)
      (x : (redisSig (policySig Index)).Ans o),
      (loadContract lib keyPrefix).post s o x (s.next ⟨o, x⟩) := fun _ _ _ => rfl
  exact (meets_load.steps hnext h).1.2

end

/-! ## Separation -/

/-- No two roles have one key; a provider sends commands for the keys of its roles only, and a
command for the key of one role leaves those of all others alone. -/
theorem key_roles_apart {keyPrefix recorderUrlKey : String} {ttl : ℕ} {p : RedisAdmissionProvider}
    {q : LimitedProvider} {runtime : Bool} {random : Fin (2 ^ 128) × Fin (2 ^ 128)}
    {config : GatewayLeaseConfig}
    (h : RedisAdmissionProvider.withTtl keyPrefix recorderUrlKey ttl = .ok p)
    (hlimit : (LimitedProvider.ofProvider p).withGatewayLimit runtime random config = .ok q) :
    (∀ r r' : KeyRole, r.Used q.toRedisAdmissionProvider → r'.Used q.toRedisAdmissionProvider →
      r.key q.toRedisAdmissionProvider = r'.key q.toRedisAdmissionProvider → r = r') ∧
    (∀ (r r' : KeyRole) (c : Command), r.Used q.toRedisAdmissionProvider →
      r'.Used q.toRedisAdmissionProvider → c.key = r.key q.toRedisAdmissionProvider → r ≠ r' →
      Leaves c (r'.key q.toRedisAdmissionProvider)) ∧
    (∀ (Index : Type) (lib : Libraries Index) (scope : String) (quota : Option (String × ℕ)),
      (∃ tr k, Prog.Steps (acquire lib q.toRedisAdmissionProvider scope quota).run tr
        (.op (.inr .tryLookup) k)) ↔ (KeyRole.inflight scope).Used q.toRedisAdmissionProvider) ∧
    (∀ (Index : Type) (lib : Libraries Index) (call : Call) (tr : List (AdmissionEvent Index))
      (c : Command) (k : Reply → Prog (redisSig (admissionSig Index)) CallResult),
      (KeyRole.inflight call.scope).Used q.toRedisAdmissionProvider →
      Prog.Steps (call.run lib q.toRedisAdmissionProvider) tr (.op (.inl c) k) →
      ∃ r, KeyRole.OfCall call r ∧ r.Used q.toRedisAdmissionProvider ∧
        c.key = r.key q.toRedisAdmissionProvider) ∧
    (∃ task, q.participation = some task ∧ ∀ (tr : List (Event (redisSig leaseSig))) (c : Command)
      (k : Reply → Prog (redisSig leaseSig) Unit), (∀ e ∈ tr, Fits e) →
      Prog.Steps (Lease.iterate q.keyPrefix task.token task.config) tr (.op (.inl c) k) →
      ∃ r : KeyRole, r.OfLease ∧ r.Used q.toRedisAdmissionProvider ∧
        c.key = r.key q.toRedisAdmissionProvider) ∧
    ∀ (Index : Type) (lib : Libraries Index)
      (tr : List (Event (redisSig (PolicyStore.policySig Index)))) (c : Command)
      (k : Reply → Prog (redisSig (PolicyStore.policySig Index)) (Except AdmissionError Unit)),
      Prog.Steps (PolicyStore.load lib q.keyPrefix).run tr (.op (.inl c) k) →
      c = .get (KeyRole.policy.key q.toRedisAdmissionProvider) := by
  have hq : RecorderApart q.toRedisAdmissionProvider := recorderApart_of_withGatewayLimit h hlimit
  refine ⟨?_, ?_, ?_, ?_, ?_, ?_⟩
  · intro r r' hused hused' hkey
    exact KeyRole.key_injective hq hused hused' hkey
  · intro r r' c hused hused' hkey hne
    apply leaves_of_ne
    intro hsame
    exact hne (KeyRole.key_injective hq hused hused' (hkey.symm.trans hsame))
  · intro Index lib scope quota
    exact looksUp_iff
  · intro Index lib call tr c k hscope hsteps
    obtain ⟨r, hr, hkey⟩ := role_of_call hsteps
    refine ⟨r, hr, ?_, hkey⟩
    cases hr with
    | recorder => trivial
    | counts => trivial
    | inflight => exact hscope
  · obtain ⟨task, htask⟩ := participation_of_withGatewayLimit hlimit
    exact ⟨task, htask, fun tr c k htr hsteps => role_of_lease htr hsteps⟩
  · intro Index lib tr c k hsteps
    exact role_of_load hsteps

/-- A provider whose prefix and recorder key look like slots. -/
theorem key_roles_apart_nested :
    ∃ q : LimitedProvider,
      (LimitedProvider.ofProvider ⟨"a:gateway:", "a:gateway::gateway:x", 1⟩).withGatewayLimit true
        (0, 0) (.new "g") = .ok q ∧
      (KeyRole.gateway 7).key q.toRedisAdmissionProvider ≠
        KeyRole.recorder.key q.toRedisAdmissionProvider ∧
      (KeyRole.inflight ":gateway:7").key q.toRedisAdmissionProvider ≠
        (KeyRole.gateway 7).key q.toRedisAdmissionProvider := by
  have hp : RedisAdmissionProvider.withTtl "a:gateway:" "a:gateway::gateway:x" 1000000 =
      .ok ⟨"a:gateway:", "a:gateway::gateway:x", 1⟩ := rfl
  obtain ⟨q, hprovider, hq⟩ : ∃ q : LimitedProvider,
      q.toRedisAdmissionProvider = ⟨"a:gateway:", "a:gateway::gateway:x", 1⟩ ∧
      (LimitedProvider.ofProvider ⟨"a:gateway:", "a:gateway::gateway:x", 1⟩).withGatewayLimit true
        (0, 0) (.new "g") = .ok q := ⟨_, rfl, rfl⟩
  have hseven : (KeyRole.gateway 7).Used q.toRedisAdmissionProvider :=
    (by decide : (7 : ℕ) ≤ usizeMax)
  have hscope : (KeyRole.inflight ":gateway:7").Used q.toRedisAdmissionProvider := by
    rw [hprovider]
    simp [KeyRole.Used, RedisAdmissionProvider.key]
  obtain ⟨hkeys, -⟩ := key_roles_apart hp hq
  refine ⟨q, hq, ?_, ?_⟩
  · intro hkey
    cases hkeys (.gateway 7) .recorder hseven trivial hkey
  · intro hkey
    cases hkeys (.inflight ":gateway:7") (.gateway 7) hscope hseven hkey

end BreezeGateway
