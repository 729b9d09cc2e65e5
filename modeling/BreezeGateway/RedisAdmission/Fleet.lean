import BreezeGateway.Effects.Parallel
import BreezeGateway.RedisAdmission.Participation
import BreezeGateway.RedisAdmission.PolicyLoads
import BreezeGateway.RedisAdmission.Registration
import BreezeGateway.RedisAdmission.SlotLock

/-!
# One installation

All gateways that share a key prefix, with their lease tasks, policy loads and admissions, and the
recorders that register for them, on one Redis.  Participation and policy are no inputs of an
admission here: it is told what the lease task and the policy store of its own gateway say.
-/

namespace BreezeGateway

open Effects Effects.Network Lease RedisAdmissionProvider

/-! ## Keys that a network does not write -/

theorem strings_of_not_slotKey {c : Command} {key : String} {now : ℕ} {db : Db}
    (h : slotKeyOf c ≠ some key) : (db.exec now c).1.strings key = db.strings key := by
  cases c with
  | get k => rfl
  | hget k field => rfl
  | hincrby k field n => exact congrFun strings_hincrby _
  | _ =>
      apply strings_exec_of_ne
      rintro rfl
      exact h rfl

section

variable {L : Sig} {Mem T Lane Kind α : Type} [DecidableEq T] [DecidableEq Lane]
  {N : Network Command Reply L Db Mem T Lane Kind α} {w₀ w w' : World Command Reply L Db Mem T Lane α}
  {ls : History Command Reply L T Kind α} {l : Label Command Reply L T Kind α}

theorem db_of_own (hstep : N.Step w l w') (hl : l.own) (hexecuted : executed l = none) :
    w'.db = w.db := by
  cases hstep with
  | environment h => exact hl.elim
  | exec hth hlane => cases hexecuted
  | stray hlane => cases hexecuted
  | fail hth hwire h => simp
  | cancel hth ho => rw [World.abandonOp_db, World.setThread_db]
  | _ => rfl

/-- An executed command was sent by a program. -/
theorem issued_of_executed {P : T → Command → Prop} (hempty : ∀ lane, w₀.strays lane = [])
    (hthreads : ∀ {ls w t c k wire}, N.Run w₀ ls w →
      w.threads t = some ⟨.op (.inl c) k, wire⟩ → P t c)
    (hrun : N.Run w₀ ls w) (hstep : N.Step w l w') {c : Command} {r : Reply}
    (h : executed l = some (c, r)) : ∃ t, P t c := by
  cases hstep with
  | @exec t c' k hth hlane =>
      obtain ⟨rfl, -⟩ := Prod.mk.inj (Option.some.inj h)
      exact ⟨t, hthreads hrun hth⟩
  | @stray lane t c' cs hlane =>
      obtain ⟨rfl, -⟩ := Prod.mk.inj (Option.some.inj h)
      have hmem : (t, c') ∈ w.strays lane := by
        rw [hlane]
        exact List.mem_cons_self
      exact ⟨t, hrun.strays_of_threads hempty hthreads hmem⟩
  | _ => cases h

/-- A key that no program of the network writes stays as it is. -/
theorem strings_of_own {P : T → Command → Prop} {key : String} (hexec : N.exec = Db.exec)
    (hempty : ∀ lane, w₀.strays lane = [])
    (hthreads : ∀ {ls w t c k wire}, N.Run w₀ ls w →
      w.threads t = some ⟨.op (.inl c) k, wire⟩ → P t c)
    (hwrites : ∀ t c, P t c → slotKeyOf c ≠ some key) (hrun : N.Run w₀ ls w) (hstep : N.Step w l w')
    (hl : l.own) : w'.db.strings key = w.db.strings key := by
  cases he : executed l with
  | none => rw [db_of_own hstep hl he]
  | some e =>
      obtain ⟨c, r⟩ := e
      obtain ⟨t, ht⟩ := issued_of_executed hempty hthreads hrun hstep he
      obtain ⟨-, hdb, -⟩ := exec_of_executed hexec hstep he
      rw [hdb]
      exact strings_of_not_slotKey (hwrites t c ht)

end

/-! ## The installation -/

/-- Gateways with one key prefix and one recorder key.  The recorder key is apart from the slots of
gateways and of scopes, as `with_gateway_limit` and `acquire` check. -/
structure Fleet (Index G T U R V : Type) where
  lib : RegistrationLibraries Index
  keyPrefix : String
  recorderKey : String
  task : G → GatewayTask
  ttlMs : G → ℕ
  gateway : T → G
  call : T → Call
  registrar : R → Registrar lib recorderKey
  registration : U → RegistrationCall R
  tokens : Function.Injective fun g => (task g).token
  owners : Function.Injective fun r => hex32 (registrar r).owner
  recorder_slot : ∀ slot, recorderKey ≠ slotKey keyPrefix slot
  recorder_scope : ∀ t, recorderKey ≠ keyPrefix ++ ":inflight:" ++ (call t).scope

inductive FleetParty (G : Type) where
  | leases
  | admissions
  | loads (g : G)
  | recorders
deriving DecidableEq

namespace Fleet

variable {Index G T U R V : Type} [DecidableEq G] [DecidableEq T] [DecidableEq U] [DecidableEq V]
  (F : Fleet Index G T U R V)

def provider (g : G) : RedisAdmissionProvider := ⟨F.keyPrefix, F.recorderKey, F.ttlMs g⟩

def scopeKey (scope : String) : String := F.keyPrefix ++ ":inflight:" ++ scope

/-- The slots of all scopes that are called for. -/
def scopesUntouched (_ : ℕ) (db db' : Db) : Prop :=
  ∀ t, db'.strings (F.scopeKey (F.call t).scope) = db.strings (F.scopeKey (F.call t).scope)

def deployment : Deployment Index T G T where
  lib := F.lib.toLibraries
  family := F.gateway
  provider := F.provider
  call := F.call
  lane := id
  others := F.scopesUntouched
  garbled := Malformed
  policies _ := True
  fresh := True

def registrations : RegistrationDeployment F.lib R U U where
  key := F.recorderKey
  registrar := F.registrar
  call := F.registration
  lane := id
  others _ db db' := db'.strings F.recorderKey = db.strings F.recorderKey

def leaseParty : Party Command Reply Db where
  L := leaseSig
  Mem := G → LeaseState
  T := G
  Lane := G
  Kind := LeaseEnd
  α := Unit
  net := leaseNetwork F.keyPrefix F.task (slotsUntouched F.keyPrefix)

def admissionParty : Party Command Reply Db where
  L := admissionSig Index
  Mem := AdmissionMemory T G
  T := T
  Lane := T
  Kind := Unit
  α := CallResult
  net := F.deployment.network

def loadParty : Party Command Reply Db where
  L := PolicyStore.policySig Index
  Mem := PolicyMemory Index V
  T := V
  Lane := V
  Kind := LoadCut
  α := Except AdmissionError Unit
  net := loadNetwork F.lib.toLibraries F.keyPrefix id

def recorderParty : Party Command Reply Db where
  L := noSig
  Mem := Unit
  T := U
  Lane := U
  Kind := Unit
  α := RegistrationResult
  net := F.registrations.network

def parties : FleetParty G → Party Command Reply Db
  | .leases => F.leaseParty
  | .admissions => F.admissionParty
  | .loads _ => F.loadParty
  | .recorders => F.recorderParty

abbrev Installation := Joint F.parties

variable {F}

/-- The lease states of the gateways. -/
def lease (j : F.Installation) : G → LeaseState := (j.share .leases).mem

/-- The policy store of a gateway. -/
def policy (j : F.Installation) (g : G) : PolicySnapshot Index :=
  PolicyMemory.snapshot (T := V) (j.share (.loads g)).mem

/-- What an admission is told by the lease task and the policy store of its gateway. -/
def Informed (j : F.Installation) : AdmissionLabel Index T → Prop
  | .act t .isParticipating x => x = (lease j (F.gateway t)).isValid j.now
  | .act t .snapshot x => x = (policy j (F.gateway t)).policy
  | _ => True

def guard (j : F.Installation) : ∀ i, (F.parties i).Label → Prop
  | .admissions, l => Informed j l
  | _, _ => True

/-- Everybody else may set the limit, the policy and the counts. -/
def outside (F : Fleet Index G T U R V) (now : ℕ) (db db' : Db) : Prop :=
  slotsUntouched F.keyPrefix now db db' ∧ F.scopesUntouched now db db' ∧
    db'.strings F.recorderKey = db.strings F.recorderKey

variable (F) in
def installation : Composition Command Reply Db (FleetParty G) where
  parties := F.parties
  outside := F.outside
  guard := guard

/-- Nothing runs yet, and no slot holds a token that is still to be drawn. -/
structure Idle (j : F.Installation) : Prop where
  leases : LeaseStart F.keyPrefix F.task (Composition.view (Y := F.installation) j .leases)
  admissions : Quiet (Composition.view (Y := F.installation) j .admissions :
    AdmissionWorld Index T G T)
  loads : ∀ g, Fresh (Composition.view (Y := F.installation) j (.loads g) : LoadWorld Index V V)
  lost : ∀ g v, (Composition.view (Y := F.installation) j (.loads g) : LoadWorld Index V V).strays v = []
  recorders : ∀ u, (Composition.view (Y := F.installation) j .recorders :
    RegistrationDeployment.RegistrationWorld U U).threads u = none
  unsent : ∀ u, (Composition.view (Y := F.installation) j .recorders :
    RegistrationDeployment.RegistrationWorld U U).strays u = []

/-! ## What each party writes -/

omit [DecidableEq G] [DecidableEq T] [DecidableEq U] [DecidableEq V] in
theorem scopeKey_ne_slot (scope : String) (slot : ℕ) :
    slotKey F.keyPrefix slot ≠ F.scopeKey scope := by
  intro h
  have hroles : (KeyRole.gateway slot).key ⟨F.keyPrefix, F.recorderKey, 0⟩ =
      (KeyRole.inflight scope).key ⟨F.keyPrefix, F.recorderKey, 0⟩ := h
  rw [KeyRole.key_eq (by simp), KeyRole.key_eq (by simp)] at hroles
  cases KeyRole.suffix_injective ((String.append_right_inj _).mp hroles)

variable {j₀ j : F.Installation}

theorem leases_write (hidle : Idle j₀) {ls : LeaseHistory G} {w w' : LeaseWorld G}
    {l : Label Command Reply leaseSig G LeaseEnd Unit} {key : String}
    (hkey : ∀ slot, slotKey F.keyPrefix slot ≠ key)
    (hrun : (leaseNetwork F.keyPrefix F.task (slotsUntouched F.keyPrefix)).Run
      (Composition.view (Y := F.installation) j₀ .leases) ls w)
    (hstep : (leaseNetwork F.keyPrefix F.task (slotsUntouched F.keyPrefix)).Step w l w')
    (hl : l.own) : w'.db.strings key = w.db.strings key := by
  refine strings_of_own (P := fun g c => ∃ owned, Aims F.keyPrefix (F.task g) owned c) rfl
    hidle.leases.strays ?_ ?_ hrun hstep hl
  · intro ls w g c k wire hrun hth
    have hsound := leaseNetwork_sound True F.tokens
      fun _ _ _ g (h : slotsUntouched F.keyPrefix _ _ _) => h.undisturbed (F.task g)
    obtain ⟨view, -, hkeeps⟩ := hrun.guarantee (fun _ => firstView) hsound hidle.leases.tracked
      (keeps_of_quiet hidle.leases.threads _)
    exact ⟨_, (hkeeps g _ hth).1.1⟩
  · rintro g c ⟨owned, haims⟩ hslot
    cases c with
    | set k value px =>
        obtain ⟨slot, -, rfl, -⟩ := haims
        exact hkey slot (Option.some.inj hslot)
    | complete k value =>
        obtain ⟨slot, -, rfl, -⟩ := haims
        exact hkey slot (Option.some.inj hslot)
    | renew k value px =>
        obtain ⟨slot, -, rfl, -⟩ := haims
        exact hkey slot (Option.some.inj hslot)
    | _ => cases hslot

theorem admissions_write (hidle : Idle j₀) {ls : AdmissionHistory Index T}
    {w w' : AdmissionWorld Index T G T} {l : AdmissionLabel Index T} {key : String}
    (hkey : ∀ t, F.scopeKey (F.call t).scope ≠ key)
    (hrun : F.deployment.network.Run (Composition.view (Y := F.installation) j₀ .admissions) ls w)
    (hstep : F.deployment.network.Step w l w') (hl : l.own) :
    w'.db.strings key = w.db.strings key := by
  refine strings_of_own
    (P := fun t c => ∃ s, Issues (F.provider (F.gateway t)) s c (F.call t)) rfl
    hidle.admissions.strays ?_ ?_ hrun hstep hl
  · intro ls w t c k wire hrun hth
    exact ⟨_, (F.deployment.obeys hidle.admissions hrun hth).1⟩
  · rintro t c ⟨s, hissues⟩ hslot
    apply hkey t
    apply Option.some.inj
    rw [← hslot]
    have hset : ∀ scope, Acquires (F.provider (F.gateway t)) scope s c → slotKeyOf c = some key →
        slotKeyOf c = some (F.scopeKey scope) := by
      intro scope h hslot
      cases c with
      | set k value px =>
          obtain ⟨token, -, rfl, -⟩ := h
          rfl
      | complete k token => exact h.elim
      | renew k token px => exact h.elim
      | _ => cases hslot
    revert hissues
    cases F.call t with
    | tryAcquire scope => exact fun h => (hset scope h.2 hslot).symm
    | tryAcquireRequest scope path => exact fun h => (hset scope h.2 hslot).symm
    | complete ticket =>
        rintro rfl
        rfl
    | renew ticket =>
        rintro rfl
        rfl
    | owns ticket =>
        rintro rfl
        cases hslot

theorem loads_write (hidle : Idle j₀) {g : G} {ls : LoadHistory Index V} {w w' : LoadWorld Index V V}
    {l : LoadLabel Index V} {key : String}
    (hrun : (loadNetwork F.lib.toLibraries F.keyPrefix id).Run
      (Composition.view (Y := F.installation) j₀ (.loads g)) ls w)
    (hstep : (loadNetwork F.lib.toLibraries F.keyPrefix id).Step w l w') (hl : l.own) :
    w'.db.strings key = w.db.strings key := by
  refine strings_of_own (P := fun _ c => c = .get (PolicyStore.key F.keyPrefix)) rfl (hidle.lost g)
    ?_ ?_ hrun hstep hl
  · intro ls w v c k wire hrun hth
    exact (load_obeys (hidle.loads g) hrun hth).1.2
  · rintro v c rfl hslot
    cases hslot

variable (F) in
/-- The command of a registration call. -/
def Sends (u : U) (c : Command) : Prop := c = F.registrations.command (F.registration u)

theorem recorders_write (hidle : Idle j₀) {ls : RegistrationDeployment.RegistrationHistory U}
    {w w' : RegistrationDeployment.RegistrationWorld U U}
    {l : RegistrationDeployment.RegistrationLabel U} {key : String} (hkey : F.recorderKey ≠ key)
    (hrun : F.registrations.network.Run (Composition.view (Y := F.installation) j₀ .recorders) ls w)
    (hstep : F.registrations.network.Step w l w') (hl : l.own) :
    w'.db.strings key = w.db.strings key := by
  refine strings_of_own (P := F.Sends) rfl hidle.unsent ?_ ?_ hrun hstep hl
  · intro ls w u c k wire hrun hth
    refine obeys_sendsOnly ?_ hidle.recorders hrun hth
    rintro now mem t p mem' rfl
    exact RegistrationDeployment.run_sendsOnly _
  · rintro u c rfl hslot
    cases hcall : F.registration u with
    | lookup =>
        rw [hcall] at hslot
        cases hslot
    | _ =>
        rw [hcall] at hslot
        exact hkey (Option.some.inj hslot)

/-- No party writes what another one relies on. -/
theorem compatible (hidle : Idle j₀) : F.installation.Compatible j₀ where
  outside i now db db' h := by
    obtain ⟨hslots, hscopes, hrecorder⟩ := h
    cases i with
    | leases => exact hslots
    | admissions => exact hscopes
    | loads g => exact trivial
    | recorders => exact hrecorder
  parties k i hne ls w l w' hrun hstep hl := by
    cases k with
    | leases =>
        cases i with
        | leases => exact absurd rfl hne
        | admissions => exact fun t => leases_write hidle (scopeKey_ne_slot _) hrun hstep hl
        | loads g => exact trivial
        | recorders =>
            exact leases_write hidle (fun slot => (F.recorder_slot slot).symm) hrun hstep hl
    | admissions =>
        cases i with
        | leases =>
            exact fun slot => admissions_write hidle (fun t => (scopeKey_ne_slot _ slot).symm) hrun
              hstep hl
        | admissions => exact absurd rfl hne
        | loads g => exact trivial
        | recorders =>
            exact admissions_write hidle (fun t => (F.recorder_scope t).symm) hrun hstep hl
    | loads g =>
        cases i with
        | leases => exact fun slot => loads_write hidle hrun hstep hl
        | admissions => exact fun t => loads_write hidle hrun hstep hl
        | loads g' => exact trivial
        | recorders => exact loads_write hidle hrun hstep hl
    | recorders =>
        cases i with
        | leases => exact fun slot => recorders_write hidle (F.recorder_slot slot) hrun hstep hl
        | admissions => exact fun t => recorders_write hidle (F.recorder_scope t) hrun hstep hl
        | loads g => exact trivial
        | recorders => exact absurd rfl hne

end Fleet

end BreezeGateway
