import BreezeGateway.RedisAdmission.Election
import BreezeGateway.RedisAdmission.Fleet
import BreezeGateway.RedisAdmission.LoneAdmission

/-!
# What stands behind a ticket

A ticket that any gateway of an installation hands out is traced back through all parties: to the
recorder that registered its origin, to the `SET` that found the slot free, to the published policy
that admits the path, and to the slot that the gateway holds at its last check.
-/

namespace BreezeGateway

open Effects Effects.Network Lease RedisAdmissionProvider

/-! ## The last check of an admission -/

section

variable {Index T F Lane : Type} [DecidableEq T] [DecidableEq F] [DecidableEq Lane]
  {D : Deployment Index T F Lane} {w₀ w : AdmissionWorld Index T F Lane} {t : T} {τ : ℕ}
  {pre post : AdmissionHistory Index T} {ticket : AdmissionTicket}

omit [DecidableEq T] [DecidableEq F] [DecidableEq Lane] in
theorem Begun.policy {lib : Libraries Index} {p : RedisAdmissionProvider} {call : Call}
    {quota : Option (String × ℕ)} {tr : List (AdmissionEvent Index)} (h : Begun lib p call quota tr)
    {scope path : String} (hcall : call = .tryAcquireRequest scope path) :
    ∃ policy api, (⟨.inr .snapshot, some policy⟩ : AdmissionEvent Index) ∈ tr ∧
      policy.api lib path = some api := by
  obtain ⟨⟨opening, ⟨rest, rfl⟩, hopened⟩, -⟩ := h
  cases hopened with
  | lockOnly => cases hcall
  | @eligible scope' path' api policy hapi =>
      cases hcall
      exact ⟨policy, api, by simp, hapi⟩

/-- Participation is confirmed once more after all that a ticket rests on. -/
theorem acquired_confirmed (hgarbled : ∀ c r, D.garbled c r → Malformed c r) (hquiet : Quiet w₀)
    (hrun : D.network.Run w₀ (pre ++ (τ, .finish t (.outcome (.ok (.acquired ticket)))) :: post) w) :
    ∃ a σ b ρ d, pre = a ++ (σ, .launch t) :: (b ++ (ρ, .act t .isParticipating true) :: d) ∧
      Ongoing t (b ++ (ρ, .act t .isParticipating true) :: d) ∧
      Warranted D w₀ t (a ++ [(σ, .launch t)]) b (.acquired ticket) ∧
      ∀ scope path, D.call t = .tryAcquireRequest scope path → ∃ policy api u,
        ActedAt D w₀ t (a ++ [(σ, .launch t)]) b .snapshot (some policy) u ∧
          policy.api D.lib path = some api := by
  obtain ⟨a, σ, b, rfl, hongoing, v, mem, p, -, -, hlaunch, hsteps⟩ := hrun.finished hquiet.threads
  obtain ⟨-, rfl⟩ := hlaunch
  have hcall : (D.call t).isAcquire = true := answered_of_runs hsteps
  obtain ⟨quota, tr, hreached, htr⟩ : Completed _ _ _ _ _ := reason_of_runs hcall hsteps
  obtain ⟨b₁, ⟨ρ, l⟩, b₂, rfl, rfl, hl, -⟩ := transcript_split htr
  rcases answeredBy_eq_some hl with ⟨o, x, rfl, hevent⟩ | ⟨c, r, -, hevent⟩
  · cases hevent
    have hbefore : D.network.Run w₀ (a ++ (σ, .launch t) :: b₁ ++
        ((ρ, .act t .isParticipating true) :: b₂ ++
          (τ, .finish t (.outcome (.ok (.acquired ticket)))) :: post)) w := by
      simpa using hrun
    refine ⟨a, σ, b₁, ρ, b₂, rfl, hongoing,
      warranted_of_acquired hgarbled hquiet hbefore hreached.shown, ?_⟩
    intro scope path hrequest
    obtain ⟨policy, api, hmem, hapi⟩ := hreached.begun.policy hrequest
    obtain ⟨u, hu⟩ := actedAt_of_mem hbefore hmem
    exact ⟨policy, api, u, hu, hapi⟩
  · cases hevent

end

/-! ## What replies tell -/

section

variable {now now' : ℕ} {db db' : Db} {key : String} {value : Bytes} {px : ℕ}

theorem read_eq_of_reply (h : (db.exec now (.get key)).2 = (db'.exec now' (.get key)).2) :
    db.strings.read now key = db'.strings.read now' key := by
  simp only [Db.exec] at h
  cases hread : db.strings.read now key with
  | none =>
      cases hread' : db'.strings.read now' key with
      | none => rfl
      | some bytes =>
          rw [hread, hread'] at h
          cases h
  | some bytes =>
      cases hread' : db'.strings.read now' key with
      | none =>
          rw [hread, hread'] at h
          cases h
      | some bytes' =>
          rw [hread, hread'] at h
          cases h
          rfl

theorem set_reply : (db.exec now (.set key value px)).2 =
    Db.setReply (decide (db.strings.read now key = none)) := by
  simp only [Db.exec]
  cases hput : (db.strings.putIfAbsent now key value (now + millis px)).2 with
  | true => simp [(Store.putIfAbsent_true hput).1]
  | false => simp [(Store.putIfAbsent_false hput).1]

theorem free_of_reply
    (h : (db.exec now (.set key value px)).2 = (db'.exec now' (.set key value px)).2)
    (hfree : db'.strings.read now' key = none) : db.strings.read now key = none := by
  rw [set_reply, set_reply, hfree, decide_eq_true rfl] at h
  exact of_decide_eq_true (setReply_inj h)

end

/-! ## What the recorder key reads as -/

namespace RegistrationDeployment

variable {Index G T Lane : Type} {lib : RegistrationLibraries Index}
  {D : RegistrationDeployment lib G T Lane} {call : RegistrationCall G} {op : LockOp Bytes}
  {bytes : Bytes} {ttl : ℕ}

theorem value_of_grants (hop : lockOp D.key (D.command call) = some op) (hgrants : op.Grants bytes ttl) :
    ∃ g, bytes = D.value g := by
  cases call with
  | register g =>
      rw [command, lockOp_set] at hop
      cases hop
      cases hgrants
      exact ⟨g, rfl⟩
  | renew g =>
      rw [command, lockOp_renew] at hop
      cases hop
      cases hgrants
      exact ⟨g, rfl⟩
  | unregister g =>
      rw [command, lockOp_complete] at hop
      cases hop
      cases hgrants
  | lookup =>
      rw [command, lockOp_get] at hop
      cases hop
      cases hgrants

variable [DecidableEq T] [DecidableEq Lane] {w₀ w : RegistrationWorld T Lane}
  {ls : RegistrationHistory T}

/-- Whatever the key reads as was put there by a registration. -/
theorem value_of_read (hothers : ∀ now db db', D.others now db db' →
      db'.strings D.key = db.strings D.key)
    (hidle : ∀ t, w₀.threads t = none) (hempty : ∀ lane, w₀.strays lane = [])
    (hrecorded : ∀ bytes, w₀.db.strings.read w₀.now D.key = some bytes → ∃ g, bytes = D.value g)
    (hrun : D.network.Run w₀ ls w) (hread : w.db.strings.read w.now D.key = some bytes) :
    ∃ g, bytes = D.value g := by
  rcases (lock_read (N := D.network) rfl hothers hrun bytes).mp hread with
    ⟨τ, op, ttl, ⟨h, h', hhistory, -⟩, hgrants, -⟩ | ⟨-, hread₀⟩
  · have hmem : (τ, op, LockAnswer.done true) ∈ lockHistory D.key ls := by
      rw [hhistory]
      simp
    obtain ⟨x, hx, hevent⟩ := List.mem_filterMap.mp hmem
    obtain ⟨c, r, hexecuted, hop, -⟩ := lockEvent_eq_some hevent
    obtain ⟨call, rfl⟩ := executed_command hidle hempty hrun hx hexecuted
    exact value_of_grants hop hgrants
  · exact hrecorded bytes (Store.read_of_le hread₀ hrun.now_le)

end RegistrationDeployment

namespace Fleet

variable {Index G T U R V : Type} [DecidableEq G] [DecidableEq T] [DecidableEq U] [DecidableEq V]
  {F : Fleet Index G T U R V} {j₀ j : F.Installation} {t : T} {ls a b : F.installation.History}

/-! ## Moments of a run -/

/-- Redis executed the command for the call `t` in state `u`, after `a` and within `b`. -/
def ExecutedIn (j₀ : F.Installation) (a b : F.installation.History) (t : T) (c : Command)
    (u : F.Installation) : Prop :=
  ∃ b₁ b₂, b = b₁ ++ (u.now, .own .admissions (.exec t c (u.db.exec u.now c).2)) :: b₂ ∧
    F.installation.Run j₀ (a ++ b₁) u

theorem executedIn_of_executedAt {c : Command} {w₀ v : AdmissionWorld Index T G T}
    {a' : AdmissionHistory Index T} (hrun : F.installation.Run j₀ (a ++ b) j)
    (h : ExecutedAt F.deployment w₀ t a' (Composition.part (Y := F.installation) .admissions b) c v) :
    ∃ u, ExecutedIn j₀ a b t c u ∧ u.now = v.now ∧
      (u.db.exec u.now c).2 = (v.db.exec v.now c).2 := by
  obtain ⟨b₁', b₂', hb, -⟩ := h
  obtain ⟨b₁, b₂, u, w, rfl, -, hu, hnow, hstep, -⟩ := hrun.own_within hb trivial
  obtain ⟨-, -, hreply⟩ := exec_of_executed (N := F.deployment.network) rfl hstep rfl
  have hreply' : (v.db.exec v.now c).2 = (u.db.exec u.now c).2 := hreply
  exact ⟨u, ⟨b₁, b₂, by rw [← hreply', hnow]; rfl, hu⟩, hnow, hreply'.symm⟩

theorem informed_of_actedAt {o : AdmissionOp} {x : (admissionSig Index).Ans o}
    {w₀ v : AdmissionWorld Index T G T} {a' : AdmissionHistory Index T}
    (hrun : F.installation.Run j₀ (a ++ b) j)
    (h : ActedAt F.deployment w₀ t a' (Composition.part (Y := F.installation) .admissions b) o x v) :
    ∃ b₁ b₂ u, b = b₁ ++ (u.now, .own .admissions (.act t o x)) :: b₂ ∧
      F.installation.Run j₀ (a ++ b₁) u ∧ Informed u (.act t o x) := by
  obtain ⟨b₁', b₂', mem, hb, -, -⟩ := h
  obtain ⟨b₁, b₂, u, w, rfl, -, hu, hnow, -, hguard⟩ := hrun.own_within hb trivial
  exact ⟨b₁, b₂, u, by rw [hnow]; rfl, hu, hguard⟩

/-! ## What the parties guarantee -/

variable (F) in
/-- Before the run the recorder key holds nothing but registrations. -/
def Recorded (j₀ : F.Installation) : Prop :=
  ∀ bytes, j₀.db.strings.read j₀.now F.recorderKey = some bytes → ∃ r, bytes = F.registrations.value r

theorem registered_of_read (hidle : Idle j₀) (hrecorded : Recorded F j₀)
    (hrun : F.installation.Run j₀ ls j) {bytes : Bytes}
    (hread : j.db.strings.read j.now F.recorderKey = some bytes) :
    ∃ r, bytes = F.registrations.value r :=
  RegistrationDeployment.value_of_read (D := F.registrations) (fun _ _ _ h => h) hidle.recorders
    hidle.unsent hrecorded (hrun.part (compatible hidle) .recorders) hread

/-- The gateway holds a slot of its own, and no more gateways are eligible than the largest limit
that was read. -/
structure Participating (ls : F.installation.History) (j : F.Installation) (g : G) : Prop where
  holds : ∃ slot deadline, (lease j g).ownedSlot = some slot ∧
    (lease j g).validUntil = some deadline ∧ j.now < deadline ∧
    j.db.strings.Until (slotKey F.keyPrefix slot) (utf8 (F.task g).token) deadline
  alone : ∀ g', (lease j g').isValid j.now = true → (lease j g').ownedSlot = (lease j g).ownedSlot →
    g' = g
  bounded : ∀ eligible : Finset G, (∀ g ∈ eligible, (lease j g).isValid j.now = true) →
    eligible.card ≤ largestLimit (Composition.part (Y := F.installation) .leases ls)

theorem participating_of_valid (hidle : Idle j₀) (hrun : F.installation.Run j₀ ls j) {g : G}
    (hvalid : (lease j g).isValid j.now = true) : Participating ls j g := by
  obtain ⟨hholds, hunique, hbound⟩ :=
    participation_exclusive F.tokens hidle.leases (hrun.part (compatible hidle) .leases)
  obtain ⟨slot, deadline, hslot, hdeadline, -, huntil⟩ := hholds g hvalid
  obtain ⟨deadline', hdeadline', hnow⟩ := LeaseState.isValid_iff.mp hvalid
  obtain rfl : deadline = deadline' := Option.some.inj (hdeadline.symm.trans hdeadline')
  exact ⟨⟨slot, deadline, hslot, hdeadline, hnow, huntil⟩,
    fun g' hvalid' hsame => hunique g' g hvalid' hvalid hsame, hbound⟩

/-- A policy that admissions are told of is the compilation of what Redis held. -/
theorem published_of_policy (hidle : Idle j₀) (hrun : F.installation.Run j₀ ls j) {g : G}
    {compiled : CompiledPolicy Index} (h : (policy j g).policy = some compiled) :
    ∃ raw, PolicyStore.compileRaw F.lib.toLibraries raw = .ok compiled ∧
      Answered F.keyPrefix raw (Composition.part (Y := F.installation) (.loads g) ls) := by
  have hvalid := (policy_snapshots (hidle.loads g) (hrun.part (compatible hidle) (.loads g))).1
  rcases hvalid with hinitial | ⟨raw, compiled', hsnapshot, hcompile, hraw⟩
  · change policy j g = PolicyStore.initial at hinitial
    rw [hinitial] at h
    cases h
  · change policy j g = ⟨raw, some compiled'⟩ at hsnapshot
    rw [hsnapshot] at h
    cases h
    exact ⟨raw, hcompile, hraw⟩

/-! ## What stands behind a ticket -/

/-- The ticket of the call `t`, launched after `a` and confirmed after `b` in state `j`. -/
structure Backed (j₀ : F.Installation) (a b : F.installation.History) (j : F.Installation) (t : T)
    (ticket : AdmissionTicket) : Prop where
  scope : ticket.scope = (F.call t).scope
  recorder : ∃ u r origin, ExecutedIn j₀ a b t (.get F.recorderKey) u ∧
    u.db.strings.read u.now F.recorderKey = some (F.registrations.value r) ∧
    ticket.origin = some origin ∧ origin.Same (F.registrar r).url
  slot : ∃ u, ExecutedIn j₀ a b t (.set (F.scopeKey ticket.scope) (utf8 ticket.token)
      (F.ttlMs (F.gateway t))) u ∧ u.db.strings.read u.now (F.scopeKey ticket.scope) = none
  policy : ∀ scope path, F.call t = .tryAcquireRequest scope path → ∃ b₁ b₂ u compiled api raw,
    b = b₁ ++ (u.now, .own .admissions (.act t .snapshot (some compiled))) :: b₂ ∧
    F.installation.Run j₀ (a ++ b₁) u ∧ PolicyStore.compileRaw F.lib.toLibraries raw = .ok compiled ∧
    Answered F.keyPrefix raw
      (Composition.part (Y := F.installation) (.loads (F.gateway t)) (a ++ b₁)) ∧
    compiled.api F.lib.toLibraries path = some api
  participation : Participating (a ++ b) j (F.gateway t)

end Fleet

/-! ## One of each -/

/-- One gateway, one recorder and one call. -/
def homeFleet : Fleet Unit Unit Unit Unit Unit Unit where
  lib := addressLibraries
  keyPrefix := "p"
  recorderKey := "recorder"
  task _ := soloTask
  ttlMs _ := 60000
  gateway := id
  call _ := .tryAcquire "s"
  registrar _ := pairDeployment.registrar false
  registration _ := .register ()
  tokens _ _ _ := rfl
  owners _ _ _ := rfl
  recorder_slot slot h := by
    have hhead := congrArg (fun s => s.toList.head?) h
    simp [slotKey] at hhead
  recorder_scope _ := by decide

def homeStart : homeFleet.Installation where
  now := 0
  db := soloStart.db
  share
    | .leases => ⟨fun _ => ⟨none, none, false⟩, fun _ => none, fun _ => []⟩
    | .admissions => ⟨⟨fun _ => .default, fun _ => false, fun _ => none⟩, fun _ => none, fun _ => []⟩
    | .loads _ => ⟨⟨PolicyStore.initial, none⟩, fun _ => none, fun _ => []⟩
    | .recorders => ⟨(), fun _ => none, fun _ => []⟩

theorem homeStart_idle : Fleet.Idle homeStart where
  leases := soloStart_start
  admissions := ⟨fun _ => rfl, fun _ => rfl, fun _ => rfl, fun _ => rfl⟩
  loads _ := ⟨fun _ => rfl, rfl, rfl⟩
  lost _ _ := rfl
  recorders _ := rfl
  unsent _ := rfl

def homeRegistered : Db :=
  (homeStart.db.exec 0 (homeFleet.registrations.command (.register ()))).1

/-- The recorder registers. -/
theorem home_registration : ∃ ls, homeFleet.installation.Run homeStart ls
    { homeStart with db := homeRegistered } := by
  have hruns : (homeFleet.registrations.run (.register ())).Runs
      [⟨.inl (homeFleet.registrations.command (.register ())), Db.setReply true⟩]
      (.done (.ok true)) := .op (.refl _)
  have hput : (homeStart.db.exec 0 (homeFleet.registrations.command (.register ()))).2 =
      Db.setReply true := by decide +kernel
  have hlaunch : homeFleet.registrations.network.launch 0 () () (homeFleet.registrations.run _) () := rfl
  obtain ⟨ls, hrun, hturn, hquick⟩ := exists_turn_of_plays
    (w := Composition.view (Y := homeFleet.installation) homeStart .recorders) rfl rfl hlaunch hruns
    (.command (Or.inl hput.symm) .nil)
  obtain ⟨pre, τ, hall⟩ := Composition.Run.lift_turn (Y := homeFleet.installation) (i := .recorders)
    .refl hrun hturn hquick fun _ _ _ _ => trivial
  have hput := Composition.put_db (Y := homeFleet.installation) homeStart .recorders homeRegistered
  exact ⟨_, hput ▸ hall⟩

/-- The gateway takes its pass and is eligible. -/
theorem home_election : ∃ ls j, homeFleet.installation.Run homeStart ls j ∧ j.now = 0 ∧
    (Fleet.lease j ()).isValid 0 = true ∧ j.share .admissions = homeStart.share .admissions ∧
    ∀ key, (∀ slot, key ≠ slotKey "p" slot) → j.db.strings key = homeRegistered.strings key := by
  obtain ⟨ls, hrun⟩ := home_registration
  obtain ⟨ls', w, hpass, hturn, hquick, hnow⟩ := exists_pass "p" (fun _ : Unit => soloTask)
    (slotsUntouched "p") (t := ()) (w := Composition.view (Y := homeFleet.installation)
      { homeStart with db := homeRegistered } .leases) rfl rfl rfl
  have hlimit : ∀ τ, 0 ≤ τ → limitIn? (homeRegistered.strings.read τ (maxGatewaysKey "p")) = some 1 := by
    intro τ _
    have hkept : homeRegistered.strings (maxGatewaysKey "p") = some ⟨utf8 "1", none⟩ :=
      (strings_exec_of_ne (by decide) _ _).trans rfl
    have hread : homeRegistered.strings.read τ (maxGatewaysKey "p") = some (utf8 "1") := by
      unfold Store.read
      rw [hkept]
      rfl
    rw [hread]
    decide
  obtain ⟨-, hpassed⟩ := lone_pass (fun _ => rfl) hlimit hpass hturn
  obtain ⟨pre, τ, hall⟩ := Composition.Run.lift_turn (Y := homeFleet.installation) (i := .leases) hrun
    hpass hturn hquick fun _ _ _ _ => trivial
  refine ⟨_, _, hall, hnow, ?_, ?_, ?_⟩
  · have hfree : homeRegistered.strings.read 0 (slotKey "p" 0) = none := by decide +kernel
    have hsoon : 0 < soloTask.config.leaseTtl := by decide
    rw [hnow] at hpassed
    exact (hpassed.eligible_iff hsoon fun _ _ => rfl).mpr
      (Or.inr ⟨(fun k hk => by cases hk), 0, Nat.one_pos, hfree⟩)
  · rfl
  · intro key hkey
    exact hpassed.strings_of_ne hkey

/-- What the gateway tells a call that needs no policy while it participates. -/
def ToldParticipating : AdmissionEvent Unit → Prop
  | ⟨.inr .isParticipating, x⟩ => x = true
  | ⟨.inr .snapshot, _⟩ => False
  | _ => True

theorem informed_of_told {j : homeFleet.Installation} {l : AdmissionLabel Unit Unit}
    (hvalid : (Fleet.lease j ()).isValid j.now = true)
    (htold : ∀ u o x, l = .act u o x → ToldParticipating ⟨.inr o, x⟩) : Fleet.Informed j l := by
  cases l with
  | act u o x =>
      have h := htold u o x rfl
      cases o with
      | isParticipating => exact Eq.trans h hvalid.symm
      | snapshot => exact h.elim
      | _ => trivial
  | _ => trivial

def homeMemory : AdmissionMemory Unit Unit := ⟨fun _ => .default, fun _ => false, fun _ => none⟩

/-- The answers of an admission that finds everything it needs. -/
theorem home_plays {db : Db}
    (hstrings : ∀ key, (∀ slot, key ≠ slotKey "p" slot) → db.strings key = homeRegistered.strings key) :
    ∃ ticket tr db' mem', (homeFleet.deployment.call ()).isAcquire = true ∧
      ((homeFleet.deployment.call ()).run homeFleet.deployment.lib
        (homeFleet.deployment.provider ())).Runs tr (.outcome (.ok (.acquired ticket))) ∧
      Plays homeFleet.deployment.network () 0 tr db homeMemory db' mem' ∧
      ∀ e ∈ tr, ToldParticipating e := by
  obtain ⟨origin, horigin, hsame⟩ :=
    (homeFleet.registrations.builtFrom ()).discovered addressLibraries_roundTrips
  have hhttp : origin.isHttpOrigin = true := by
    rw [hsame.isHttpOrigin]
    exact (homeFleet.registrations.builtFrom ()).origin
  obtain ⟨ticket₀, hnew⟩ := exists_ticket_iff.mpr
    ⟨(⟨by decide, by decide, by decide⟩ : Sayable "s"), sayable_acquisitionToken (0, 0)⟩
  obtain ⟨ticket, hwith⟩ : ∃ ticket, ticket₀.withOrigin origin = .ok ticket := by
    unfold AdmissionTicket.withOrigin
    rw [dif_pos hhttp]
    exact ⟨_, rfl⟩
  have hticket : (AdmissionTicket.new "s" (acquisitionToken (0, 0)) >>= (·.withOrigin origin)) =
      .ok ticket := by
    rw [hnew]
    exact hwith
  have hfound : recorderOrigin homeFleet.deployment.lib
      (.bulkString (homeFleet.registrations.value ())) = .ok (some origin) := by
    change some <$> registrationOrigin addressLibraries.toLibraries
      (utf8 (homeFleet.registrations.registration ()).value) = _
    rw [horigin]
    rfl
  have hget : Db.readReply (db.strings.read 0 "recorder") =
      .ok (.bulkString (homeFleet.registrations.value ())) := by
    have hread : homeRegistered.strings.read 0 "recorder" = some (homeFleet.registrations.value ()) := by
      decide +kernel
    have hsame : db.strings.read 0 "recorder" = homeRegistered.strings.read 0 "recorder" :=
      Store.read_of_eq (hstrings _ homeFleet.recorder_slot)
    rw [hsame, hread]
    rfl
  have hset : (db.exec 0 (.set "p:inflight:s" (utf8 ticket.token) 60000)).2 = Db.setReply true := by
    have hread : homeRegistered.strings.read 0 "p:inflight:s" = none := by decide +kernel
    have hsame : db.strings.read 0 "p:inflight:s" = homeRegistered.strings.read 0 "p:inflight:s" :=
      Store.read_of_eq (hstrings _ fun slot => (Fleet.scopeKey_ne_slot (F := homeFleet) "s" slot).symm)
    rw [set_reply, hsame, hread]
    rfl
  have hreached : Reached homeFleet.deployment.lib (homeFleet.deployment.provider ())
      (.tryAcquire "s") none _ (.counted ticket) :=
    .uncounted (.reserved (.drawn (.uncapped (.found (.opened .lockOnly (by decide)) hfound)) hticket)
      (Or.inl rfl))
  have hcall : (Call.tryAcquire "s").isAcquire = true := rfl
  have hruns := ((command_trace homeFleet.deployment.lib (homeFleet.deployment.provider ())
    hcall).2.2 _ ticket).mpr ⟨none, _, hreached, rfl⟩
  refine ⟨ticket, _, _, _, rfl, hruns, .act rfl (.act ⟨rfl, rfl⟩ (.command (Or.inl hget.symm)
    (.act ⟨fun _ => rfl, rfl⟩ (.command (Or.inl hset.symm) (.act rfl (.act rfl .nil)))))), ?_⟩
  simp [ToldParticipating]

end BreezeGateway
