import BreezeGateway.RedisAdmission.Lease

/-!
# What a lease task knows about its slot

A view records the task's memory and its grip on Redis: nothing known, no key and no command in
flight carries the token, or the owned key carries it up to some time.  The contract lets `SET`
be sent only with a clear grip, and `owned_slot` change only with a clear one.
-/

namespace BreezeGateway

open Effects Lease

/-- What `GatewayLease::start` spawns: a boot token and a validated configuration. -/
structure GatewayTask where
  token : String
  config : GatewayLeaseConfig
  valid : config.validate = .ok ()

inductive Grip where
  | unknown
  | clear
  | held (deadline : ℕ)

structure View where
  time : ℕ
  owned : Option ℕ
  valid : Option ℕ
  grip : Grip
  /-- The largest `max-gateways` seen so far. -/
  limit : ℕ

inductive Verdict where
  | accepted
  | rejected
  | unknown

/-- What a reply says about the token: stored, not stored, or nothing. -/
def verdict : Command → Reply → Verdict
  | .set .., .ok .okay => .accepted
  | .set .., .ok (.simpleString s) => if s = "OK" then .accepted else .unknown
  | .set .., .ok .nil => .rejected
  | .renew .., .ok (.int n) => if n = 1 then .accepted else if n = 0 then .rejected else .unknown
  | .complete .., .ok (.int n) => if n = 0 ∨ n = 1 then .rejected else .unknown
  | _, _ => .unknown

theorem verdict_of_conveys {c : Command} {r r' : Reply} (h : Conveys c r r') :
    verdict c r' = verdict c r := by
  rcases h with rfl | ⟨rfl, rfl⟩
  · rfl
  · cases c <;> simp [verdict]

theorem verdict_of_malformed {c : Command} {r : Reply} (h : Malformed c r) :
    verdict c r = .unknown := by
  cases r with
  | error m => cases c <;> rfl
  | ok v => cases c <;> cases v <;> simp_all [Malformed, verdict]

def isGet : Command → Bool
  | .get _ => true
  | _ => false

def isSet : Command → Bool
  | .set .. => true
  | _ => false

def isRelease : Command → Bool
  | .complete .. => true
  | _ => false

section

variable (keyPrefix : String) (task : GatewayTask)

/-- The commands a task may have in flight while it remembers `owned`. -/
def Aims (owned : Option ℕ) : Command → Prop
  | .get _ => True
  | .set key value px => ∃ slot, owned = some slot ∧ key = slotKey keyPrefix slot ∧
      value = utf8 task.token ∧ px = asMillis task.config.leaseTtl
  | .complete key value => ∃ slot, owned = some slot ∧ key = slotKey keyPrefix slot ∧
      value = utf8 task.token
  | .renew key value px => ∃ slot, owned = some slot ∧ key = slotKey keyPrefix slot ∧
      value = utf8 task.token ∧ px = asMillis task.config.leaseTtl
  | .hget .. => False
  | .hincrby .. => False

def gripAfter (v : View) (c : Command) (r : Reply) (grip : Grip) : Prop :=
  if isGet c then grip = v.grip
  else
    match verdict c r with
    | .accepted => ∃ deadline, v.time + task.config.leaseTtl ≤ deadline ∧ grip = .held deadline
    | .rejected => grip = .clear
    | .unknown => grip = .unknown

def limitIn : Command → Reply → ℕ
  | .get _, .ok (.bulkString bytes) => (parseDigits usizeMax bytes).getD 0
  | _, _ => 0

def leaseContract : Contract (redisSig leaseSig) View where
  pre v
    | .inl c => Aims keyPrefix task v.owned c ∧
        (isSet c = true → v.valid = none ∧ v.grip = .clear) ∧
        (isRelease c = true → v.valid = none)
    | .inr (.setValidUntil (some d)) => ∃ deadline, v.grip = .held deadline ∧ d ≤ deadline
    | .inr (.setOwnedSlot none) => v.valid = none ∧ v.grip = .clear
    | .inr (.setOwnedSlot (some slot)) =>
        v.owned = none ∧ v.valid = none ∧ v.grip = .clear ∧ slot < v.limit
    | .inr _ => True
  post v o x v' :=
    match o, x with
    | .inl c, r => v.time ≤ v'.time ∧ v'.owned = v.owned ∧ v'.valid = v.valid ∧
        gripAfter task v c r v'.grip ∧ v'.limit = max v.limit (limitIn c r)
    | .inr .now, t => v.time ≤ t ∧ v' = { v with time := t }
    | .inr .random, _ => v' = v
    | .inr (.setValidUntil d), _ => v' = { v with valid := d }
    | .inr .ownedSlot, slot => slot = v.owned ∧ v' = v
    | .inr (.setOwnedSlot slot), _ => v' = { v with owned := slot }

/-- Before an election nothing of this task is stored or in flight. -/
def View.Settled (v : View) : Prop := v.owned = none → v.valid = none ∧ v.grip = .clear

variable {keyPrefix task}

section Replies

variable {v v' : View} {slot : ℕ}

theorem gripAfter_set_ok {key : String} {value : Bytes} {px : ℕ} {r : Value} {grip : Grip}
    (hr : r = .okay ∨ r = .simpleString "OK")
    (h : gripAfter task v (.set key value px) (.ok r) grip) :
    ∃ deadline, v.time + task.config.leaseTtl ≤ deadline ∧ grip = .held deadline := by
  rcases hr with rfl | rfl <;> simpa [gripAfter, isGet, verdict] using h

theorem gripAfter_set_nil {key : String} {value : Bytes} {px : ℕ} {grip : Grip}
    (h : gripAfter task v (.set key value px) (.ok .nil) grip) : grip = .clear := by
  simpa [gripAfter, isGet, verdict] using h

end Replies

theorem meets_now {v : View} {Q : View → Except AdmissionError ℕ → Prop}
    (h : ∀ t, v.time ≤ t → Q { v with time := t } (.ok t)) :
    now.run.Meets (leaseContract keyPrefix task) v Q :=
  meets_perform trivial (by rintro t _ ⟨hle, rfl⟩; exact h t hle)

theorem meets_ownedSlot {v : View} {Q : View → Except AdmissionError (Option ℕ) → Prop}
    (h : Q v (.ok v.owned)) : ownedSlot.run.Meets (leaseContract keyPrefix task) v Q :=
  meets_perform trivial (by rintro slot _ ⟨rfl, rfl⟩; exact h)

theorem meets_setOwnedSlot {v : View} {slot : Option ℕ}
    {Q : View → Except AdmissionError Unit → Prop} (hgrip : v.grip = .clear) (hvalid : v.valid = none)
    (howned : ∀ k, slot = some k → v.owned = none ∧ k < v.limit)
    (h : Q { v with owned := slot } (.ok ())) :
    (setOwnedSlot slot).run.Meets (leaseContract keyPrefix task) v Q := by
  refine meets_perform ?_ (by rintro x _ rfl; exact h)
  cases slot with
  | none => exact ⟨hvalid, hgrip⟩
  | some k =>
      obtain ⟨hnone, hk⟩ := howned k rfl
      exact ⟨hnone, hvalid, hgrip, hk⟩

theorem meets_clear {v : View} {Q : View → Except AdmissionError Unit → Prop}
    (h : Q { v with valid := none } (.ok ())) :
    clear.run.Meets (leaseContract keyPrefix task) v Q :=
  meets_perform trivial (by rintro x _ rfl; exact h)

theorem meets_publish {v : View} {started deadline : ℕ}
    {Q : View → Except AdmissionError Unit → Prop} (hgrip : v.grip = .held deadline)
    (hle : started + task.config.leaseTtl ≤ deadline)
    (h : Q { v with valid := some (started + task.config.leaseTtl) } (.ok ())) :
    (publish started task.config.leaseTtl).run.Meets (leaseContract keyPrefix task) v Q :=
  meets_perform ⟨deadline, hgrip, hle⟩ (by rintro x _ rfl; exact h)

theorem meets_readLimit {v : View} {key : String} {Q : View → Except AdmissionError ℕ → Prop}
    (hok : ∀ t n m, n ≤ m → Q { v with time := t, limit := m } (.ok n))
    (herr : ∀ v' e, Q v' (.error e)) :
    (readLimit key).run.Meets (leaseContract keyPrefix task) v Q := by
  unfold readLimit
  rw [meets_bind_ok]
  refine meets_command ⟨trivial, by simp [isSet], by simp [isRelease]⟩ ?_ fun m v' _ => herr _ _
  rintro r ⟨t, owned, valid, grip, limit⟩ ⟨-, rfl, rfl, hgrip, hlimit⟩
  obtain rfl : grip = v.grip := by simpa [gripAfter, isGet] using hgrip
  cases r with
  | nil => exact hok t 0 limit (Nat.zero_le limit)
  | bulkString bytes =>
      dsimp only
      cases hparse : parseDigits usizeMax bytes with
      | some n =>
          have hn : n ≤ limit := by
            dsimp only at hlimit
            simp [hlimit, limitIn, hparse]
          exact hok t n limit hn
      | none => exact herr _ _
  | _ => exact herr _ _

theorem meets_elect (slots : List ℕ) {v : View} (howned : v.owned = none) (hvalid : v.valid = none)
    (hgrip : v.grip = .clear) (hslots : ∀ slot ∈ slots, slot < v.limit) :
    (elect keyPrefix task.token task.config slots).run.Meets (leaseContract keyPrefix task) v
      fun _ _ => True := by
  induction slots generalizing v with
  | nil => exact trivial
  | cons slot rest ih =>
      unfold elect
      rw [meets_bind_ok]
      refine meets_now fun started hle => ?_
      dsimp only
      rw [meets_bind_ok]
      refine meets_setOwnedSlot hgrip hvalid
        (by rintro k ⟨⟩; exact ⟨howned, hslots slot List.mem_cons_self⟩) ?_
      dsimp only
      rw [meets_bind_ok]
      refine meets_reserve ⟨⟨slot, rfl, rfl, rfl, rfl⟩, fun _ => ⟨hvalid, hgrip⟩, by simp [isRelease]⟩
        ?_ ?_ fun _ _ _ _ => trivial
      · rintro r v' hr ⟨-, -, -, hafter, -⟩
        obtain ⟨deadline, hd, hheld⟩ := gripAfter_set_ok hr hafter
        simp only [if_true]
        exact meets_publish hheld hd trivial
      · rintro v' ⟨-, -, hvalid', hafter, hlimit⟩
        have hclear := gripAfter_set_nil hafter
        simp only [Bool.false_eq_true, if_false]
        rw [meets_bind_ok]
        refine meets_setOwnedSlot hclear (hvalid'.trans hvalid) (by simp) ?_
        refine ih rfl (hvalid'.trans hvalid) hclear fun slot' hslot' => ?_
        have hlt := hslots slot' (List.mem_cons_of_mem slot hslot')
        exact hlt.trans_le (by simp [hlimit])

theorem lt_of_mem_slots {first limit slot : ℕ}
    (h : slot ∈ List.range' first (limit - first) ++ List.range first) (hfirst : first < limit) :
    slot < limit := by
  simp only [List.mem_append, List.mem_range'_1, List.mem_range] at h
  omega

theorem meets_renewOrElect (limit : ℕ) {v : View} (hv : v.Settled) (hlimit : limit ≤ v.limit) :
    (renewOrElect keyPrefix task.token task.config limit).run.Meets (leaseContract keyPrefix task) v
      fun _ _ => True := by
  unfold renewOrElect
  split
  · exact meets_clear trivial
  · rename_i hpos
    rw [meets_bind_ok]
    refine meets_ownedSlot ?_
    dsimp only
    cases howned : v.owned with
    | some slot =>
        dsimp only
        rw [meets_bind_ok]
        refine meets_now fun started _ => ?_
        dsimp only
        rw [meets_bind_ok]
        refine meets_transition ⟨⟨slot, howned, rfl, rfl, rfl⟩, by simp [isSet], by simp [isRelease]⟩
          ?_ ?_ fun _ _ _ _ => trivial
        · rintro v' ⟨-, -, -, hafter, -⟩
          obtain ⟨deadline, hd, hheld⟩ : ∃ deadline,
              started + task.config.leaseTtl ≤ deadline ∧ v'.grip = .held deadline := by
            simpa [gripAfter, isGet, verdict] using hafter
          simp only [if_true]
          exact meets_publish hheld hd trivial
        · rintro v' ⟨-, -, -, hafter, -⟩
          have hclear : v'.grip = .clear := by simpa [gripAfter, isGet, verdict] using hafter
          simp only [Bool.false_eq_true, if_false]
          rw [meets_bind_ok]
          exact meets_clear (meets_setOwnedSlot hclear rfl (by simp) trivial)
    | none =>
        obtain ⟨hvalid, hgrip⟩ := hv howned
        dsimp only
        rw [meets_bind_ok]
        refine meets_perform trivial ?_
        rintro first _ rfl
        refine meets_elect _ howned hvalid hgrip fun slot hslot => ?_
        exact (lt_of_mem_slots hslot (Nat.mod_lt _ (Nat.pos_of_ne_zero hpos))).trans_le hlimit

theorem meets_releaseOutside (limit : ℕ) {v : View} (hv : v.Settled)
    {Q : View → Except AdmissionError Unit → Prop}
    (hok : ∀ v' : View, v'.Settled → v.limit ≤ v'.limit → Q v' (.ok ()))
    (herr : ∀ v' e, Q v' (.error e)) :
    (releaseOutside keyPrefix task.token limit v.owned).run.Meets (leaseContract keyPrefix task) v
      Q := by
  cases howned : v.owned with
  | none => exact hok v hv le_rfl
  | some slot =>
      simp only [releaseOutside]
      split
      · rw [meets_bind_ok]
        refine meets_clear ?_
        dsimp only
        rw [meets_bind_ok]
        have hreleased : ∀ v' : View, v'.valid = none → v'.grip = .clear → v.limit ≤ v'.limit →
            (setOwnedSlot none).run.Meets (leaseContract keyPrefix task) v' Q :=
          fun v' hvalid hclear hlimit =>
            meets_setOwnedSlot hclear hvalid (by simp) (hok _ (fun _ => ⟨hvalid, hclear⟩) hlimit)
        refine meets_transition ⟨⟨slot, howned, rfl, rfl⟩, by simp [isSet], fun _ => rfl⟩ ?_ ?_
          fun _ v' _ _ => herr _ _
        · rintro v' ⟨-, -, hvalid, hafter, hlimit⟩
          exact hreleased v' hvalid (by simpa [gripAfter, isGet, verdict] using hafter)
            (by simp [hlimit])
        · rintro v' ⟨-, -, hvalid, hafter, hlimit⟩
          exact hreleased v' hvalid (by simpa [gripAfter, isGet, verdict] using hafter)
            (by simp [hlimit])
      · exact hok v hv le_rfl

theorem meets_refresh {v : View} (hv : v.Settled) :
    (refresh keyPrefix task.token task.config).run.Meets (leaseContract keyPrefix task) v
      fun _ _ => True := by
  unfold refresh
  rw [meets_bind_ok]
  refine meets_readLimit (fun t limit m hlimit => ?_) fun _ _ => trivial
  dsimp only
  rw [meets_bind_ok]
  refine meets_ownedSlot ?_
  dsimp only
  rw [meets_bind_ok]
  exact meets_releaseOutside limit (v := { v with time := t, limit := m }) hv
    (fun v' hv' hle => meets_renewOrElect limit hv' (hlimit.trans hle)) fun _ _ => trivial

theorem meets_iterate {v : View} (hv : v.Settled) :
    (iterate keyPrefix task.token task.config).Meets (leaseContract keyPrefix task) v
      fun _ _ => True := by
  unfold iterate
  rw [Prog.meets_bind]
  refine (meets_refresh hv).mono fun v' r _ => ?_
  cases r with
  | ok u => exact trivial
  | error e =>
      dsimp only
      rw [Prog.meets_bind]
      exact meets_clear trivial

end

end BreezeGateway
