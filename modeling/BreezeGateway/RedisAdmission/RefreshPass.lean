import BreezeGateway.RedisAdmission.LeaseNetwork

/-!
# What one pass of the lease task does

`cycle` is one iteration of the loop in `run`, with the result of its `refresh`.  A `Pass` is what
the pass knows: the limit it read, when the last accepted command was sent, whether it has
published a deadline, and whether its token can still be anywhere.
-/

namespace BreezeGateway

open Effects Lease

namespace Lease

/-- One iteration of the loop in `run`, with the result of `refresh`. -/
def cycle (keyPrefix token : String) (config : GatewayLeaseConfig) :
    Prog (redisSig leaseSig) (Except AdmissionError Unit) := do
  let result ← (refresh keyPrefix token config).run
  match result with
  | .ok () => pure result
  | .error _ =>
      let _ ← clear.run
      pure result

theorem iterate_eq_cycle (keyPrefix token : String) (config : GatewayLeaseConfig) :
    iterate keyPrefix token config = (fun _ => ()) <$> cycle keyPrefix token config := by
  unfold iterate cycle
  refine Eq.trans ?_ (Prog.bind_assoc _ _ fun _ => Prog.ret ()).symm
  refine congrArg (_ >>= ·) (funext fun result => ?_)
  cases result <;> rfl

end Lease

/-! ## What the answers tell -/

structure Heard where
  limit : Option ℕ
  clock : ℕ
  /-- The slot key of the last accepted `SET` or renewal, and the time read for its sending. -/
  accepted : Option (String × ℕ)

/-- The limit in a reply to the lookup of `max-gateways`. -/
def limitRead : Command → Reply → Option ℕ
  | .get _, .ok .nil => some 0
  | .get _, .ok (.bulkString bytes) => parseDigits usizeMax bytes
  | _, _ => none

def Heard.reply (h : Heard) (c : Command) (r : Reply) : Heard where
  limit := if isGet c then limitRead c r else h.limit
  clock := h.clock
  accepted :=
    match verdict c r with
    | .accepted => (slotKeyOf c).map fun key => (key, h.clock)
    | _ => h.accepted

def cycleTale : Network.Tale (redisSig leaseSig) Heard where
  start := ⟨none, 0, none⟩
  after h o x :=
    match o, x with
    | .inl c, r => h.reply c r
    | .inr .now, t => { h with clock := t }
    | .inr _, _ => h

/-! ## Passes -/

inductive Validity where
  | unknown
  | lapsed
  | published (deadline : ℕ)

structure Pass where
  heard : Heard
  owned : Option ℕ
  validity : Validity
  /-- No slot key carries the token, and nothing that could store it is in flight. -/
  clear : Bool

namespace Pass

def clearAfter (v : Pass) (c : Command) (r : Reply) : Bool :=
  if isGet c then v.clear
  else
    match verdict c r with
    | .rejected => true
    | _ => false

def reply (v : Pass) (c : Command) (r : Reply) : Pass :=
  { v with heard := v.heard.reply c r, clear := v.clearAfter c r }

/-- Without a remembered slot nothing is published or stored. -/
def Fresh (v : Pass) : Prop := v.owned = none → v.validity = .lapsed ∧ v.clear = true

variable (keyPrefix : String) (task : GatewayTask)

/-- The published deadline counts from the sending of the last accepted command. -/
def Published (v : Pass) (deadline : ℕ) : Prop :=
  ∃ slot sent, v.owned = some slot ∧ v.heard.accepted = some (slotKey keyPrefix slot, sent) ∧
    deadline = sent + task.config.leaseTtl

/-- How a successful `refresh` leaves the task. -/
def Enforces (v : Pass) (limit : ℕ) : Prop :=
  v.heard.limit = some limit ∧ (∀ slot, v.owned = some slot → slot < limit) ∧
    (v.validity = .lapsed ∨ ∃ deadline, v.validity = .published deadline ∧
      v.Published keyPrefix task deadline)

def Settles (v : Pass) : Except AdmissionError Unit → Prop
  | .ok _ => ∃ limit, v.Enforces keyPrefix task limit
  | .error _ => True

def Ends (v : Pass) : Except AdmissionError Unit → Prop
  | .ok _ => ∃ limit, v.Enforces keyPrefix task limit
  | .error _ => v.validity = .lapsed

end Pass

def passContract (keyPrefix : String) (task : GatewayTask) : Contract (redisSig leaseSig) Pass where
  pre v
    | .inl c => Aims keyPrefix task v.owned c ∧ (isSet c = true → v.clear = true)
    | .inr (.setValidUntil (some deadline)) => v.Published keyPrefix task deadline
    | .inr (.setOwnedSlot _) => v.validity = .lapsed ∧ v.clear = true
    | .inr _ => True
  post v o x v' :=
    match o, x with
    | .inl c, r => v' = v.reply c r
    | .inr .now, t => v' = { v with heard := { v.heard with clock := t } }
    | .inr .random, _ => v' = v
    | .inr (.setValidUntil none), _ => v' = { v with validity := .lapsed }
    | .inr (.setValidUntil (some deadline)), _ => v' = { v with validity := .published deadline }
    | .inr .ownedSlot, slot => slot = v.owned ∧ v' = v
    | .inr (.setOwnedSlot slot), _ => v' = { v with owned := slot }

section

variable {keyPrefix : String} {task : GatewayTask} {v : Pass}

theorem pass_now {Q : Pass → Except AdmissionError ℕ → Prop}
    (h : ∀ t, Q { v with heard := { v.heard with clock := t } } (.ok t)) :
    now.run.Meets (passContract keyPrefix task) v Q := by
  refine meets_perform trivial ?_
  rintro t _ rfl
  exact h t

theorem pass_ownedSlot {Q : Pass → Except AdmissionError (Option ℕ) → Prop}
    (h : Q v (.ok v.owned)) : ownedSlot.run.Meets (passContract keyPrefix task) v Q := by
  refine meets_perform trivial ?_
  rintro slot _ ⟨rfl, rfl⟩
  exact h

theorem pass_setOwnedSlot {slot : Option ℕ} {Q : Pass → Except AdmissionError Unit → Prop}
    (hvalidity : v.validity = .lapsed) (hclear : v.clear = true) (h : Q { v with owned := slot } (.ok ())) :
    (setOwnedSlot slot).run.Meets (passContract keyPrefix task) v Q := by
  refine meets_perform ⟨hvalidity, hclear⟩ ?_
  rintro x _ rfl
  exact h

theorem pass_clear {Q : Pass → Except AdmissionError Unit → Prop}
    (h : Q { v with validity := .lapsed } (.ok ())) :
    clear.run.Meets (passContract keyPrefix task) v Q := by
  refine meets_perform trivial ?_
  rintro x _ rfl
  exact h

theorem pass_publish {slot started limit : ℕ} (howned : v.owned = some slot)
    (haccepted : v.heard.accepted = some (slotKey keyPrefix slot, started))
    (hlimit : v.heard.limit = some limit) (hslot : slot < limit) :
    (publish started task.config.leaseTtl).run.Meets (passContract keyPrefix task) v
      (Pass.Settles keyPrefix task) := by
  have hpublished : v.Published keyPrefix task (started + task.config.leaseTtl) :=
    ⟨slot, started, howned, haccepted, rfl⟩
  refine meets_perform hpublished ?_
  rintro x _ rfl
  refine ⟨limit, hlimit, ?_, Or.inr ⟨_, rfl, hpublished⟩⟩
  intro k hk
  obtain rfl : slot = k := by simpa [howned] using hk
  exact hslot

theorem pass_readLimit {key : String} {Q : Pass → Except AdmissionError ℕ → Prop}
    (hok : ∀ v' limit, v'.heard.limit = some limit → v'.owned = v.owned →
      v'.validity = v.validity → v'.clear = v.clear → Q v' (.ok limit))
    (herr : ∀ v' e, Q v' (.error e)) :
    (readLimit key).run.Meets (passContract keyPrefix task) v Q := by
  unfold readLimit
  rw [meets_bind_ok]
  refine meets_command ⟨trivial, by simp [isSet]⟩ ?_ fun m v' _ => herr _ _
  rintro r _ rfl
  cases r with
  | nil => exact hok _ 0 rfl rfl rfl rfl
  | bulkString bytes =>
      dsimp only
      cases hparse : parseDigits usizeMax bytes with
      | none => exact herr _ _
      | some limit =>
          refine hok _ limit ?_ rfl rfl rfl
          simpa [Pass.reply, Heard.reply, isGet, limitRead] using hparse
  | _ => exact herr _ _

/-- An election either publishes for a slot below the limit or leaves nothing behind. -/
theorem pass_elect {limit : ℕ} (slots : List ℕ) (howned : v.owned = none)
    (hvalidity : v.validity = .lapsed) (hclear : v.clear = true) (hlimit : v.heard.limit = some limit)
    (hslots : ∀ slot ∈ slots, slot < limit) :
    (elect keyPrefix task.token task.config slots).run.Meets (passContract keyPrefix task) v
      (Pass.Settles keyPrefix task) := by
  induction slots generalizing v with
  | nil => exact ⟨limit, hlimit, by simp [howned], Or.inl hvalidity⟩
  | cons slot rest ih =>
      unfold elect
      rw [meets_bind_ok]
      refine pass_now fun started => ?_
      dsimp only
      rw [meets_bind_ok]
      refine pass_setOwnedSlot hvalidity hclear ?_
      dsimp only
      rw [meets_bind_ok]
      refine meets_reserve ⟨⟨slot, rfl, rfl, rfl, rfl⟩, fun _ => hclear⟩ ?_ ?_ ?_
      · rintro r _ hr rfl
        simp only [if_true]
        refine pass_publish rfl ?_ hlimit (hslots slot List.mem_cons_self)
        rcases hr with rfl | rfl <;> simp [Pass.reply, Heard.reply, verdict, slotKeyOf]
      · rintro _ rfl
        simp only [Bool.false_eq_true, if_false]
        rw [meets_bind_ok]
        refine pass_setOwnedSlot hvalidity rfl ?_
        exact ih rfl hvalidity rfl hlimit fun k hk => hslots k (List.mem_cons_of_mem slot hk)
      · intros
        trivial

theorem pass_renewOrElect {limit : ℕ} (hfresh : v.Fresh) (hlimit : v.heard.limit = some limit)
    (hslot : ∀ slot, v.owned = some slot → slot < limit) :
    (renewOrElect keyPrefix task.token task.config limit).run.Meets (passContract keyPrefix task) v
      (Pass.Settles keyPrefix task) := by
  unfold renewOrElect
  split
  · exact pass_clear ⟨limit, hlimit, hslot, Or.inl rfl⟩
  · rename_i hpos
    rw [meets_bind_ok]
    refine pass_ownedSlot ?_
    dsimp only
    cases howned : v.owned with
    | some slot =>
        dsimp only
        rw [meets_bind_ok]
        refine pass_now fun started => ?_
        dsimp only
        rw [meets_bind_ok]
        refine meets_transition ⟨⟨slot, howned, rfl, rfl, rfl⟩, by simp [isSet]⟩ ?_ ?_ ?_
        · rintro _ rfl
          simp only [if_true]
          exact pass_publish howned rfl hlimit (hslot slot howned)
        · rintro _ rfl
          simp only [Bool.false_eq_true, if_false]
          rw [meets_bind_ok]
          refine pass_clear (pass_setOwnedSlot rfl rfl ?_)
          exact ⟨limit, hlimit, by simp, Or.inl rfl⟩
        · intros
          trivial
    | none =>
        obtain ⟨hvalidity, hclear⟩ := hfresh howned
        dsimp only
        rw [meets_bind_ok]
        refine meets_perform trivial ?_
        rintro first _ rfl
        refine pass_elect _ howned hvalidity hclear hlimit fun slot hslot => ?_
        exact lt_of_mem_slots hslot (Nat.mod_lt _ (Nat.pos_of_ne_zero hpos))

theorem pass_releaseOutside {limit : ℕ} (hfresh : v.Fresh) (hlimit : v.heard.limit = some limit)
    {Q : Pass → Except AdmissionError Unit → Prop}
    (hok : ∀ v' : Pass, v'.Fresh → v'.heard.limit = some limit →
      (∀ slot, v'.owned = some slot → slot < limit) → Q v' (.ok ()))
    (herr : ∀ v' e, Q v' (.error e)) :
    (releaseOutside keyPrefix task.token limit v.owned).run.Meets (passContract keyPrefix task) v
      Q := by
  cases howned : v.owned with
  | none => exact hok v hfresh hlimit (by simp [howned])
  | some slot =>
      simp only [releaseOutside]
      split
      · rw [meets_bind_ok]
        refine pass_clear ?_
        dsimp only
        rw [meets_bind_ok]
        refine meets_transition ⟨⟨slot, howned, rfl, rfl⟩, by simp [isSet]⟩ ?_ ?_ fun _ _ _ _ => herr _ _
        · rintro _ rfl
          exact pass_setOwnedSlot rfl rfl (hok _ (fun _ => ⟨rfl, rfl⟩) hlimit (by simp))
        · rintro _ rfl
          exact pass_setOwnedSlot rfl rfl (hok _ (fun _ => ⟨rfl, rfl⟩) hlimit (by simp))
      · rename_i hlt
        refine hok v hfresh hlimit fun k hk => ?_
        obtain rfl : slot = k := by simpa [howned] using hk
        exact Nat.lt_of_not_le hlt

theorem pass_refresh (hfresh : v.Fresh) :
    (refresh keyPrefix task.token task.config).run.Meets (passContract keyPrefix task) v
      (Pass.Settles keyPrefix task) := by
  unfold refresh
  rw [meets_bind_ok]
  refine pass_readLimit ?_ fun _ _ => trivial
  intro v' limit hlimit howned hvalidity hclear
  have hfresh' : v'.Fresh := by
    intro hnone
    rw [hvalidity, hclear]
    exact hfresh (howned ▸ hnone)
  dsimp only
  rw [meets_bind_ok]
  refine pass_ownedSlot ?_
  dsimp only
  rw [meets_bind_ok]
  exact pass_releaseOutside hfresh' hlimit
    (fun v'' hfresh'' hlimit'' hslot => pass_renewOrElect hfresh'' hlimit'' hslot) fun _ _ => trivial

theorem pass_cycle (hfresh : v.Fresh) :
    (cycle keyPrefix task.token task.config).Meets (passContract keyPrefix task) v
      (Pass.Ends keyPrefix task) := by
  unfold cycle
  rw [Prog.meets_bind]
  refine (pass_refresh hfresh).mono fun v' result h => ?_
  cases result with
  | ok u => exact h
  | error e =>
      dsimp only
      rw [Prog.meets_bind]
      exact pass_clear rfl

end

end BreezeGateway
