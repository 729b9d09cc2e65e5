import BreezeGateway.RedisAdmission.LeaseNetwork

/-!
# The invariant of the gateways

First the steps of one gateway, then every step of the network.
-/

namespace BreezeGateway

open Effects Effects.Network Lease

section

variable {keyPrefix : String} {task : GatewayTask} {Strict : Prop} {now : ℕ}
  {s : Store String Bytes} {m m' : LeaseState} {strays : List Command} {v : View}
  {phase : Phase Command Reply} {c : Command} {r r' : Reply}

/-- A pass starts with a clear grip if no slot is remembered. -/
def View.launched (v : View) : View :=
  { v with grip := if v.owned = none then .clear else .unknown }

theorem isGet_of_aims_none (h : Aims keyPrefix task none c) : isGet c = true := by
  cases c <;> simp_all [Aims, isGet]

theorem Good.launch (h : Good keyPrefix task Strict now s m strays .absent v) :
    v.launched.Settled ∧ Good keyPrefix task Strict now s m strays .running v.launched := by
  have hf := h.facts
  refine ⟨fun howned => ⟨hf.unowned howned, if_pos howned⟩, ⟨?_, ?_⟩⟩
  · exact ⟨hf.time, hf.owned, hf.valid, hf.aims, hf.stored, hf.unowned, hf.no_release, hf.soon,
      hf.leased⟩
  · simp only [PhaseFact, View.launched]
    split
    · rename_i howned
      refine ⟨fun c hc => ?_, fun slot hread => ?_⟩
      · have haims := hf.aims c (by simp [hc])
        rw [howned] at haims
        exact isGet_of_aims_none haims
      · have hslot := hf.stored slot hread
        rw [howned] at hslot
        cases hslot
    · trivial

theorem Facts.cleared {pending : List Command} {grip : Grip}
    (h : Facts keyPrefix task Strict now s m pending v) :
    Facts keyPrefix task Strict now s { m with validUntil := none } pending
      { v with valid := none, grip := grip } where
  time := h.time
  owned := h.owned
  valid := rfl
  aims := h.aims
  stored := h.stored
  unowned _ := rfl
  no_release hne := absurd rfl hne
  soon d hd := by cases hd
  leased _ d hd := by cases hd

theorem Good.act {l : LeaseOp} {x : leaseSig.Ans l}
    (h : Good keyPrefix task Strict now s m strays .running v)
    (hpre : (leaseContract keyPrefix task).pre v (.inr l)) (ha : leaseAct now m l x m') :
    ∃ v', (leaseContract keyPrefix task).post v (.inr l) x v' ∧
      Good keyPrefix task Strict now s m' strays .running v' := by
  obtain ⟨hf, hgrip⟩ := h
  cases l with
  | now =>
      obtain ⟨rfl, rfl⟩ := ha
      exact ⟨_, ⟨hf.time, rfl⟩, { hf with time := le_rfl }, hgrip⟩
  | random =>
      obtain rfl := ha
      exact ⟨_, rfl, hf, hgrip⟩
  | ownedSlot =>
      obtain ⟨rfl, rfl⟩ := ha
      exact ⟨_, ⟨hf.owned, rfl⟩, hf, hgrip⟩
  | setValidUntil d =>
      obtain rfl := ha
      refine ⟨_, rfl, ?_, hgrip⟩
      cases d with
      | none => exact hf.cleared
      | some d =>
          obtain ⟨deadline, hheld, hle⟩ := hpre
          simp only [PhaseFact, hheld, GripFact] at hgrip
          obtain ⟨hrel, howned, hsoon, hleased⟩ := hgrip
          refine ⟨hf.time, hf.owned, rfl, hf.aims, hf.stored, fun hn => absurd hn howned,
            fun _ c hc => hrel c (by simpa [inFlight] using hc), fun d' hd' => ?_, fun hS d' hd' => ?_⟩
          · obtain rfl := Option.some.inj hd'
            exact hle.trans hsoon
          · obtain rfl := Option.some.inj hd'
            intro hlt
            obtain ⟨slot, hslot, huntil⟩ := hleased hS (hlt.trans_le hle)
            exact ⟨slot, hslot, huntil.mono hle⟩
  | setOwnedSlot slot =>
      obtain rfl := ha
      obtain ⟨hvalid, hclear⟩ : v.valid = none ∧ v.grip = .clear := by
        cases slot with
        | none => exact hpre
        | some k => exact ⟨hpre.2.1, hpre.2.2.1⟩
      simp only [PhaseFact, hclear, GripFact] at hgrip
      refine ⟨_, rfl, ⟨hf.time, rfl, hf.valid, fun c hc => ?_, fun i hi => absurd hi (hgrip.2 i),
        fun _ => hvalid, fun hne => absurd hvalid hne, hf.soon, fun _ d hd => ?_⟩, ?_⟩
      · have hget := hgrip.1 c (by simpa [inFlight] using hc)
        cases c with
        | get key => trivial
        | _ => simp [isGet] at hget
      · rw [show v.valid = none from hvalid] at hd
        cases hd
      · simp only [PhaseFact, hclear]
        exact hgrip

theorem Good.send (h : Good keyPrefix task Strict now s m strays .running v)
    (hpre : (leaseContract keyPrefix task).pre v (.inl c)) :
    Good keyPrefix task Strict now s m strays (.sent c) v := by
  obtain ⟨hf, hgrip⟩ := h
  obtain ⟨haims, -, hrel⟩ := hpre
  refine ⟨{ hf with aims := fun c' hc' => ?_, no_release := fun hvalid c' hc' => ?_ }, hgrip⟩
  · rcases List.mem_append.mp hc' with hc' | hc'
    · exact hf.aims c' (by simp [hc'])
    · rw [List.mem_singleton.mp hc']
      exact haims
  · rcases List.mem_append.mp hc' with hc' | hc'
    · exact hf.no_release hvalid c' (by simp [hc'])
    · rw [List.mem_singleton.mp hc']
      by_contra hc
      exact hvalid (hrel (by simpa using hc))

theorem Good.exec {db : Db} (h : Good keyPrefix task Strict now db.strings m [] (.sent c) v)
    (hpre : (leaseContract keyPrefix task).pre v (.inl c)) :
    Good keyPrefix task Strict now (db.exec now c).1.strings m []
      (.answered c (db.exec now c).2) v :=
  ⟨Facts.exec h.facts, exists_grip_exec h.facts (fun hc => (hpre.2.1 hc).2) h.phase⟩

def View.heard (v : View) (c : Command) (r : Reply) (grip : Grip) : View :=
  { v with grip := grip, limit := max v.limit (limitIn c r) }

theorem Facts.heard {pending : List Command} {grip : Grip}
    (h : Facts keyPrefix task Strict now s m pending v) :
    Facts keyPrefix task Strict now s m pending (v.heard c r grip) :=
  ⟨h.time, h.owned, h.valid, h.aims, h.stored, h.unowned, h.no_release, h.soon, h.leased⟩

theorem post_heard {grip : Grip} (h : gripAfter task v c r grip) :
    (leaseContract keyPrefix task).post v (.inl c) r (v.heard c r grip) :=
  ⟨le_rfl, rfl, rfl, h, rfl⟩

theorem gripAfter_of_conveys {grip : Grip} (hc : Conveys c r r') (h : gripAfter task v c r grip) :
    gripAfter task v c r' grip := by
  unfold gripAfter at h ⊢
  rwa [verdict_of_conveys hc]

theorem Good.deliver (h : Good keyPrefix task Strict now s m strays (.answered c r) v)
    (hc : Conveys c r r') :
    ∃ grip, gripAfter task v c r' grip ∧
      Good keyPrefix task Strict now s m strays .running (v.heard c r' grip) := by
  obtain ⟨hf, grip, hafter, hgrip⟩ := h
  exact ⟨grip, gripAfter_of_conveys hc hafter, hf.heard, hgrip⟩

/-- An error or an unreadable reply leaves a lookup's grip alone and loses any other. -/
def Grip.afterFailure (v : View) (c : Command) : Grip := if isGet c then v.grip else .unknown

theorem gripAfter_failure (task : GatewayTask) (v : View) (hc : isGet c = true ∨ Malformed c r) :
    gripAfter task v c r (Grip.afterFailure v c) := by
  unfold gripAfter Grip.afterFailure
  cases hget : isGet c with
  | true => simp
  | false =>
      have hbad : Malformed c r := by simpa [hget] using hc
      simp [verdict_of_malformed hbad]

theorem Good.fail_sent (h : Good keyPrefix task Strict now s m strays (.sent c) v) :
    Good keyPrefix task Strict now s m (strays ++ [c]) .running
      (v.heard c r (Grip.afterFailure v c)) := by
  obtain ⟨hf, hgrip⟩ := h
  refine ⟨by simpa [inFlight] using hf.heard, ?_⟩
  simp only [PhaseFact, View.heard, Grip.afterFailure]
  cases hget : isGet c with
  | false => trivial
  | true =>
      rw [if_pos rfl]
      exact GripFact.push hget hgrip

theorem Good.fail_answered (h : Good keyPrefix task Strict now s m strays (.answered c r) v) :
    Good keyPrefix task Strict now s m strays .running
      (v.heard c r' (Grip.afterFailure v c)) := by
  obtain ⟨hf, grip, hafter, hgrip⟩ := h
  refine ⟨hf.heard, ?_⟩
  simp only [PhaseFact, View.heard, Grip.afterFailure]
  cases hget : isGet c with
  | false => trivial
  | true =>
      obtain rfl : grip = v.grip := by simpa [gripAfter, hget] using hafter
      exact hgrip

theorem Good.stray {db : Db} (h : Good keyPrefix task Strict now db.strings m (c :: strays) phase v) :
    Good keyPrefix task Strict now (db.exec now c).1.strings m strays phase v := by
  obtain ⟨hf, hphase⟩ := h
  have haims := hf.aims c (by simp)
  refine ⟨Facts.exec (by simpa using hf), ?_⟩
  cases phase with
  | absent => trivial
  | running => exact GripFact.exec haims hphase
  | sent c' => exact GripFact.exec haims hphase
  | answered c' r =>
      obtain ⟨grip, hafter, hgrip⟩ := hphase
      exact ⟨grip, hafter, hgrip.exec haims⟩

theorem Good.lose (h : Good keyPrefix task Strict now s m (c :: strays) phase v) :
    Good keyPrefix task Strict now s m strays phase v := by
  obtain ⟨hf, hphase⟩ := h
  have hsub : ∀ c' ∈ strays, c' ∈ c :: strays := fun c' hc' => List.mem_cons_of_mem c hc'
  refine ⟨hf.subset fun c' hc' => by simpa using Or.inr hc', ?_⟩
  cases phase with
  | absent => trivial
  | running => exact GripFact.subset hsub hphase
  | sent c' => exact GripFact.subset hsub hphase
  | answered c' r =>
      obtain ⟨grip, hafter, hgrip⟩ := hphase
      exact ⟨grip, hafter, hgrip.subset hsub⟩

theorem Good.finish (h : Good keyPrefix task Strict now s m strays .running v) :
    Good keyPrefix task Strict now s m strays .absent v :=
  ⟨h.facts, trivial⟩

def View.cancelled (v : View) : LeaseEnd → View
  | .timeout => { v with valid := none, grip := .unknown }
  | .abort => { v with grip := .unknown }

theorem Good.cancel {left : List Command} (kind : LeaseEnd)
    (h : Good keyPrefix task Strict now s m strays phase v)
    (hsub : ∀ c ∈ left, c ∈ strays ++ inFlight phase) :
    Good keyPrefix task Strict now s (leaseCancel m kind) left .absent (v.cancelled kind) := by
  have hf := h.facts.subset hsub
  refine ⟨?_, trivial⟩
  simp only [inFlight, List.append_nil]
  cases kind with
  | timeout => exact hf.cleared
  | abort =>
      exact ⟨hf.time, hf.owned, hf.valid, hf.aims, hf.stored, hf.unowned, hf.no_release, hf.soon,
        hf.leased⟩

end

section

variable {G : Type} [DecidableEq G] {keyPrefix : String} {gateways : G → GatewayTask}
  {task : GatewayTask} {ls : LeaseHistory G} {t : G} {now : ℕ} {v v' : View}
  {phase phase' : Phase Command Reply} {c : Command} {r r' : Reply}
  {x : ℕ × Label Command Reply leaseSig G LeaseEnd Unit}

/-! ## The record of the gateway that moves -/

theorem Recorded.move (h : Recorded keyPrefix t ls phase v)
    (hx : unsettledAfter t (unsettled t ls) x = unsettled t ls) (howned : v'.owned = v.owned)
    (hlimit : v'.limit = v.limit)
    (hsettled : v'.grip = .clear → (∀ c, phase'.command = some c → isGet c = true) →
      unsettled t ls = none) :
    Recorded keyPrefix t (ls ++ [x]) phase' v' where
  limit := by
    rw [hlimit, largestLimit_snoc]
    exact h.limit.trans (le_max_left _ _)
  below slot hslot := by
    rw [hlimit]
    exact h.below slot (howned ▸ hslot)
  key key hkey := by
    rw [unsettled_snoc, hx] at hkey
    rw [howned]
    exact h.key key hkey
  settled hgrip hphase := by
    rw [unsettled_snoc, hx]
    exact hsettled hgrip hphase

theorem Recorded.launch (h : Recorded keyPrefix t ls .absent v) :
    Recorded keyPrefix t (ls ++ [(now, .launch t)]) .running v.launched := by
  refine h.move rfl rfl rfl fun hgrip _ => ?_
  cases hu : unsettled t ls with
  | none => rfl
  | some key =>
      obtain ⟨slot, hslot, -⟩ := h.key key hu
      simp [View.launched, hslot] at hgrip

theorem Recorded.act {l : LeaseOp} {a : leaseSig.Ans l} (h : Recorded keyPrefix t ls .running v)
    (hpre : (leaseContract keyPrefix task).pre v (.inr l))
    (hpost : (leaseContract keyPrefix task).post v (.inr l) a v') :
    Recorded keyPrefix t (ls ++ [(now, .act t l a)]) .running v' := by
  cases l with
  | now =>
      obtain ⟨-, rfl⟩ := hpost
      exact h.move rfl rfl rfl h.settled
  | random =>
      obtain rfl := hpost
      exact h.move rfl rfl rfl h.settled
  | ownedSlot =>
      obtain ⟨-, rfl⟩ := hpost
      exact h.move rfl rfl rfl h.settled
  | setValidUntil d =>
      obtain rfl := hpost
      exact h.move rfl rfl rfl h.settled
  | setOwnedSlot slot =>
      obtain rfl := hpost
      have hclear : v.grip = .clear := by
        cases slot with
        | none => exact hpre.2
        | some k => exact hpre.2.2.1
      have hnone : unsettled t ls = none := h.settled hclear (by simp [Phase.command])
      have hnone' : unsettled t (ls ++ [(now, .act t (.setOwnedSlot slot) a)]) = none := by
        rw [unsettled_snoc, hnone]
        rfl
      refine ⟨h.limit.trans (by simp [largestLimit_snoc]), fun k hk => ?_, fun key hkey => ?_,
        fun _ _ => hnone'⟩
      · obtain rfl : slot = some k := hk
        exact hpre.2.2.2
      · rw [hnone'] at hkey
        cases hkey

theorem slotKeyOf_of_aims {owned : Option ℕ} {key : String} (haims : Aims keyPrefix task owned c)
    (hkey : slotKeyOf c = some key) : ∃ slot, owned = some slot ∧ key = slotKey keyPrefix slot := by
  cases c with
  | get k => cases hkey
  | set k value px =>
      obtain ⟨slot, howned, rfl, -⟩ := haims
      exact ⟨slot, howned, (Option.some.inj hkey).symm⟩
  | complete k value =>
      obtain ⟨slot, howned, rfl, -⟩ := haims
      exact ⟨slot, howned, (Option.some.inj hkey).symm⟩
  | renew k value px =>
      obtain ⟨slot, howned, rfl, -⟩ := haims
      exact ⟨slot, howned, (Option.some.inj hkey).symm⟩
  | hget k field => cases hkey
  | hincrby k field n => cases hkey

theorem Recorded.send (h : Recorded keyPrefix t ls .running v)
    (haims : Aims keyPrefix task v.owned c) :
    Recorded keyPrefix t (ls ++ [(now, .send t c)]) (.sent c) v := by
  have hsnoc : unsettled t (ls ++ [(now, .send t c)]) = (slotKeyOf c).or (unsettled t ls) := by
    simp [unsettled_snoc, unsettledAfter]
  refine ⟨h.limit.trans (by simp [largestLimit_snoc]), h.below, fun key hkey => ?_,
    fun hgrip hphase => ?_⟩
  · rw [hsnoc] at hkey
    rcases Option.or_eq_some_iff.mp hkey with hkey | ⟨-, hkey⟩
    · exact slotKeyOf_of_aims haims hkey
    · exact h.key key hkey
  · have hget : isGet c = true := hphase c rfl
    have hkey : slotKeyOf c = none := by cases c <;> simp_all [isGet, slotKeyOf]
    rw [hsnoc, hkey, h.settled hgrip (by simp [Phase.command])]
    rfl

theorem unsettledAfter_deliver (t : G) (now : ℕ) (c : Command) (r : Reply) (u : Option String) :
    unsettledAfter t u (now, .deliver t c r) = u ∨
      (unsettledAfter t u (now, .deliver t c r) = none ∧ verdict c r = .rejected) := by
  simp only [unsettledAfter, if_true]
  cases hv : verdict c r <;> simp

theorem Recorded.deliver {grip : Grip} (h : Recorded keyPrefix t ls (.answered c r) v)
    (hafter : gripAfter task v c r' grip) :
    Recorded keyPrefix t (ls ++ [(now, .deliver t c r')]) .running (v.heard c r' grip) := by
  refine ⟨?_, fun slot hslot => ?_, fun key hkey => ?_, fun hgrip _ => ?_⟩
  · rw [largestLimit_snoc]
    exact max_le_max h.limit le_rfl
  · exact (h.below slot hslot).trans_le (le_max_left _ _)
  · rw [unsettled_snoc] at hkey
    rcases unsettledAfter_deliver t now c r' (unsettled t ls) with hu | ⟨hu, -⟩
    · exact h.key key (hu ▸ hkey)
    · rw [hu] at hkey
      cases hkey
  · rw [unsettled_snoc]
    obtain rfl : grip = .clear := hgrip
    unfold gripAfter at hafter
    cases hget : isGet c with
    | true =>
        rw [if_pos hget] at hafter
        have hnone := h.settled hafter.symm (by simp [Phase.command, hget])
        rcases unsettledAfter_deliver t now c r' (unsettled t ls) with hu | ⟨hu, -⟩
        · rw [hu, hnone]
        · exact hu
    | false =>
        rw [if_neg (by simp [hget])] at hafter
        cases hv : verdict c r' <;> simp_all [unsettledAfter]

theorem Recorded.fail (h : Recorded keyPrefix t ls phase v) (hphase : phase.command = some c) :
    Recorded keyPrefix t (ls ++ [(now, .fail t c r)]) .running
      (v.heard c r (Grip.afterFailure v c)) := by
  have hsnoc : unsettled t (ls ++ [(now, .fail t c r)]) = unsettled t ls := by
    rw [unsettled_snoc]
    rfl
  refine ⟨?_, fun slot hslot => ?_, fun key hkey => ?_, fun hgrip _ => ?_⟩
  · rw [largestLimit_snoc]
    exact max_le_max h.limit le_rfl
  · exact (h.below slot hslot).trans_le (le_max_left _ _)
  · exact h.key key (hsnoc ▸ hkey)
  · rw [hsnoc]
    simp only [View.heard, Grip.afterFailure] at hgrip
    cases hget : isGet c with
    | false => simp [hget] at hgrip
    | true =>
        rw [hget, if_pos rfl] at hgrip
        exact h.settled hgrip (by simp [hphase, hget])

theorem Recorded.cancel (kind : LeaseEnd) (h : Recorded keyPrefix t ls phase v) :
    Recorded keyPrefix t (ls ++ [(now, .cancel t kind)]) .absent (v.cancelled kind) := by
  cases kind with
  | timeout => exact h.move rfl rfl rfl (by simp [View.cancelled])
  | abort => exact h.move rfl rfl rfl (by simp [View.cancelled])

end

end BreezeGateway
