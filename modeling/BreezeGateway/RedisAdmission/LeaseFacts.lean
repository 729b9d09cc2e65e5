import BreezeGateway.RedisAdmission.LeaseContract

/-!
# Facts about one lease task and Redis

`Good` ties the task's memory, its commands in flight and the slot keys to its view.  The
lemmas below say that it survives the passage of time, the writes of others and the execution
of the task's own commands, current or stray.
-/

namespace BreezeGateway

open Effects Lease

section

variable (keyPrefix : String) (task : GatewayTask) (Strict : Prop)

/-- The owned key carries the token up to `deadline`, for as long as that is in the future. -/
def Leased (now : ℕ) (s : Store String Bytes) (owned : Option ℕ) (deadline : ℕ) : Prop :=
  now < deadline →
    ∃ slot, owned = some slot ∧ s.Until (slotKey keyPrefix slot) (utf8 task.token) deadline

/-- `Strict` says that nobody else writes the slot keys; without it others may take a key away. -/
structure Facts (now : ℕ) (s : Store String Bytes) (m : LeaseState) (pending : List Command)
    (v : View) : Prop where
  time : v.time ≤ now
  owned : m.ownedSlot = v.owned
  valid : m.validUntil = v.valid
  aims : ∀ c ∈ pending, Aims keyPrefix task v.owned c
  stored : ∀ slot, s.read now (slotKey keyPrefix slot) = some (utf8 task.token) →
    v.owned = some slot
  unowned : v.owned = none → v.valid = none
  no_release : v.valid ≠ none → ∀ c ∈ pending, isRelease c = false
  soon : ∀ d, v.valid = some d → d ≤ now + task.config.leaseTtl
  leased : Strict → ∀ d, v.valid = some d → Leased keyPrefix task now s v.owned d

def GripFact (now : ℕ) (s : Store String Bytes) (strays : List Command) (owned : Option ℕ) :
    Grip → Prop
  | .unknown => True
  | .clear => (∀ c ∈ strays, isGet c = true) ∧
      ∀ slot, s.read now (slotKey keyPrefix slot) ≠ some (utf8 task.token)
  | .held deadline => (∀ c ∈ strays, isRelease c = false) ∧ owned ≠ none ∧
      deadline ≤ now + task.config.leaseTtl ∧
      (Strict → Leased keyPrefix task now s owned deadline)

/-- The grip is the view's own, or after an execution that of the view to come. -/
def PhaseFact (now : ℕ) (s : Store String Bytes) (strays : List Command) (v : View) :
    Phase Command Reply → Prop
  | .absent => True
  | .running | .sent _ => GripFact keyPrefix task Strict now s strays v.owned v.grip
  | .answered c r => ∃ grip, gripAfter task v c r grip ∧
      GripFact keyPrefix task Strict now s strays v.owned grip

def inFlight : Phase Command Reply → List Command
  | .sent c => [c]
  | _ => []

structure Good (now : ℕ) (s : Store String Bytes) (m : LeaseState) (strays : List Command)
    (phase : Phase Command Reply) (v : View) : Prop where
  facts : Facts keyPrefix task Strict now s m (strays ++ inFlight phase) v
  phase : PhaseFact keyPrefix task Strict now s strays v phase

/-- What everybody else may do to the slot keys. -/
structure Undisturbed (now now' : ℕ) (s s' : Store String Bytes) : Prop where
  le : now ≤ now'
  read : ∀ slot, s'.read now' (slotKey keyPrefix slot) = some (utf8 task.token) →
    s.read now (slotKey keyPrefix slot) = some (utf8 task.token)
  kept : Strict → ∀ slot d, now < d → s.Until (slotKey keyPrefix slot) (utf8 task.token) d →
    s'.Until (slotKey keyPrefix slot) (utf8 task.token) d

variable {keyPrefix task Strict} {now now' : ℕ} {s s' : Store String Bytes} {m : LeaseState}
  {pending strays : List Command} {v : View} {phase : Phase Command Reply}

theorem Undisturbed.tick (d : ℕ) : Undisturbed keyPrefix task Strict now (now + d) s s where
  le := Nat.le_add_right _ _
  read _ h := Store.read_of_le h (Nat.le_add_right _ _)
  kept _ _ _ _ h := h

theorem Leased.undisturbed (hu : Undisturbed keyPrefix task Strict now now' s s') (hS : Strict)
    {owned : Option ℕ} {d : ℕ} (h : Leased keyPrefix task now s owned d) :
    Leased keyPrefix task now' s' owned d := by
  intro hd
  have hnow : now < d := hu.le.trans_lt hd
  obtain ⟨slot, howned, huntil⟩ := h hnow
  exact ⟨slot, howned, hu.kept hS slot d hnow huntil⟩

theorem Facts.undisturbed (hu : Undisturbed keyPrefix task Strict now now' s s')
    (h : Facts keyPrefix task Strict now s m pending v) :
    Facts keyPrefix task Strict now' s' m pending v where
  time := h.time.trans hu.le
  owned := h.owned
  valid := h.valid
  aims := h.aims
  stored slot hr := h.stored slot (hu.read slot hr)
  unowned := h.unowned
  no_release := h.no_release
  soon d hd := (h.soon d hd).trans (Nat.add_le_add_right hu.le _)
  leased hS d hd := (h.leased hS d hd).undisturbed hu hS

theorem GripFact.undisturbed (hu : Undisturbed keyPrefix task Strict now now' s s')
    {owned : Option ℕ} {grip : Grip} (h : GripFact keyPrefix task Strict now s strays owned grip) :
    GripFact keyPrefix task Strict now' s' strays owned grip := by
  cases grip with
  | unknown => exact trivial
  | clear => exact ⟨h.1, fun slot hr => h.2 slot (hu.read slot hr)⟩
  | held d =>
      obtain ⟨hstrays, howned, hsoon, hleased⟩ := h
      exact ⟨hstrays, howned, hsoon.trans (Nat.add_le_add_right hu.le _),
        fun hS => (hleased hS).undisturbed hu hS⟩

theorem Good.undisturbed (hu : Undisturbed keyPrefix task Strict now now' s s')
    (h : Good keyPrefix task Strict now s m strays phase v) :
    Good keyPrefix task Strict now' s' m strays phase v := by
  refine ⟨h.facts.undisturbed hu, ?_⟩
  have hp := h.phase
  cases phase with
  | absent => exact trivial
  | running => exact GripFact.undisturbed hu hp
  | sent c => exact GripFact.undisturbed hu hp
  | answered c r =>
      obtain ⟨grip, hafter, hgrip⟩ := hp
      exact ⟨grip, hafter, hgrip.undisturbed hu⟩

/-! ## Executing commands -/

theorem millis_px : millis (asMillis task.config.leaseTtl) = task.config.leaseTtl :=
  GatewayLeaseConfig.millis_leaseTtl task.valid

theorem undisturbed_exec {db : Db} {c : Command} {owner : GatewayTask} {owned : Option ℕ}
    (haims : Aims keyPrefix owner owned c) (hne : owner.token ≠ task.token) :
    Undisturbed keyPrefix task Strict now now db.strings (db.exec now c).1.strings := by
  have hbytes : utf8 task.token ≠ utf8 owner.token := fun hc => hne (utf8_injective hc).symm
  cases c with
  | get key => exact ⟨le_rfl, fun _ h => h, fun _ _ _ _ h => h⟩
  | set key value px =>
      obtain ⟨slot, -, rfl, rfl, rfl⟩ := haims
      refine ⟨le_rfl, fun i h => ?_, fun _ i d hd h => h.putIfAbsent hd⟩
      rcases Store.read_putIfAbsent le_rfl h with h | ⟨-, hv, -⟩
      · exact h
      · exact absurd hv hbytes
  | complete key value =>
      obtain ⟨slot, -, rfl, rfl⟩ := haims
      exact ⟨le_rfl, fun i h => (Store.read_removeIf le_rfl h).1,
        fun _ i d hd h => h.removeIf hd fun hc => hbytes hc.2⟩
  | renew key value px =>
      obtain ⟨slot, -, rfl, rfl, rfl⟩ := haims
      exact ⟨le_rfl, fun i h => Store.read_extendIf le_rfl h,
        fun _ i d hd h => h.extendIf hd fun _ hv => absurd hv hbytes⟩
  | hget key field => exact haims.elim
  | hincrby key field n => exact haims.elim

theorem stored_exec {db : Db} {c : Command} (haims : Aims keyPrefix task v.owned c) {slot : ℕ}
    (hstored : ∀ i, db.strings.read now (slotKey keyPrefix i) = some (utf8 task.token) →
      v.owned = some i)
    (h : (db.exec now c).1.strings.read now (slotKey keyPrefix slot) = some (utf8 task.token)) :
    v.owned = some slot := by
  cases c with
  | get key => exact hstored slot h
  | set key value px =>
      obtain ⟨k, howned, rfl, rfl, rfl⟩ := haims
      rcases Store.read_putIfAbsent le_rfl h with h | ⟨hk, -, -⟩
      · exact hstored slot h
      · rw [howned, slotKey_inj.mp hk]
  | complete key value => exact hstored slot (Store.read_removeIf le_rfl h).1
  | renew key value px => exact hstored slot (Store.read_extendIf le_rfl h)
  | hget key field => exact haims.elim
  | hincrby key field n => exact haims.elim

theorem leased_exec {db : Db} {c : Command} {owned : Option ℕ} {d : ℕ}
    (haims : Aims keyPrefix task owned c) (hrelease : isRelease c = false)
    (hsoon : d ≤ now + task.config.leaseTtl) (h : Leased keyPrefix task now db.strings owned d) :
    Leased keyPrefix task now (db.exec now c).1.strings owned d := by
  intro hd
  obtain ⟨slot, howned, huntil⟩ := h hd
  refine ⟨slot, howned, ?_⟩
  cases c with
  | get key => exact huntil
  | set key value px => exact huntil.putIfAbsent hd
  | complete key value => simp [isRelease] at hrelease
  | renew key value px =>
      obtain ⟨k, -, rfl, rfl, rfl⟩ := haims
      exact huntil.extendIf hd fun _ _ => by rwa [millis_px]
  | hget key field => exact haims.elim
  | hincrby key field n => exact haims.elim

theorem Facts.exec {db : Db} {c : Command}
    (h : Facts keyPrefix task Strict now db.strings m (c :: pending) v) :
    Facts keyPrefix task Strict now (db.exec now c).1.strings m pending v where
  time := h.time
  owned := h.owned
  valid := h.valid
  aims c' hc' := h.aims c' (List.mem_cons_of_mem c hc')
  stored _ hr := stored_exec (h.aims c List.mem_cons_self) h.stored hr
  unowned := h.unowned
  no_release hv c' hc' := h.no_release hv c' (List.mem_cons_of_mem c hc')
  soon := h.soon
  leased hS d hd := leased_exec (h.aims c List.mem_cons_self)
    (h.no_release (by simp [hd]) c List.mem_cons_self) (h.soon d hd) (h.leased hS d hd)

theorem Facts.subset {fewer : List Command} (hsub : ∀ c ∈ fewer, c ∈ pending)
    (h : Facts keyPrefix task Strict now s m pending v) :
    Facts keyPrefix task Strict now s m fewer v where
  time := h.time
  owned := h.owned
  valid := h.valid
  aims c hc := h.aims c (hsub c hc)
  stored := h.stored
  unowned := h.unowned
  no_release hv c hc := h.no_release hv c (hsub c hc)
  soon := h.soon
  leased := h.leased

theorem GripFact.subset {fewer : List Command} {owned : Option ℕ} {grip : Grip}
    (hsub : ∀ c ∈ fewer, c ∈ strays) (h : GripFact keyPrefix task Strict now s strays owned grip) :
    GripFact keyPrefix task Strict now s fewer owned grip := by
  cases grip with
  | unknown => exact trivial
  | clear => exact ⟨fun c hc => h.1 c (hsub c hc), h.2⟩
  | held d => exact ⟨fun c hc => h.1 c (hsub c hc), h.2⟩

theorem GripFact.push {c : Command} {owned : Option ℕ} {grip : Grip} (hget : isGet c = true)
    (h : GripFact keyPrefix task Strict now s strays owned grip) :
    GripFact keyPrefix task Strict now s (strays ++ [c]) owned grip := by
  have hrel : isRelease c = false := by cases c <;> simp_all [isGet, isRelease]
  cases grip with
  | unknown => trivial
  | clear => exact ⟨List.forall_mem_append.mpr ⟨h.1, List.forall_mem_singleton.mpr hget⟩, h.2⟩
  | held d => exact ⟨List.forall_mem_append.mpr ⟨h.1, List.forall_mem_singleton.mpr hrel⟩, h.2⟩

theorem GripFact.exec {db : Db} {c : Command} {owned : Option ℕ} {grip : Grip}
    (haims : Aims keyPrefix task owned c)
    (h : GripFact keyPrefix task Strict now db.strings (c :: strays) owned grip) :
    GripFact keyPrefix task Strict now (db.exec now c).1.strings strays owned grip := by
  cases grip with
  | unknown => exact trivial
  | clear =>
      obtain ⟨hgets, hread⟩ := h
      have hget := hgets c List.mem_cons_self
      refine ⟨fun c' hc' => hgets c' (List.mem_cons_of_mem c hc'), ?_⟩
      cases c with
      | get key => exact hread
      | _ => simp [isGet] at hget
  | held d =>
      obtain ⟨hrel, howned, hsoon, hleased⟩ := h
      exact ⟨fun c' hc' => hrel c' (List.mem_cons_of_mem c hc'), howned, hsoon,
        fun hS => leased_exec haims (hrel c List.mem_cons_self) hsoon (hleased hS)⟩

theorem exists_grip_exec {db : Db} {c : Command}
    (h : Facts keyPrefix task Strict now db.strings m [c] v)
    (hset : isSet c = true → v.grip = .clear)
    (hgrip : GripFact keyPrefix task Strict now db.strings [] v.owned v.grip) :
    ∃ grip, gripAfter task v c (db.exec now c).2 grip ∧
      GripFact keyPrefix task Strict now (db.exec now c).1.strings [] v.owned grip := by
  have haims := h.aims c List.mem_cons_self
  have hheld : ∀ slot, v.owned = some slot →
      GripFact keyPrefix task Strict now
        (db.strings.put (slotKey keyPrefix slot) (utf8 task.token) (now + task.config.leaseTtl)) []
        v.owned (.held (now + task.config.leaseTtl)) := fun slot howned =>
    ⟨by simp, by simp [howned], le_rfl, fun _ _ => ⟨slot, howned, Store.until_put ..⟩⟩
  have htime : v.time + task.config.leaseTtl ≤ now + task.config.leaseTtl :=
    Nat.add_le_add_right h.time _
  cases c with
  | get key => exact ⟨v.grip, by simp [gripAfter, isGet], hgrip⟩
  | set key value px =>
      obtain ⟨slot, howned, rfl, rfl, rfl⟩ := haims
      rw [hset rfl] at hgrip
      cases hput : (db.strings.putIfAbsent now (slotKey keyPrefix slot) (utf8 task.token)
          (now + millis (asMillis task.config.leaseTtl))).2 with
      | true =>
          refine ⟨.held (now + task.config.leaseTtl), ?_, ?_⟩
          · simpa [gripAfter, isGet, verdict, Db.exec, hput, Db.setReply] using htime
          · have hdb := (Store.putIfAbsent_true hput).2
            rw [millis_px] at hdb
            simp only [Db.exec, millis_px, hdb]
            exact hheld slot howned
      | false =>
          refine ⟨.clear, ?_, ?_⟩
          · simp [gripAfter, isGet, verdict, Db.exec, hput, Db.setReply]
          · simp only [Db.exec, (Store.putIfAbsent_false hput).2]
            exact hgrip
  | complete key value =>
      obtain ⟨slot, howned, rfl, rfl⟩ := haims
      refine ⟨.clear, ?_, by simp, fun i hr => ?_⟩
      · cases hrem : (db.strings.removeIf now (slotKey keyPrefix slot) (utf8 task.token)).2 <;>
          simp [gripAfter, isGet, verdict, Db.exec, hrem, Db.transitionReply]
      · obtain ⟨hold, hne⟩ := Store.read_removeIf le_rfl hr
        have hi := h.stored i hold
        rw [howned] at hi
        exact hne ⟨by rw [Option.some.inj hi], rfl⟩
  | renew key value px =>
      obtain ⟨slot, howned, rfl, rfl, rfl⟩ := haims
      cases hext : (db.strings.extendIf now (slotKey keyPrefix slot) (utf8 task.token)
          (now + millis (asMillis task.config.leaseTtl))).2 with
      | true =>
          refine ⟨.held (now + task.config.leaseTtl), ?_, ?_⟩
          · simpa [gripAfter, isGet, verdict, Db.exec, hext, Db.transitionReply] using htime
          · have hdb := (Store.extendIf_true hext).2
            rw [millis_px] at hdb
            simp only [Db.exec, millis_px, hdb]
            exact hheld slot howned
      | false =>
          obtain ⟨hread, hsame⟩ := Store.extendIf_false hext
          refine ⟨.clear, ?_, by simp, fun i hr => ?_⟩
          · simp [gripAfter, isGet, verdict, Db.exec, hext, Db.transitionReply]
          · simp only [Db.exec, hsame] at hr
            have hi := h.stored i hr
            rw [howned] at hi
            obtain rfl := Option.some.inj hi
            exact hread hr
  | hget key field => exact haims.elim
  | hincrby key field n => exact haims.elim

end

end BreezeGateway
