import BreezeGateway.RedisAdmission.Participation
import BreezeGateway.RedisAdmission.RefreshPass

/-!
# Refresh cycles

One lease task and Redis, from any state in which the token of the task is stored under its own
slot at most.  The other gateways are part of the environment.
-/

namespace BreezeGateway

open Effects Effects.Network Lease

abbrev CycleWorld := World Command Reply leaseSig Db LeaseState Unit Unit (Except AdmissionError Unit)

abbrev CycleLabel := Label Command Reply leaseSig Unit LeaseEnd (Except AdmissionError Unit)

abbrev CycleHistory := History Command Reply leaseSig Unit LeaseEnd (Except AdmissionError Unit)

def cycleNetwork (keyPrefix : String) (task : GatewayTask) (others : ℕ → Db → Db → Prop) :
    Network Command Reply leaseSig Db LeaseState Unit Unit LeaseEnd (Except AdmissionError Unit) where
  exec := Db.exec
  conveys := Conveys
  garbled c r := isGet c = true ∨ Malformed c r
  lane := id
  environment := others
  launch _ mem _ p mem' :=
    mem.dropped = false ∧ mem' = mem ∧ p = cycle keyPrefix task.token task.config
  act now _ mem l x mem' := leaseAct now mem l x mem'
  suspends _ := False
  finish _ _ _ mem := mem
  cancel kind _ _ mem := leaseCancel mem kind

/-- What the answers of the pass in progress have told. -/
def heardIn (ls : CycleHistory) : Heard := cycleTale.told () ls

theorem LeaseState.isValid_of_le {m : LeaseState} {now later : ℕ} (h : m.isValid now = false)
    (hle : now ≤ later) : m.isValid later = false := by
  unfold isValid at h ⊢
  cases hd : m.validUntil with
  | none => rfl
  | some deadline =>
      rw [hd] at h
      simp only [decide_eq_false_iff_not, not_lt] at h ⊢
      exact h.trans hle

section

variable (keyPrefix : String) (task : GatewayTask)

/-- The token is readable under the key of the slot. -/
def Stored (now : ℕ) (s : Store String Bytes) (slot : ℕ) : Prop :=
  s.read now (slotKey keyPrefix slot) = some (utf8 task.token)

def Validity.Holds (now : ℕ) (m : LeaseState) : Validity → Prop
  | .unknown => True
  | .lapsed => m.isValid now = false
  | .published deadline => m.validUntil = some deadline

structure PassFacts (now : ℕ) (s : Store String Bytes) (m : LeaseState) (pending : List Command)
    (v : Pass) : Prop where
  owned : m.ownedSlot = v.owned
  aims : ∀ c ∈ pending, Aims keyPrefix task v.owned c
  stored : ∀ slot, Stored keyPrefix task now s slot → v.owned = some slot
  unowned : v.owned = none → m.isValid now = false
  validity : v.validity.Holds now m

def Absent (now : ℕ) (s : Store String Bytes) (strays : List Command) : Prop :=
  (∀ c ∈ strays, isGet c = true) ∧ ∀ slot, ¬ Stored keyPrefix task now s slot

def ClearFact (now : ℕ) (s : Store String Bytes) (strays : List Command) (v : Pass) :
    Phase Command Reply → Prop
  | .absent => True
  | .answered c r => v.clearAfter c r = true → Absent keyPrefix task now s strays
  | _ => v.clear = true → Absent keyPrefix task now s strays

structure PassGood (now : ℕ) (s : Store String Bytes) (m : LeaseState) (strays : List Command)
    (phase : Phase Command Reply) (v : Pass) : Prop where
  facts : PassFacts keyPrefix task now s m (strays ++ inFlight phase) v
  clear : ClearFact keyPrefix task now s strays v phase

structure CycleStart (w : CycleWorld) : Prop where
  idle : w.threads () = none
  stored : ∀ slot, Stored keyPrefix task w.now w.db.strings slot → w.mem.ownedSlot = some slot
  eligible : w.mem.isValid w.now = true →
    ∃ slot, w.mem.ownedSlot = some slot ∧ Stored keyPrefix task w.now w.db.strings slot
  strays : ∀ x ∈ w.strays (), Aims keyPrefix task w.mem.ownedSlot x.2

end

section

variable {keyPrefix : String} {task : GatewayTask} {now now' : ℕ} {s s' : Store String Bytes}
  {m m' : LeaseState} {pending strays : List Command} {v : Pass} {phase : Phase Command Reply}
  {c : Command} {r r' : Reply}

/-! ## Steps of the world around the task -/

theorem PassFacts.undisturbed (hu : Undisturbed keyPrefix task False now now' s s')
    (h : PassFacts keyPrefix task now s m pending v) :
    PassFacts keyPrefix task now' s' m pending v where
  owned := h.owned
  aims := h.aims
  stored slot hr := h.stored slot (hu.read slot hr)
  unowned hnone := LeaseState.isValid_of_le (h.unowned hnone) hu.le
  validity := by
    have hv := h.validity
    cases hval : v.validity with
    | unknown => trivial
    | lapsed =>
        rw [hval] at hv
        exact LeaseState.isValid_of_le hv hu.le
    | published deadline =>
        rw [hval] at hv
        exact hv

theorem Absent.undisturbed (hu : Undisturbed keyPrefix task False now now' s s')
    (h : Absent keyPrefix task now s strays) : Absent keyPrefix task now' s' strays :=
  ⟨h.1, fun slot hr => h.2 slot (hu.read slot hr)⟩

theorem ClearFact.imp {left : List Command} (h : ClearFact keyPrefix task now s strays v phase)
    (himp : Absent keyPrefix task now s strays → Absent keyPrefix task now' s' left) :
    ClearFact keyPrefix task now' s' left v phase := by
  cases phase with
  | absent => trivial
  | _ => exact fun hclear => himp (h hclear)

theorem PassGood.undisturbed (hu : Undisturbed keyPrefix task False now now' s s')
    (h : PassGood keyPrefix task now s m strays phase v) :
    PassGood keyPrefix task now' s' m strays phase v :=
  ⟨h.facts.undisturbed hu, h.clear.imp fun habsent => habsent.undisturbed hu⟩

/-! ## Commands -/

def Pass.view (v : Pass) : View := ⟨0, v.owned, none, if v.clear then .clear else .unknown, 0⟩

theorem PassFacts.exec {db : Db} (h : PassFacts keyPrefix task now db.strings m (c :: pending) v) :
    PassFacts keyPrefix task now (db.exec now c).1.strings m pending v where
  owned := h.owned
  aims c' hc' := h.aims c' (List.mem_cons_of_mem c hc')
  stored _ hr := stored_exec (v := v.view) (h.aims c List.mem_cons_self) h.stored hr
  unowned := h.unowned
  validity := h.validity

theorem PassFacts.subset {fewer : List Command} (hsub : ∀ c ∈ fewer, c ∈ pending)
    (h : PassFacts keyPrefix task now s m pending v) :
    PassFacts keyPrefix task now s m fewer v :=
  ⟨h.owned, fun c hc => h.aims c (hsub c hc), h.stored, h.unowned, h.validity⟩

theorem Absent.exec_get {db : Db} (hget : isGet c = true)
    (h : Absent keyPrefix task now db.strings (c :: strays)) :
    Absent keyPrefix task now (db.exec now c).1.strings strays := by
  refine ⟨fun c' hc' => h.1 c' (List.mem_cons_of_mem c hc'), ?_⟩
  cases c with
  | get key => exact h.2
  | _ => cases hget

/-- A reply that rejects the token says that it is nowhere. -/
theorem PassGood.exec {db : Db} (h : PassGood keyPrefix task now db.strings m [] (.sent c) v)
    (hpre : (passContract keyPrefix task).pre v (.inl c)) :
    PassGood keyPrefix task now (db.exec now c).1.strings m [] (.answered c (db.exec now c).2) v := by
  obtain ⟨hfacts, hclear⟩ := h
  refine ⟨PassFacts.exec hfacts, ?_⟩
  have hknown : Facts keyPrefix task False now db.strings ⟨none, v.owned, false⟩ [c] v.view :=
    ⟨Nat.zero_le _, rfl, rfl, hfacts.aims, hfacts.stored, fun _ => rfl, fun hne => absurd rfl hne,
      by rintro d ⟨⟩, fun hfalse => hfalse.elim⟩
  have hgrip : GripFact keyPrefix task False now db.strings [] v.view.owned v.view.grip := by
    unfold Pass.view
    split
    · rename_i hv
      exact hclear hv
    · trivial
  obtain ⟨grip, hafter, hfact⟩ := exists_grip_exec hknown (fun hset => if_pos (hpre.2 hset)) hgrip
  intro hrejected
  unfold Pass.clearAfter at hrejected
  unfold gripAfter at hafter
  cases hget : isGet c with
  | true =>
      rw [hget] at hrejected hafter
      obtain rfl : grip = v.view.grip := hafter
      have hv : v.view.grip = .clear := if_pos hrejected
      rw [hv] at hfact
      exact hfact
  | false =>
      rw [hget] at hrejected hafter
      cases hverdict : verdict c (db.exec now c).2 with
      | rejected =>
          rw [hverdict] at hafter
          obtain rfl : grip = .clear := hafter
          exact hfact
      | _ =>
          rw [hverdict] at hrejected
          cases hrejected

theorem PassFacts.reply (h : PassFacts keyPrefix task now s m pending v) :
    PassFacts keyPrefix task now s m pending (v.reply c r) :=
  ⟨h.owned, h.aims, h.stored, h.unowned, h.validity⟩

theorem PassGood.deliver (h : PassGood keyPrefix task now s m strays (.answered c r) v)
    (hc : Conveys c r r') : PassGood keyPrefix task now s m strays .running (v.reply c r') := by
  refine ⟨h.facts.reply, fun hclear => h.clear ?_⟩
  unfold Pass.reply Pass.clearAfter at hclear
  unfold Pass.clearAfter
  rwa [← verdict_of_conveys hc]

theorem clearAfter_of_garbled (hc : isGet c = true ∨ Malformed c r)
    (h : v.clearAfter c r = true) : isGet c = true ∧ v.clear = true := by
  unfold Pass.clearAfter at h
  cases hget : isGet c with
  | true =>
      rw [hget] at h
      exact ⟨rfl, h⟩
  | false =>
      have hbad : Malformed c r := by simpa [hget] using hc
      rw [hget, verdict_of_malformed hbad] at h
      cases h

theorem PassGood.fail_sent (h : PassGood keyPrefix task now s m strays (.sent c) v)
    (hc : isGet c = true ∨ Malformed c r) :
    PassGood keyPrefix task now s m (strays ++ [c]) .running (v.reply c r) := by
  refine ⟨by simpa [inFlight] using h.facts.reply, fun hclear => ?_⟩
  obtain ⟨hget, hv⟩ := clearAfter_of_garbled hc hclear
  obtain ⟨hgets, hnone⟩ := h.clear hv
  refine ⟨fun c' hc' => ?_, hnone⟩
  rcases List.mem_append.mp hc' with hc' | hc'
  · exact hgets c' hc'
  · rwa [List.mem_singleton.mp hc']

theorem PassGood.fail_answered (h : PassGood keyPrefix task now s m strays (.answered c r) v)
    (hc : isGet c = true ∨ Malformed c r') :
    PassGood keyPrefix task now s m strays .running (v.reply c r') := by
  refine ⟨h.facts.reply, fun hclear => h.clear ?_⟩
  obtain ⟨hget, hv⟩ := clearAfter_of_garbled hc hclear
  unfold Pass.clearAfter
  rwa [if_pos hget]

theorem PassGood.stray {db : Db}
    (h : PassGood keyPrefix task now db.strings m (c :: strays) phase v) :
    PassGood keyPrefix task now (db.exec now c).1.strings m strays phase v :=
  ⟨PassFacts.exec h.facts, h.clear.imp fun habsent =>
    habsent.exec_get (habsent.1 c List.mem_cons_self)⟩

theorem PassGood.lose (h : PassGood keyPrefix task now s m (c :: strays) phase v) :
    PassGood keyPrefix task now s m strays phase v :=
  ⟨h.facts.subset fun _ hc' => List.mem_cons_of_mem c hc',
    h.clear.imp fun habsent => ⟨fun c' hc' => habsent.1 c' (List.mem_cons_of_mem c hc'), habsent.2⟩⟩

/-! ## The steps of the task -/

theorem PassGood.send (h : PassGood keyPrefix task now s m strays .running v)
    (haims : Aims keyPrefix task v.owned c) :
    PassGood keyPrefix task now s m strays (.sent c) v := by
  obtain ⟨hf, hclear⟩ := h
  refine ⟨⟨hf.owned, fun c' hc' => ?_, hf.stored, hf.unowned, hf.validity⟩, hclear⟩
  rcases List.mem_append.mp hc' with hc' | hc'
  · exact hf.aims c' (by simp [hc'])
  · rwa [List.mem_singleton.mp hc']

theorem PassGood.act {l : LeaseOp} {x : leaseSig.Ans l}
    (h : PassGood keyPrefix task now s m strays .running v)
    (hpre : (passContract keyPrefix task).pre v (.inr l)) (ha : leaseAct now m l x m') :
    ∃ v', (passContract keyPrefix task).post v (.inr l) x v' ∧
      v'.heard = cycleTale.after v.heard (.inr l) x ∧
      PassGood keyPrefix task now s m' strays .running v' := by
  obtain ⟨hf, hclear⟩ := h
  cases l with
  | now =>
      obtain ⟨rfl, rfl⟩ := ha
      exact ⟨_, rfl, rfl, ⟨hf.owned, hf.aims, hf.stored, hf.unowned, hf.validity⟩, hclear⟩
  | random =>
      obtain rfl := ha
      exact ⟨_, rfl, rfl, hf, hclear⟩
  | ownedSlot =>
      obtain ⟨rfl, rfl⟩ := ha
      exact ⟨_, ⟨hf.owned, rfl⟩, rfl, hf, hclear⟩
  | setValidUntil d =>
      obtain rfl := ha
      cases d with
      | none => exact ⟨_, rfl, rfl, ⟨hf.owned, hf.aims, hf.stored, fun _ => rfl, rfl⟩, hclear⟩
      | some deadline =>
          obtain ⟨slot, sent, howned, -, -⟩ := hpre
          refine ⟨_, rfl, rfl, ⟨hf.owned, hf.aims, hf.stored, fun hnone => ?_, rfl⟩, hclear⟩
          rw [howned] at hnone
          cases hnone
  | setOwnedSlot slot =>
      obtain rfl := ha
      obtain ⟨hvalidity, hv⟩ := hpre
      obtain ⟨hgets, hnone⟩ := hclear hv
      have hlapsed : m.isValid now = false := by
        have hholds := hf.validity
        rwa [hvalidity] at hholds
      refine ⟨_, rfl, rfl, ⟨rfl, fun c hc => ?_, fun i hi => absurd hi (hnone i), fun _ => hlapsed, ?_⟩,
        hclear⟩
      · have hget := hgets c (by simpa [inFlight] using hc)
        cases c with
        | get key => trivial
        | _ => cases hget
      · dsimp only
        rw [hvalidity]
        exact hlapsed

/-- Between two passes only the slot is known. -/
def Pass.rested (v : Pass) : Pass := ⟨cycleTale.start, v.owned, .unknown, false⟩

def Pass.launched (v : Pass) : Pass where
  heard := cycleTale.start
  owned := v.owned
  validity := if v.owned = none then .lapsed else .unknown
  clear := decide (v.owned = none)

theorem PassGood.launch (h : PassGood keyPrefix task now s m strays .absent v) :
    v.launched.Fresh ∧ PassGood keyPrefix task now s m strays .running v.launched := by
  have hf := h.facts
  refine ⟨fun hnone => ⟨if_pos hnone, decide_eq_true hnone⟩, ⟨hf.owned, hf.aims, hf.stored, hf.unowned,
    ?_⟩, fun hclear => ?_⟩
  · unfold Pass.launched
    dsimp only
    split
    · rename_i hnone
      exact hf.unowned hnone
    · trivial
  · have hnone : v.owned = none := of_decide_eq_true hclear
    refine ⟨fun c hc => ?_, fun slot hslot => ?_⟩
    · have haims := hf.aims c (by simp [hc])
      rw [hnone] at haims
      exact isGet_of_aims_none haims
    · have hsome := hf.stored slot hslot
      rw [hnone] at hsome
      cases hsome

theorem PassGood.finish (h : PassGood keyPrefix task now s m strays .running v) :
    PassGood keyPrefix task now s m strays .absent v.rested :=
  ⟨⟨h.facts.owned, h.facts.aims, h.facts.stored, h.facts.unowned, trivial⟩, trivial⟩

theorem PassGood.cancel {left : List Command} (kind : LeaseEnd)
    (h : PassGood keyPrefix task now s m strays phase v)
    (hsub : ∀ c ∈ left, c ∈ strays ++ inFlight phase) :
    PassGood keyPrefix task now s (leaseCancel m kind) left .absent v.rested := by
  have hf := h.facts.subset hsub
  refine ⟨?_, trivial⟩
  simp only [inFlight, List.append_nil]
  cases kind with
  | timeout => exact ⟨hf.owned, hf.aims, hf.stored, fun _ => rfl, trivial⟩
  | abort => exact ⟨hf.owned, hf.aims, hf.stored, hf.unowned, trivial⟩

/-! ## Every run -/

/-- The pass of the task in a world with this history. -/
structure Follows (keyPrefix : String) (task : GatewayTask) (ls : CycleHistory) (w : CycleWorld)
    (v : Pass) : Prop where
  heard : v.heard = heardIn ls
  good : PassGood keyPrefix task w.now w.db.strings w.mem ((w.strays ()).map Prod.snd)
    (Phase.of (w.threads ())) v

variable {others : ℕ → Db → Db → Prop} {ls : CycleHistory} {w w' w₀ : CycleWorld} {g : Unit → Pass}
  {x : ℕ × CycleLabel}

theorem Follows.intro {th : Option (Thread Command Reply leaseSig (Except AdmissionError Unit))}
    (hheard : v.heard = heardIn ls)
    (hgood : PassGood keyPrefix task w.now w.db.strings m strays phase v) (hmem : w.mem = m)
    (hstrays : (w.strays ()).map Prod.snd = strays) (hth : w.threads () = th)
    (hphase : Phase.of th = phase) : Follows keyPrefix task ls w v := by
  subst hmem hstrays hphase hth
  exact ⟨hheard, hgood⟩

theorem heardIn_snoc : heardIn (ls ++ [x]) = cycleTale.next () (heardIn ls) x := Tale.told_snoc

theorem Follows.heard_snoc {heard : Heard} (h : Follows keyPrefix task ls w v)
    (hx : cycleTale.next () v.heard x = heard) : heard = heardIn (ls ++ [x]) := by
  rw [heardIn_snoc, ← h.heard, hx]

theorem Follows.other (h : Follows keyPrefix task ls w v)
    (hx : cycleTale.next () (heardIn ls) x = heardIn ls)
    (hu : Undisturbed keyPrefix task False w.now w'.now w.db.strings w'.db.strings)
    (hmem : w'.mem = w.mem) (hstrays : w'.strays = w.strays) (hthreads : w'.threads = w.threads) :
    Follows keyPrefix task (ls ++ [x]) w' v := by
  refine ⟨?_, ?_⟩
  · rw [heardIn_snoc, hx]
    exact h.heard
  · rw [hmem, hstrays, hthreads]
    exact h.good.undisturbed hu

theorem cycle_sound
    (hothers : ∀ now db db', others now db db' → ∀ slot, Stored keyPrefix task now db'.strings slot →
      Stored keyPrefix task now db.strings slot) :
    Sound (cycleNetwork keyPrefix task others) (fun _ => passContract keyPrefix task)
      (fun _ => Pass.Ends keyPrefix task) fun ls w g => Follows keyPrefix task ls w (g ()) where
  tick d hI := hI.other rfl (.tick d) rfl rfl rfl
  environment {ls w g db} hI h := by
    refine hI.other rfl ⟨le_rfl, ?_, fun hS => hS.elim⟩ rfl rfl rfl
    intro slot hr
    exact hothers _ _ _ h slot hr
  launch {ls w g t p mem} hI hidle h := by
    obtain ⟨-, rfl, rfl⟩ := h
    have hgood := hI.good
    rw [hidle] at hgood
    obtain ⟨hfresh, hgood⟩ := hgood.launch
    refine ⟨(g ()).launched, pass_cycle hfresh, ?_⟩
    exact .intro (hI.heard_snoc rfl) hgood rfl rfl rfl (Phase.of_idle _)
  act {ls w g t l k x mem} hI hth hpre h := by
    have hgood := hI.good
    rw [hth, Phase.of_idle] at hgood
    obtain ⟨v', hpost, hheard, hgood'⟩ := hgood.act hpre h
    refine ⟨v', hpost, ?_⟩
    exact .intro (hI.heard_snoc hheard.symm) hgood' rfl rfl rfl (Phase.of_idle _)
  send {ls w g t c k} hI hth hpre := by
    have hgood := hI.good
    rw [hth, Phase.of_idle] at hgood
    exact .intro (hI.heard_snoc rfl) (hgood.send hpre.1) rfl rfl rfl (Phase.of_sent _ _)
  exec {ls w g t c k} hI hth hpre hlane := by
    have hgood := hI.good
    have hstrays : (w.strays ()).map Prod.snd = [] := congrArg (List.map Prod.snd) hlane
    rw [hth, Phase.of_sent, hstrays] at hgood
    exact .intro (hI.heard_snoc rfl) (hgood.exec hpre) rfl hstrays rfl (Phase.of_answered _ _ _)
  deliver {ls w g t c k r r'} hI hth hpre h := by
    have hgood := hI.good
    rw [hth, Phase.of_answered] at hgood
    refine ⟨(g ()).reply c r', rfl, ?_⟩
    exact .intro (hI.heard_snoc rfl) (hgood.deliver h) rfl rfl rfl (Phase.of_idle _)
  fail {ls w g t c k wire r} hI hth hwire hpre h := by
    have hgood := hI.good
    refine ⟨(g ()).reply c r, rfl, ?_⟩
    cases wire with
    | idle => exact absurd rfl hwire
    | sent =>
        rw [hth, Phase.of_sent] at hgood
        refine .intro (hI.heard_snoc rfl) (hgood.fail_sent h) rfl ?_ rfl (Phase.of_idle _)
        exact List.map_append
    | answered r₀ =>
        rw [hth, Phase.of_answered] at hgood
        exact .intro (hI.heard_snoc rfl) (hgood.fail_answered h) rfl rfl rfl (Phase.of_idle _)
  stray {ls w g lane t c cs} hI hlane := by
    have hgood := hI.good
    have hstrays : (w.strays ()).map Prod.snd = c :: cs.map Prod.snd :=
      congrArg (List.map Prod.snd) hlane
    rw [hstrays] at hgood
    exact .intro (hI.heard_snoc rfl) hgood.stray rfl rfl rfl rfl
  lose {ls w g lane t c cs} hI hlane := by
    have hgood := hI.good
    have hstrays : (w.strays ()).map Prod.snd = c :: cs.map Prod.snd :=
      congrArg (List.map Prod.snd) hlane
    rw [hstrays] at hgood
    exact .intro (hI.heard_snoc rfl) hgood.lose rfl rfl rfl rfl
  finish {ls w g t a} hI hth hQ := by
    have hgood := hI.good
    rw [hth, Phase.of_idle] at hgood
    refine ⟨(g ()).rested, ?_⟩
    exact .intro (hI.heard_snoc rfl) hgood.finish rfl rfl rfl Phase.of_none
  cancel {ls w g t o k wire} kind hI hth ho hpre := by
    have hgood := hI.good
    refine ⟨(g ()).rested, ?_⟩
    cases o with
    | inr l => exact ho.elim
    | inl c =>
        rw [hth] at hgood
        cases wire with
        | sent =>
            refine .intro (hI.heard_snoc rfl) (hgood.cancel kind ?_) rfl rfl rfl Phase.of_none
            intro c' hc'
            have hmap : (w.strays () ++ [(t, c)]).map Prod.snd = (w.strays ()).map Prod.snd ++ [c] :=
              List.map_append
            exact hmap ▸ hc'
        | _ =>
            refine .intro (hI.heard_snoc rfl) (hgood.cancel kind ?_) rfl rfl rfl Phase.of_none
            exact fun c' hc' => List.mem_append_left _ hc'

/-! ## The end of a cycle -/

/-- What a `refresh` that returned `Ok` has made of the limit it read. -/
structure Enforced (keyPrefix : String) (task : GatewayTask) (heard : Heard) (w : CycleWorld)
    (limit : ℕ) : Prop where
  read : heard.limit = some limit
  slot : ∀ slot, w.mem.ownedSlot = some slot → slot < limit
  keys : ∀ slot, limit ≤ slot → ¬ Stored keyPrefix task w.now w.db.strings slot
  eligible : w.mem.isValid w.now = true → ∃ slot sent, w.mem.ownedSlot = some slot ∧
    heard.accepted = some (slotKey keyPrefix slot, sent) ∧
    w.mem.validUntil = some (sent + task.config.leaseTtl)
  paused : limit = 0 → w.mem.isValid w.now = false ∧ w.mem.ownedSlot = none

/-- Not eligible, and with a token that is and will be stored under the remembered slot at most. -/
structure Withdrawn (keyPrefix : String) (task : GatewayTask) (w : CycleWorld) : Prop where
  ineligible : w.mem.isValid w.now = false
  stored : ∀ slot, Stored keyPrefix task w.now w.db.strings slot → w.mem.ownedSlot = some slot
  strays : ∀ x ∈ w.strays (), Aims keyPrefix task w.mem.ownedSlot x.2

/-- What is known before the first cycle. -/
def firstPass (w : CycleWorld) : Pass := ⟨cycleTale.start, w.mem.ownedSlot, .unknown, false⟩

theorem CycleStart.follows (h : CycleStart keyPrefix task w₀) :
    Follows keyPrefix task [] w₀ (firstPass w₀) := by
  have hunowned : w₀.mem.ownedSlot = none → w₀.mem.isValid w₀.now = false := by
    intro hnone
    by_contra hvalid
    obtain ⟨slot, hslot, -⟩ := h.eligible (by simpa using hvalid)
    rw [hnone] at hslot
    cases hslot
  have hfacts : PassFacts keyPrefix task w₀.now w₀.db.strings w₀.mem
      ((w₀.strays ()).map Prod.snd ++ inFlight .absent) (firstPass w₀) := by
    refine ⟨rfl, ?_, h.stored, hunowned, trivial⟩
    intro c hc
    rcases List.mem_append.mp hc with hc | hc
    · obtain ⟨x, hx, rfl⟩ := List.mem_map.mp hc
      exact h.strays x hx
    · cases hc
  exact .intro rfl ⟨hfacts, trivial⟩ rfl rfl h.idle Phase.of_none

theorem Follows.enforced {limit : ℕ} (h : Follows keyPrefix task ls w v)
    (hends : v.Enforces keyPrefix task limit) : Enforced keyPrefix task (heardIn ls) w limit := by
  have hf := h.good.facts
  obtain ⟨hlimit, hslot, hvalidity⟩ := hends
  have hbelow : ∀ slot, w.mem.ownedSlot = some slot → slot < limit := by
    intro slot howned
    exact hslot slot (hf.owned ▸ howned)
  refine ⟨h.heard ▸ hlimit, hbelow, ?_, ?_, ?_⟩
  · intro slot hle hstored
    exact Nat.not_lt.mpr hle (hslot slot (hf.stored slot hstored))
  · intro hvalid
    have hholds := hf.validity
    rcases hvalidity with hlapsed | ⟨deadline, hpublished, slot, sent, howned, haccepted, rfl⟩
    · rw [hlapsed] at hholds
      have hfalse : w.mem.isValid w.now = false := hholds
      rw [hfalse] at hvalid
      cases hvalid
    · rw [hpublished] at hholds
      exact ⟨slot, sent, hf.owned.trans howned, h.heard ▸ haccepted, hholds⟩
  · rintro rfl
    have hnone : w.mem.ownedSlot = none := by
      cases howned : w.mem.ownedSlot with
      | none => rfl
      | some slot => exact absurd (hbelow slot howned) (Nat.not_lt_zero slot)
    exact ⟨hf.unowned (hf.owned ▸ hnone), hnone⟩

theorem Follows.withdrawn (h : Follows keyPrefix task ls w v)
    (hvalid : w.mem.isValid w.now = false) : Withdrawn keyPrefix task w := by
  have hf := h.good.facts
  refine ⟨hvalid, fun slot hstored => hf.owned.trans (hf.stored slot hstored), fun x hx => ?_⟩
  rw [hf.owned]
  exact hf.aims x.2 (List.mem_append_left _ (List.mem_map_of_mem hx))

/-- A cycle that succeeds leaves the task as the limit that it read demands; one that fails or is
timed out leaves it without eligibility, remembering the only slot that may hold its token. -/
theorem refresh_cycle_enforces_limit
    (hothers : ∀ now db db', others now db db' → ∀ slot, Stored keyPrefix task now db'.strings slot →
      Stored keyPrefix task now db.strings slot)
    (hstart : CycleStart keyPrefix task w₀) (hrun : (cycleNetwork keyPrefix task others).Run w₀ ls w)
    {l : CycleLabel} (hstep : (cycleNetwork keyPrefix task others).Step w l w') :
    (l = .finish () (.ok ()) → ∃ limit, Enforced keyPrefix task (heardIn ls) w' limit) ∧
    ((∃ e, l = .finish () (.error e)) ∨ l = .cancel () .timeout → Withdrawn keyPrefix task w') := by
  have hquiet : ∀ t, w₀.threads t = none := fun _ => hstart.idle
  obtain ⟨g, hI, hK⟩ := hrun.guarantee (fun _ => firstPass w₀) (cycle_sound hothers)
    hstart.follows (keeps_of_quiet hquiet _)
  obtain ⟨g', hI', -⟩ := (cycle_sound hothers).step hI hK hstep
  refine ⟨?_, ?_⟩
  · rintro rfl
    cases hstep with
    | finish hth =>
        obtain ⟨limit, hends⟩ : ∃ limit, (g ()).Enforces keyPrefix task limit := hK () _ hth
        have h := hI.enforced hends
        exact ⟨limit, h.read, h.slot, h.keys, h.eligible, h.paused⟩
  · rintro (⟨e, rfl⟩ | rfl)
    · cases hstep with
      | finish hth =>
          have hlapsed : (g ()).validity = .lapsed := hK () _ hth
          have hholds := hI.good.facts.validity
          rw [hlapsed] at hholds
          exact hI'.withdrawn hholds
    · cases hstep with
      | @cancel t o k wire kind hth ho =>
          refine hI'.withdrawn ?_
          have hmem : (leaseCancel w.mem .timeout).isValid = fun _ => false := rfl
          exact congrFun hmem _

end

def soloCycle : CycleWorld where
  now := 0
  db := soloStart.db
  mem := ⟨none, none, false⟩
  threads _ := none
  strays _ := []

theorem soloCycle_start : CycleStart "p" soloTask soloCycle where
  idle := rfl
  stored slot hstored := absurd hstored (soloStart_start.fresh () slot)
  eligible hvalid := by cases hvalid
  strays x hx := by cases hx

/-- The gateway wins slot 0 in its first cycle. -/
theorem refresh_cycle_enforces_limit_elected :
    ∃ ls w w', (cycleNetwork "p" soloTask fun _ _ _ => False).Run soloCycle ls w ∧
      (cycleNetwork "p" soloTask fun _ _ _ => False).Step w (.finish () (.ok ())) w' ∧
      w'.mem.isValid w'.now = true ∧ ∃ limit, Enforced "p" soloTask (heardIn ls) w' limit := by
  have h₀ : (cycleNetwork "p" soloTask fun _ _ _ => False).Run soloCycle [] soloCycle := .refl
  have h₁ := h₀.snoc (.launch (t := ()) rfl ⟨rfl, rfl, rfl⟩)
  have h₂ := (h₁.snoc (.send (t := ()) rfl)).snoc (.exec (t := ()) rfl rfl)
  have h₃ := h₂.snoc (.deliver (t := ()) rfl (Or.inl rfl))
  have h₄ := h₃.snoc (.act (t := ()) (x := none) rfl ⟨rfl, rfl⟩)
  have h₅ := h₄.snoc (.act (t := ()) (x := none) rfl ⟨rfl, rfl⟩)
  have h₆ := h₅.snoc (.act (t := ()) (x := (0 : ℕ)) rfl rfl)
  have h₇ := h₆.snoc (.act (t := ()) (x := (0 : ℕ)) rfl ⟨rfl, rfl⟩)
  have h₈ := h₇.snoc (.act (t := ()) (x := ()) rfl rfl)
  have h₉ := (h₈.snoc (.send (t := ()) rfl)).snoc (.exec (t := ()) rfl rfl)
  have h₁₀ := h₉.snoc (.deliver (t := ()) rfl (Or.inl rfl))
  have h₁₁ := h₁₀.snoc (.act (t := ()) (x := ()) rfl rfl)
  obtain ⟨ls, w, hrun, hth, hvalid⟩ : ∃ ls w,
      (cycleNetwork "p" soloTask fun _ _ _ => False).Run soloCycle ls w ∧
      w.threads () = some ⟨.ret (.ok ()), .idle⟩ ∧ w.mem.isValid w.now = true :=
    ⟨_, _, h₁₁, rfl, rfl⟩
  have hall := refresh_cycle_enforces_limit (fun _ _ _ h => h.elim) soloCycle_start hrun (.finish hth)
  exact ⟨ls, w, _, hrun, .finish hth, hvalid, hall.1 rfl⟩

end BreezeGateway
