import BreezeGateway.RedisAdmission.Lease

/-!
# The timing of renewals

The loop in `run` on a rational clock, in nanoseconds, from the moment an acquisition has been
published.  Redis answers every renewal with `true`, each `refresh` and each policy refresh takes
any time up to its timeout, and nothing else takes time.  The deadline of a renewal counts from
before it is sent, and the loop adds two refreshes, a policy refresh and a sleep to it.
-/

namespace BreezeGateway

/-- Where the loop is, with the time at which it got there. -/
inductive LoopPhase where
  /-- In `refresh`, before the renewal is sent. -/
  | reading (entered : ℚ)
  /-- In `refresh`, after `started = Instant::now()`. -/
  | renewing (entered started : ℚ)
  /-- In `refresh_policy`. -/
  | loading (entered : ℚ)
  | sleeping (wake : ℚ)

structure LoopState where
  now : ℚ
  validUntil : Option ℚ
  phase : LoopPhase

def LoopState.isValid (s : LoopState) : Bool :=
  match s.validUntil with
  | some deadline => decide (s.now < deadline)
  | none => false

/-- The factor of the sleep, from a random number in `[0, 1)`. -/
def jitter (valid : Bool) (random : ℚ) : ℚ :=
  if valid then 4 / 5 + random * (2 / 5) else 1 + random * (1 / 5)

section

variable (config : GatewayLeaseConfig)

/-- When a phase is over at the latest. -/
def LoopPhase.limit : LoopPhase → ℚ
  | .reading entered => entered + config.refreshInterval
  | .renewing entered _ => entered + config.refreshInterval
  | .loading entered => entered + config.refreshInterval / 4
  | .sleeping wake => wake

inductive LoopStep : LoopState → LoopState → Prop where
  | elapse {s : LoopState} {later : ℚ} (hle : s.now ≤ later) (hlimit : later ≤ s.phase.limit config) :
      LoopStep s { s with now := later }
  | send {now entered : ℚ} {validUntil : Option ℚ} :
      LoopStep ⟨now, validUntil, .reading entered⟩ ⟨now, validUntil, .renewing entered now⟩
  /-- The renewal is answered with `true`: `publish(state, started, config.lease_ttl)`. -/
  | renewed {now entered started : ℚ} {validUntil : Option ℚ} :
      LoopStep ⟨now, validUntil, .renewing entered started⟩
        ⟨now, some (started + config.leaseTtl), .loading now⟩
  | loaded {now entered random : ℚ} {validUntil : Option ℚ} (hle : 0 ≤ random) (hlt : random < 1) :
      LoopStep ⟨now, validUntil, .loading entered⟩
        ⟨now, validUntil, .sleeping (now + config.refreshInterval *
          jitter (LoopState.isValid ⟨now, validUntil, .loading entered⟩) random)⟩
  | woken {wake : ℚ} {validUntil : Option ℚ} :
      LoopStep ⟨wake, validUntil, .sleeping wake⟩ ⟨wake, validUntil, .reading wake⟩

/-- The `refresh` that acquired the slot has just published: its `SET` was sent at most a refresh
interval ago. -/
inductive Acquired : LoopState → Prop where
  | intro {now sent : ℚ} (hle : sent ≤ now) (htimeout : now ≤ sent + config.refreshInterval) :
      Acquired ⟨now, some (sent + config.leaseTtl), .loading now⟩

/-- The states of the runs in which every renewal succeeds. -/
inductive Renewing : LoopState → Prop where
  | acquired {s : LoopState} (h : Acquired config s) : Renewing s
  | step {s s' : LoopState} (h : Renewing s) (hstep : LoopStep config s s') : Renewing s'

def NeverLapses : Prop := ∀ s, Renewing config s → s.isValid = true

/-- How long ago the command of the current deadline can have been sent. -/
def Recent (sent now : ℚ) : LoopPhase → Prop
  | .loading entered => entered ≤ sent + config.refreshInterval ∧ entered ≤ now ∧
      now ≤ entered + config.refreshInterval / 4
  | .sleeping wake => wake < sent + config.refreshInterval * (49 / 20) ∧ now ≤ wake
  | .reading entered => entered < sent + config.refreshInterval * (49 / 20) ∧ entered ≤ now ∧
      now ≤ entered + config.refreshInterval
  | .renewing entered started => entered < sent + config.refreshInterval * (49 / 20) ∧
      entered ≤ started ∧ started ≤ now ∧ now ≤ entered + config.refreshInterval

end

open Effects Lease in
/-- The `refresh` of a healthy lease: the clock is read, the renewal is sent, and its answer
publishes a deadline that counts from the reading. -/
theorem refresh_renews {keyPrefix token : String} {config : GatewayLeaseConfig} {bytes : Bytes}
    {limit slot : ℕ} (hlimit : parseDigits usizeMax bytes = some limit) (hslot : slot < limit)
    (started : ℕ) :
    (refresh keyPrefix token config).run.Runs
      [⟨.inl (.get (maxGatewaysKey keyPrefix)), .ok (.bulkString bytes)⟩,
        ⟨.inr .ownedSlot, some slot⟩, ⟨.inr .ownedSlot, some slot⟩, ⟨.inr .now, started⟩,
        ⟨.inl (.renew (slotKey keyPrefix slot) (utf8 token) (asMillis config.leaseTtl)), .ok (.int 1)⟩,
        ⟨.inr (.setValidUntil (some (started + config.leaseTtl))), ()⟩] (.ok ()) := by
  have hread : (readLimit (maxGatewaysKey keyPrefix)).run.Runs
      [⟨.inl (.get (maxGatewaysKey keyPrefix)), .ok (.bulkString bytes)⟩] (.ok limit) := by
    refine .op ?_
    simp only [Prog.bind, ExceptT.bindCont, hlimit]
    exact .refl _
  have hkept : (releaseOutside keyPrefix token limit (some slot)).run.Runs [] (.ok ()) := by
    rw [releaseOutside, if_neg (Nat.not_le.mpr hslot)]
    exact .refl _
  have hrenew : (renewOrElect keyPrefix token config limit).run.Runs
      [⟨.inr .ownedSlot, some slot⟩, ⟨.inr .now, started⟩,
        ⟨.inl (.renew (slotKey keyPrefix slot) (utf8 token) (asMillis config.leaseTtl)), .ok (.int 1)⟩,
        ⟨.inr (.setValidUntil (some (started + config.leaseTtl))), ()⟩] (.ok ()) := by
    rw [renewOrElect, if_neg (Nat.ne_of_gt (Nat.zero_lt_of_lt hslot))]
    exact .op (.op (.op (.op (.refl _))))
  exact runs_bind_ok hread (.op (runs_bind_ok hkept hrenew))

theorem jitter_bounds (valid : Bool) {random : ℚ} (hle : 0 ≤ random) (hlt : random < 1) :
    4 / 5 ≤ jitter valid random ∧ jitter valid random < 6 / 5 := by
  unfold jitter
  split
  · constructor <;> linarith
  · constructor <;> linarith

variable {config : GatewayLeaseConfig}

theorem timing_of_validate (h : config.validate = .ok ()) :
    0 < config.refreshInterval ∧ 3 * config.refreshInterval ≤ config.leaseTtl := by
  unfold GatewayLeaseConfig.validate at h
  split at h
  · cases h
  · rename_i hcond
    simp only [asMillis, not_or, not_lt] at hcond
    obtain ⟨-, -, -, hpos, -, hthird⟩ := hcond
    constructor
    · by_contra hzero
      obtain hzero : config.refreshInterval = 0 := by omega
      simp [hzero] at hpos
    · omega

theorem Recent.step {s s' : LoopState} {sent : ℚ} (hpos : (0 : ℚ) < config.refreshInterval)
    (hvalid : s.validUntil = some (sent + config.leaseTtl))
    (hrecent : Recent config sent s.now s.phase) (hstep : LoopStep config s s') :
    ∃ sent' : ℚ, s'.validUntil = some (sent' + config.leaseTtl) ∧ Recent config sent' s'.now s'.phase := by
  cases hstep with
  | elapse hle hlimit =>
      refine ⟨sent, hvalid, ?_⟩
      cases hphase : s.phase with
      | reading entered =>
          rw [hphase] at hrecent hlimit
          exact ⟨hrecent.1, hrecent.2.1.trans hle, hlimit⟩
      | renewing entered started =>
          rw [hphase] at hrecent hlimit
          exact ⟨hrecent.1, hrecent.2.1, hrecent.2.2.1.trans hle, hlimit⟩
      | loading entered =>
          rw [hphase] at hrecent hlimit
          exact ⟨hrecent.1, hrecent.2.1.trans hle, hlimit⟩
      | sleeping wake =>
          rw [hphase] at hrecent hlimit
          exact ⟨hrecent.1, hlimit⟩
  | send =>
      obtain ⟨hentered, hle, htimeout⟩ := hrecent
      exact ⟨sent, hvalid, hentered, hle, le_rfl, htimeout⟩
  | @renewed now entered started validUntil =>
      obtain ⟨-, hle, -, htimeout⟩ := hrecent
      refine ⟨started, rfl, ?_, le_rfl, ?_⟩
      · exact htimeout.trans (by linarith)
      · exact le_add_of_nonneg_right (by linarith)
  | @loaded now entered random validUntil hle hlt =>
      obtain ⟨hentered, -, htimeout⟩ := hrecent
      obtain ⟨hlow, hhigh⟩ :=
        jitter_bounds (LoopState.isValid ⟨now, validUntil, .loading entered⟩) hle hlt
      have hslept := mul_lt_mul_of_pos_left hhigh hpos
      refine ⟨sent, hvalid, ?_, ?_⟩
      · dsimp only at htimeout ⊢
        linarith
      · exact le_add_of_nonneg_right (mul_nonneg hpos.le (by linarith))
  | woken => exact ⟨sent, hvalid, hrecent.1, le_rfl, le_add_of_nonneg_right hpos.le⟩

theorem Renewing.recent {s : LoopState} (hpos : (0 : ℚ) < config.refreshInterval)
    (h : Renewing config s) :
    ∃ sent : ℚ, s.validUntil = some (sent + config.leaseTtl) ∧ Recent config sent s.now s.phase := by
  induction h with
  | acquired h =>
      cases h with
      | @intro now sent hle htimeout =>
          exact ⟨sent, rfl, htimeout, le_rfl, le_add_of_nonneg_right (by linarith)⟩
  | step h hstep ih =>
      obtain ⟨sent, hvalid, hrecent⟩ := ih
      exact hrecent.step hpos hvalid hstep

theorem Recent.lt {sent now : ℚ} {phase : LoopPhase} (hpos : (0 : ℚ) < config.refreshInterval)
    (h : Recent config sent now phase) : now < sent + config.refreshInterval * (69 / 20) := by
  cases phase with
  | reading entered =>
      obtain ⟨hentered, -, htimeout⟩ := h
      linarith
  | renewing entered started =>
      obtain ⟨hentered, -, -, htimeout⟩ := h
      linarith
  | loading entered =>
      obtain ⟨hentered, -, htimeout⟩ := h
      linarith
  | sleeping wake =>
      obtain ⟨hwake, hle⟩ := h
      linarith

theorem neverLapses_of_room (hpos : (0 : ℚ) < config.refreshInterval)
    (hroom : (config.refreshInterval : ℚ) * (69 / 20) ≤ config.leaseTtl) : NeverLapses config := by
  intro s hs
  obtain ⟨sent, hvalid, hrecent⟩ := hs.recent hpos
  have hlt := hrecent.lt hpos
  unfold LoopState.isValid
  rw [hvalid]
  exact decide_eq_true (by linarith)

/-- Two slow refreshes with a slow policy refresh and a long sleep between them. -/
theorem lapses_of_tight (hpos : (0 : ℚ) < config.refreshInterval)
    (hthird : (3 : ℚ) * config.refreshInterval ≤ config.leaseTtl)
    (htight : (config.leaseTtl : ℚ) < config.refreshInterval * (69 / 20)) :
    ∃ s, Renewing config s ∧ s.isValid = false := by
  generalize hR : (config.refreshInterval : ℚ) = R at hpos hthird htight
  generalize hD : (config.leaseTtl : ℚ) = D at hthird htight
  -- the random number that makes the sleep just long enough
  have hrandom : 0 ≤ (D - 3 * R) * 20 / (9 * R) ∧ (D - 3 * R) * 20 / (9 * R) < 1 := by
    constructor
    · exact div_nonneg (by linarith) (by linarith)
    · rw [div_lt_one (by linarith)]
      linarith
  have h₀ : Renewing config ⟨R, some (0 + D), .loading R⟩ := by
    subst hR hD
    exact .acquired (.intro hpos.le (zero_add _).ge)
  have h₁ : Renewing config ⟨R + R / 4, some (0 + D), .loading R⟩ := by
    refine h₀.step (.elapse (by linarith) ?_)
    simp only [LoopPhase.limit, hR]
    exact le_rfl
  have hvalid : LoopState.isValid ⟨R + R / 4, some (0 + D), .loading R⟩ = true :=
    decide_eq_true (by linarith)
  have h₂ := h₁.step (.loaded hrandom.1 hrandom.2)
  rw [hvalid, hR] at h₂
  generalize hslept : R * jitter true ((D - 3 * R) * 20 / (9 * R)) = slept at h₂
  have heq : slept = R * (4 / 5) + (D - 3 * R) * (8 / 9) := by
    rw [← hslept, jitter, if_pos rfl]
    field_simp
    ring
  have h₃ : Renewing config ⟨R + R / 4 + slept, some (0 + D), .sleeping (R + R / 4 + slept)⟩ :=
    h₂.step (.elapse (by linarith) le_rfl)
  have h₄ := h₃.step .woken
  have h₅ : Renewing config ⟨R + R / 4 + slept + R, some (0 + D), .reading (R + R / 4 + slept)⟩ := by
    refine h₄.step (.elapse (by linarith) ?_)
    simp only [LoopPhase.limit, hR]
    exact le_rfl
  exact ⟨_, h₅, decide_eq_false (by linarith)⟩

end BreezeGateway
