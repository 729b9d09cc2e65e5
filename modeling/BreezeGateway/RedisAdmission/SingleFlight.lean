import BreezeGateway.RedisAdmission.ProviderNetwork

/-!
# Single flight and cooldown

An attempt of a family lasts from a successful `try_lookup` to the drop of its guard.  Attempts
do not overlap, only they send commands, and a failed one keeps the family silent for the retry
interval.
-/

namespace BreezeGateway

open Effects Effects.Network RedisAdmissionProvider

section

variable {Index T F Lane : Type} [DecidableEq T] [DecidableEq F]

/-- After the history `ls`, the label ends the attempt of `t` with this `available`. -/
def EndsAttempt (ls : AdmissionHistory Index T) (t : T) (available : Bool) :
    AdmissionLabel Index T → Prop
  | .act u (.dropLookup b) _ => u = t ∧ b = available
  | .cancel u _ => u = t ∧ (story t ls).guarded = true ∧ available = false
  | _ => False

variable {D : Deployment Index T F Lane} {w₀ w w' : AdmissionWorld Index T F Lane}
  {ls : AdmissionHistory Index T} {l : AdmissionLabel Index T}

/-! ## What a step does to the guards -/

/-- The guards and the discovery states change at three kinds of step only. -/
inductive GuardStep (D : Deployment Index T F Lane) (ls : AdmissionHistory Index T) (now : ℕ)
    (mem mem' : AdmissionMemory T F) : AdmissionLabel Index T → Prop where
  | same {l : AdmissionLabel Index T} (hdiscovery : mem'.discovery = mem.discovery)
      (hguard : mem'.guard = mem.guard) (hl : ∀ t b, ¬ EndsAttempt ls t b l) :
      GuardStep D ls now mem mem' l
  | hold {t : T} {d : Discovery} (h : (mem.discovery (D.family t)).tryLookup now = .ok d)
      (hmem : mem' = mem.hold (D.family t) t d) :
      GuardStep D ls now mem mem' (.act t .tryLookup (.ok ()))
  | release {t : T} {b : Bool} {l : AdmissionLabel Index T} (ht : mem.guard t = true)
      (hmem : mem' = mem.release (D.family t) t now b)
      (hl : EndsAttempt ls t b l) (hmine : ∀ u b', EndsAttempt ls u b' l → u = t ∧ b' = b) :
      GuardStep D ls now mem mem' l

theorem GuardStep.of_act {t : T} {o : AdmissionOp} {x : (admissionSig Index).Ans o}
    {mem : AdmissionMemory T F} (hfacts : CallFacts D ls w)
    (hpre : (D.contract t).pre (story t ls) (.inr o)) (h : D.act w.now t w.mem o x mem) :
    GuardStep D ls w.now w.mem mem (.act t o x) := by
  cases o with
  | isParticipating =>
      obtain rfl : mem = w.mem := h
      exact .same rfl rfl fun _ _ hl => hl
  | snapshot =>
      obtain ⟨-, rfl⟩ := h
      exact .same rfl rfl fun _ _ hl => hl
  | tryLookup =>
      cases htry : (w.mem.discovery (D.family t)).tryLookup w.now with
      | ok d =>
          simp only [Deployment.act, htry] at h
          obtain ⟨rfl, rfl⟩ := h
          exact .hold htry rfl
      | error e =>
          simp only [Deployment.act, htry] at h
          obtain ⟨rfl, rfl⟩ := h
          exact .same rfl rfl fun _ _ hl => hl
  | dropLookup b =>
      obtain rfl : mem = w.mem.release (D.family t) t w.now b := h
      have hholds : w.mem.guard t = true := by
        rw [hfacts.guard t]
        exact hpre
      exact .release hholds rfl ⟨rfl, rfl⟩ fun u b' hl => ⟨hl.1.symm, hl.2.symm⟩
  | randomToken =>
      obtain ⟨-, rfl⟩ := h
      exact .same rfl rfl fun _ _ hl => hl

theorem GuardStep.of_step [DecidableEq Lane] (hquiet : Quiet w₀) (hrun : D.network.Run w₀ ls w)
    (hstep : D.network.Step w l w') : GuardStep D ls w.now w.mem w'.mem l := by
  have hfacts := D.callFacts hquiet hrun
  cases hstep with
  | tick d => exact .same rfl rfl fun _ _ hl => hl
  | environment h => exact .same rfl rfl fun _ _ hl => hl
  | launch hidle h =>
      obtain ⟨rfl, -⟩ := h
      exact .same rfl rfl fun _ _ hl => hl
  | act hth h => exact .of_act hfacts (D.obeys hquiet hrun hth).1 h
  | send hth => exact .same rfl rfl fun _ _ hl => hl
  | exec hth hlane => exact .same rfl rfl fun _ _ hl => hl
  | deliver hth h => exact .same rfl rfl fun _ _ hl => hl
  | @fail t c k wire r hth hwire h =>
      have hmem := World.abandon_mem (w.setThread t (some ⟨k r, .idle⟩)) (D.lane t) t c wire
      exact .same (congrArg AdmissionMemory.discovery hmem) (congrArg AdmissionMemory.guard hmem)
        fun _ _ hl => hl
  | stray h => exact .same rfl rfl fun _ _ hl => hl
  | lose h => exact .same rfl rfl fun _ _ hl => hl
  | finish hth => exact .same rfl rfl fun _ _ hl => hl
  | @cancel t o k wire kind hth ho =>
      have hguard := hfacts.guard t
      cases hholds : w.mem.guard t with
      | true =>
          rw [hholds] at hguard
          exact .release hholds (if_pos hholds) ⟨rfl, hguard.symm, rfl⟩
            fun u b' hl => ⟨hl.1.symm, hl.2.2⟩
      | false =>
          have hmem : D.network.cancel kind w.now t w.mem = w.mem := by
            refine if_neg ?_
            simp [hholds]
          refine .same (congrArg AdmissionMemory.discovery hmem)
            (congrArg AdmissionMemory.guard hmem) fun u b hl => ?_
          obtain ⟨rfl, hguarded, -⟩ := hl
          rw [← hguard, hholds] at hguarded
          cases hguarded

section

variable {mem : AdmissionMemory T F} {t u : T} {f : F} {now : ℕ} {b : Bool} {d : Discovery}

theorem AdmissionMemory.hold_of_ne (h : f ≠ D.family t) (hu : D.family u = f) :
    (mem.hold (D.family t) t d).discovery f = mem.discovery f ∧
      (mem.hold (D.family t) t d).guard u = mem.guard u := by
  have hut : u ≠ t := fun hut => h (by rw [← hu, hut])
  exact ⟨Function.update_of_ne h .., Function.update_of_ne hut ..⟩

theorem AdmissionMemory.release_of_ne (h : f ≠ D.family t) (hu : D.family u = f) :
    (mem.release (D.family t) t now b).discovery f = mem.discovery f ∧
      (mem.release (D.family t) t now b).guard u = mem.guard u := by
  have hut : u ≠ t := fun hut => h (by rw [← hu, hut])
  exact ⟨Function.update_of_ne h .., Function.update_of_ne hut ..⟩

end

theorem guarded_of_issues {p : RedisAdmissionProvider} {s : Story} {c : Command} {call : Call}
    (h : Issues p s c call) (hcall : call.isAcquire = true) : s.guarded = true := by
  cases call with
  | tryAcquire scope => exact h.1
  | tryAcquireRequest scope path => exact h.1
  | _ => cases hcall

variable [DecidableEq Lane]

theorem guard_of_send (hquiet : Quiet w₀) (hrun : D.network.Run w₀ ls w) {t : T} {c : Command}
    (hstep : D.network.Step w (.send t c) w') (hcall : (D.call t).isAcquire = true) :
    w.mem.guard t = true := by
  cases hstep with
  | send hth =>
      rw [(D.callFacts hquiet hrun).guard t]
      exact guarded_of_issues (D.obeys hquiet hrun hth).1 hcall

/-! ## Attempts do not overlap -/

theorem guard_until_end (hquiet : Quiet w₀) {v : AdmissionWorld Index T F Lane}
    {mid : AdmissionHistory Index T} {t : T} (hrun : D.network.Run w₀ ls w)
    (ht : w.mem.guard t = true) (hmid : D.network.Run w mid v) :
    v.mem.guard t = true ∨ ∃ m₁ x m₂ available, mid = m₁ ++ x :: m₂ ∧
      EndsAttempt (ls ++ m₁) t available x.2 := by
  induction hmid with
  | refl => exact Or.inl ht
  | @snoc mid v v' l hmid hstep ih =>
      rcases ih with hguard | ⟨m₁, x, m₂, available, rfl, hx⟩
      · have hmoved := GuardStep.of_step hquiet (hrun.trans hmid) hstep
        cases hmoved with
        | same hdiscovery hsame hl =>
            refine Or.inl ?_
            rw [hsame]
            exact hguard
        | @hold u d htry hmem =>
            refine Or.inl ?_
            rw [hmem]
            by_cases hut : t = u
            · subst hut
              exact Function.update_self ..
            · exact (Function.update_of_ne hut ..).trans hguard
        | @release u b _ hu hmem hl hmine =>
            by_cases hut : t = u
            · subst hut
              exact Or.inr ⟨mid, (v.now, l), [], b, rfl, hl⟩
            · refine Or.inl ?_
              rw [hmem]
              exact (Function.update_of_ne hut ..).trans hguard
      · exact Or.inr ⟨m₁, x, m₂ ++ [(v.now, l)], available, by simp, hx⟩

theorem guard_of_started (hstep : D.network.Step w (.act t .tryLookup (.ok ())) w') :
    (w.mem.discovery (D.family t)).checking = false ∧ w'.mem.guard t = true := by
  cases hstep with
  | act hth h =>
      dsimp only [Deployment.network, Deployment.act] at h
      cases htry : (w.mem.discovery (D.family t)).tryLookup w.now with
      | ok d =>
          rw [htry] at h
          obtain ⟨-, rfl⟩ := h
          exact ⟨(Discovery.tryLookup_eq_ok htry).2.1, Function.update_self ..⟩
      | error e =>
          rw [htry] at h
          cases h.1

theorem attempts_do_not_overlap (hquiet : Quiet w₀) {a b c : AdmissionHistory Index T} {τ τ' : ℕ}
    {t u : T} (hrun : D.network.Run w₀
      (a ++ (τ, .act t .tryLookup (.ok ())) :: (b ++ (τ', .act u .tryLookup (.ok ())) :: c)) w)
    (hfamily : D.family t = D.family u) :
    ∃ b₁ x b₂ available, b = b₁ ++ x :: b₂ ∧
      EndsAttempt (a ++ (τ, .act t .tryLookup (.ok ())) :: b₁) t available x.2 := by
  obtain ⟨v₀, v₁, h₀, rfl, hfirst, hrest⟩ := hrun.step_of_append
  obtain ⟨v₂, v₃, h₂, rfl, hsecond, -⟩ := hrest.step_of_append
  have hheld := (guard_of_started hfirst).2
  rcases guard_until_end hquiet (h₀.snoc hfirst) hheld h₂ with hguard | ⟨b₁, x, b₂, available, hb, hx⟩
  · have hfree := (guard_of_started hsecond).1
    have hfacts := D.callFacts hquiet ((h₀.snoc hfirst).trans h₂)
    rw [hfacts.exclusive.free hfree hfamily] at hguard
    cases hguard
  · refine ⟨b₁, x, b₂, available, hb, ?_⟩
    simpa using hx

/-! ## Cooldown -/

/-- An attempt of the family `f` failed at time `τ`, and no other has begun too early. -/
structure Cooled (D : Deployment Index T F Lane) (w : AdmissionWorld Index T F Lane) (f : F)
    (τ : ℕ) : Prop where
  holders : ∀ u, D.family u = f → w.mem.guard u = true → τ + recorderRetryInterval ≤ w.now
  deadline : w.now < τ + recorderRetryInterval →
    ∃ d, (w.mem.discovery f).retryAfter = some d ∧ τ + recorderRetryInterval ≤ d

/-- Nobody of the family `f` holds the guard, and nothing holds the next attempt back. -/
structure Open (D : Deployment Index T F Lane) (w : AdmissionWorld Index T F Lane) (f : F) :
    Prop where
  retry : (w.mem.discovery f).retryAfter = none
  free : ∀ u, D.family u = f → w.mem.guard u = false

section

variable {f : F} {τ : ℕ} {t : T}

omit [DecidableEq T] [DecidableEq F] [DecidableEq Lane] in
theorem Cooled.of_le (h : τ + recorderRetryInterval ≤ w.now) : Cooled D w f τ where
  holders _ _ _ := h
  deadline hlt := absurd hlt (Nat.not_lt.mpr h)

omit [DecidableEq Lane] in
theorem Cooled.step (h : Cooled D w f τ) (hstep : GuardStep D ls w.now w.mem w'.mem l)
    (hnow : w.now ≤ w'.now) : Cooled D w' f τ := by
  have hkeep : (w'.mem.discovery f).retryAfter = (w.mem.discovery f).retryAfter →
      (∀ u, D.family u = f → w'.mem.guard u = w.mem.guard u) → Cooled D w' f τ := by
    intro hretry hguard
    refine ⟨?_, ?_⟩
    · intro u hu hgu
      rw [hguard u hu] at hgu
      exact (h.holders u hu hgu).trans hnow
    · intro hlt
      rw [hretry]
      exact h.deadline (hnow.trans_lt hlt)
  cases hstep with
  | same hdiscovery hguard hl =>
      apply hkeep
      · rw [hdiscovery]
      · intro u _
        rw [hguard]
  | @hold t d htry hmem =>
      by_cases hf : f = D.family t
      · have hpast : τ + recorderRetryInterval ≤ w.now := by
          by_contra hlt
          obtain ⟨deadline, hretry, hle⟩ := h.deadline (Nat.not_le.mp hlt)
          rw [hf] at hretry
          have hdone := (Discovery.tryLookup_eq_ok htry).1 deadline hretry
          omega
        exact .of_le (hpast.trans hnow)
      · apply hkeep
        · rw [hmem]
          exact congrArg Discovery.retryAfter (Function.update_of_ne hf ..)
        · intro u hu
          rw [hmem]
          exact (AdmissionMemory.hold_of_ne hf hu).2
  | @release t b _ ht hmem hl hmine =>
      by_cases hf : f = D.family t
      · exact .of_le ((h.holders t hf.symm ht).trans hnow)
      · apply hkeep
        · rw [hmem]
          exact congrArg Discovery.retryAfter (Function.update_of_ne hf ..)
        · intro u hu
          rw [hmem]
          exact (AdmissionMemory.release_of_ne hf hu).2

omit [DecidableEq Lane] in
theorem GuardStep.ended {b : Bool} (hstep : GuardStep D ls w.now w.mem w'.mem l)
    (hend : EndsAttempt ls t b l) (hexclusive : Exclusive D.family w'.mem) :
    w'.mem.discovery (D.family t) = Discovery.dropLookup w.now b ∧
      ∀ u, D.family u = D.family t → w'.mem.guard u = false := by
  cases hstep with
  | same hdiscovery hguard hl => exact absurd hend (hl t b)
  | hold htry hmem => exact hend.elim
  | @release u b' _ hu hmem hl hmine =>
      obtain ⟨rfl, rfl⟩ := hmine t b hend
      have hdiscovery : w'.mem.discovery (D.family t) = Discovery.dropLookup w.now b := by
        rw [hmem]
        exact Function.update_self ..
      refine ⟨hdiscovery, ?_⟩
      intro u' hu'
      apply hexclusive.free _ hu'
      rw [hdiscovery]
      rfl

theorem silent_after_failure (hquiet : Quiet w₀) {a b : AdmissionHistory Index T}
    (hrun : D.network.Run w₀ (a ++ (τ, l) :: b) w) (hend : EndsAttempt a t false l) :
    ∀ τ' u c, (τ', .send u c) ∈ b → D.family u = D.family t → (D.call u).isAcquire = true →
      τ + recorderRetryInterval ≤ τ' := by
  obtain ⟨v₀, v₁, h₀, rfl, hfirst, hrest⟩ := hrun.step_of_append
  have hafter := GuardStep.of_step hquiet h₀ hfirst
  have h₁ := h₀.snoc hfirst
  obtain ⟨hdiscovery, hfree⟩ := hafter.ended hend (D.callFacts hquiet h₁).exclusive
  have hcooled : Cooled D v₁ (D.family t) v₀.now := by
    refine ⟨?_, ?_⟩
    · intro u hu hguard
      rw [hfree u hu] at hguard
      cases hguard
    · intro _
      rw [hdiscovery]
      exact ⟨v₀.now + recorderRetryInterval, rfl, le_rfl⟩
  have hall : Cooled D w (D.family t) v₀.now ∧ ∀ τ' u c, (τ', .send u c) ∈ b →
      D.family u = D.family t → (D.call u).isAcquire = true →
        v₀.now + recorderRetryInterval ≤ τ' := by
    clear hrun
    induction hrest with
    | refl =>
        refine ⟨hcooled, ?_⟩
        intro τ' u c hmem
        cases hmem
    | @snoc b v v' l' hrest hstep ih =>
        obtain ⟨hcool, hsends⟩ := ih
        refine ⟨hcool.step (GuardStep.of_step hquiet (h₁.trans hrest) hstep) hstep.now_le, ?_⟩
        intro τ' u c hmem hu hcall
        rcases List.mem_append.mp hmem with hmem | hmem
        · exact hsends τ' u c hmem hu hcall
        · obtain ⟨rfl, rfl⟩ := Prod.mk.inj (List.mem_singleton.mp hmem)
          exact hcool.holders u hu (guard_of_send hquiet (h₁.trans hrest) hstep hcall)
  exact hall.2

omit [DecidableEq Lane] in
theorem Open.step (h : Open D w f) (hstep : GuardStep D ls w.now w.mem w'.mem l)
    (hl : ∀ u r, l = .act u .tryLookup r → D.family u ≠ f) : Open D w' f := by
  cases hstep with
  | same hdiscovery hguard _ =>
      refine ⟨?_, ?_⟩
      · rw [hdiscovery]
        exact h.retry
      · intro u hu
        rw [hguard]
        exact h.free u hu
  | @hold u d htry hmem =>
      have hf : f ≠ D.family u := (hl u _ rfl).symm
      refine ⟨?_, ?_⟩
      · rw [hmem, show (w.mem.hold (D.family u) u d).discovery f = w.mem.discovery f from
          Function.update_of_ne hf ..]
        exact h.retry
      · intro v hv
        rw [hmem, (AdmissionMemory.hold_of_ne hf hv).2]
        exact h.free v hv
  | @release u b _ hu hmem hend hmine =>
      have hf : f ≠ D.family u := by
        intro hf
        rw [h.free u hf.symm] at hu
        cases hu
      refine ⟨?_, ?_⟩
      · rw [hmem, show (w.mem.release (D.family u) u w.now b).discovery f = w.mem.discovery f from
          Function.update_of_ne hf ..]
        exact h.retry
      · intro v hv
        rw [hmem, (AdmissionMemory.release_of_ne hf hv).2]
        exact h.free v hv

theorem admitted_after_success (hquiet : Quiet w₀) {a b c : AdmissionHistory Index T} {τ' : ℕ}
    {u : T} {r : Except LookupUnavailable Unit}
    (hrun : D.network.Run w₀ (a ++ (τ, l) :: (b ++ (τ', .act u .tryLookup r) :: c)) w)
    (hend : EndsAttempt a t true l) (hfamily : D.family u = D.family t)
    (hnext : ∀ x ∈ b, ∀ v r', x.2 = .act v .tryLookup r' → D.family v ≠ D.family t) :
    r = .ok () := by
  obtain ⟨v₀, v₁, h₀, rfl, hfirst, hrest⟩ := hrun.step_of_append
  obtain ⟨v₂, v₃, h₂, rfl, hsecond, -⟩ := hrest.step_of_append
  have h₁ := h₀.snoc hfirst
  have hafter := GuardStep.of_step hquiet h₀ hfirst
  obtain ⟨hdiscovery, hfree⟩ := hafter.ended hend (D.callFacts hquiet h₁).exclusive
  have hopen : Open D v₁ (D.family t) := by
    refine ⟨?_, hfree⟩
    rw [hdiscovery]
    rfl
  have hstill : Open D v₂ (D.family t) := by
    clear hrun hrest hsecond
    induction h₂ with
    | refl => exact hopen
    | @snoc b v v' l' hmid hstep ih =>
        have hopen' := ih fun x hx => hnext x (List.mem_append_left _ hx)
        refine hopen'.step (GuardStep.of_step hquiet (h₁.trans hmid) hstep) ?_
        intro v r' hl
        exact hnext (_, l') (List.mem_append_right _ (List.mem_singleton.mpr rfl)) v r' hl
  have hfacts := D.callFacts hquiet (h₁.trans h₂)
  have hchecking : (v₂.mem.discovery (D.family t)).checking = false := by
    by_contra hchecking
    obtain ⟨v, hv, hguard⟩ := (hfacts.exclusive.checking _).mp (by simpa using hchecking)
    rw [hstill.free v hv] at hguard
    cases hguard
  cases hsecond with
  | act hth h =>
      dsimp only [Deployment.network, Deployment.act] at h
      rw [hfamily] at h
      have htry : (v₂.mem.discovery (D.family t)).tryLookup v₂.now =
          .ok { v₂.mem.discovery (D.family t) with checking := true } := by
        simp [Discovery.tryLookup, hstill.retry, hchecking]
      rw [htry] at h
      exact h.1

end

/-! ## The result -/

/-- In every run of any calls of any families: `checking` is set exactly while one guard is alive;
acquisitions send nothing without a guard; attempts do not overlap; a failed attempt silences its
family for the retry interval, and after a favourable one the next attempt is let in.  Which of
the two it was is told by the result the call returns. -/
theorem single_flight (D : Deployment Index T F Lane) (hquiet : Quiet w₀)
    (hrun : D.network.Run w₀ ls w) :
    ((∀ f, (w.mem.discovery f).checking = true ↔ ∃ t, D.family t = f ∧ w.mem.guard t = true) ∧
      (∀ t u, D.family t = D.family u → w.mem.guard t = true → w.mem.guard u = true → t = u) ∧
      ∀ t, w.mem.guard t = true → w.threads t ≠ none) ∧
    (∀ t c w', D.network.Step w (.send t c) w' → (D.call t).isAcquire = true →
      w.mem.guard t = true) ∧
    (∀ a b c τ τ' t u,
      ls = a ++ (τ, .act t .tryLookup (.ok ())) :: (b ++ (τ', .act u .tryLookup (.ok ())) :: c) →
      D.family t = D.family u → ∃ b₁ x b₂ available, b = b₁ ++ x :: b₂ ∧
        EndsAttempt (a ++ (τ, .act t .tryLookup (.ok ())) :: b₁) t available x.2) ∧
    (∀ a b τ l t, ls = a ++ (τ, l) :: b → EndsAttempt a t false l →
      ∀ τ' u c, (τ', .send u c) ∈ b → D.family u = D.family t → (D.call u).isAcquire = true →
        τ + seconds 10 ≤ τ') ∧
    (∀ a b c τ τ' l t u r, ls = a ++ (τ, l) :: (b ++ (τ', .act u .tryLookup r) :: c) →
      EndsAttempt a t true l → D.family u = D.family t →
      (∀ x ∈ b, ∀ v r', x.2 = .act v .tryLookup r' → D.family v ≠ D.family t) → r = .ok ()) ∧
    (∀ a b τ t r, ls = a ++ (τ, .finish t (.outcome r)) :: b →
      ∀ available, (story t a).dropped = some available →
        (available = true ↔ Favourable r) ∧
        (r = .ok .busy → ∃ key value px, (story t a).reply = some (.set key value px, .ok .nil))) := by
  have hfacts := D.callFacts hquiet hrun
  refine ⟨⟨hfacts.exclusive.checking, hfacts.exclusive.unique, ?_⟩, ?_, ?_, ?_, ?_, ?_⟩
  · intro t ht hnone
    rw [hfacts.guard t, hfacts.idle t hnone] at ht
    cases ht
  · intro t c w' hstep hcall
    exact guard_of_send hquiet hrun hstep hcall
  · intro a b c τ τ' t u hls hfamily
    subst hls
    exact attempts_do_not_overlap hquiet hrun hfamily
  · intro a b τ l t hls hend
    subst hls
    exact silent_after_failure hquiet hrun hend
  · intro a b c τ τ' l t u r hls hend hfamily hnext
    subst hls
    exact admitted_after_success hquiet hrun hend hfamily hnext
  · intro a b τ t r hls available hdropped
    subst hls
    obtain ⟨v, v', hv, rfl, hstep, -⟩ := hrun.step_of_append
    cases hstep with
    | finish hth =>
        have hsettled : Settled (story t a) r := D.obeys hquiet hv hth
        refine ⟨hsettled.available available hdropped, ?_⟩
        apply hsettled.rejected
        rw [hdropped]
        exact Option.some_ne_none available

/-- A call without a recorder, and the same call ten seconds later. -/
theorem single_flight_solo :
    ∃ a b w τ, soloDeployment.network.Run (quietWorld none)
        (a ++ (0, .act () (.dropLookup false) ()) :: b) w ∧
      (τ, .send () (.get "r")) ∈ b ∧ 0 + seconds 10 ≤ τ := by
  have h₀ : soloDeployment.network.Run (quietWorld none) [] _ := .refl
  have h₁ := h₀.snoc (.launch (t := ()) rfl ⟨rfl, rfl⟩)
  have h₂ := h₁.snoc (.act (t := ()) (x := true) rfl rfl)
  have h₃ := h₂.snoc (.act (t := ()) (x := some ⟨some 1, true, (), [], (), ()⟩) rfl
    ⟨by rintro p ⟨⟩; rfl, rfl⟩)
  have h₄ := h₃.snoc (.act (t := ()) (x := true) rfl rfl)
  have h₅ := h₄.snoc (.act (t := ()) (x := (Except.ok () : Except LookupUnavailable Unit)) rfl
    ⟨rfl, rfl⟩)
  have h₆ := (h₅.snoc (.send (t := ()) rfl)).snoc (.exec (t := ()) rfl rfl)
  have h₇ := h₆.snoc (.deliver (t := ()) rfl (Or.inl rfl))
  have hrefl : ∀ {ls v}, soloDeployment.network.Run (quietWorld none) ls v →
      soloDeployment.network.Run v [] v := fun _ => .refl
  have k₀ := (hrefl h₇).snoc (.act (t := ()) (x := ()) rfl rfl)
  have k₁ := (k₀.snoc (.finish (t := ()) rfl)).snoc (.tick (seconds 10))
  have k₂ := k₁.snoc (.launch (t := ()) rfl ⟨rfl, rfl⟩)
  have k₃ := k₂.snoc (.act (t := ()) (x := true) rfl rfl)
  have k₄ := k₃.snoc (.act (t := ()) (x := some ⟨some 1, true, (), [], (), ()⟩) rfl
    ⟨by rintro p ⟨⟩; rfl, rfl⟩)
  have k₅ := k₄.snoc (.act (t := ()) (x := true) rfl rfl)
  have k₆ := k₅.snoc (.act (t := ()) (x := (Except.ok () : Except LookupUnavailable Unit)) rfl
    ⟨rfl, rfl⟩)
  have k₇ := k₆.snoc (.send (t := ()) rfl)
  have hall := single_flight soloDeployment (quietWorld_quiet none) (h₇.trans k₇)
  refine ⟨_, _, _, _, h₇.trans k₇, List.mem_append_right _ (List.mem_singleton.mpr rfl), ?_⟩
  exact hall.2.2.2.1 _ _ _ _ () rfl ⟨rfl, rfl⟩ _ () _
    (List.mem_append_right _ (List.mem_singleton.mpr rfl)) rfl rfl

end

end BreezeGateway
