import BreezeGateway.RedisAdmission.KeyLease
import BreezeGateway.RedisAdmission.ProviderNetwork

/-!
# Request slots

A slot key belongs to the token that reserved it until that token completes or its last deadline
has passed.  A token is reserved at most once, so it is completed at most once.
-/

namespace BreezeGateway

open Effects Effects.Network RedisAdmissionProvider

section

variable {Index T F Lane : Type}

/-- Redis executes the command of a call, current or abandoned. -/
def Executes (t : T) (c : Command) (r : Reply) (l : AdmissionLabel Index T) : Prop :=
  l = .exec t c r ∨ l = .stray t c r

def Reserves (key token : String) (t : T) (l : AdmissionLabel Index T) : Prop :=
  ∃ px, Executes t (.set key (utf8 token) px) (Db.setReply true) l

def Renews (key token : String) (t : T) (l : AdmissionLabel Index T) : Prop :=
  ∃ px, Executes t (.renew key (utf8 token) px) (Db.transitionReply true) l

def isCompletion (key token : String) (c : Command) (r : Reply) : Bool :=
  decide (c = .complete key (utf8 token)) && decide (r = Db.transitionReply true)

def completes (key token : String) : AdmissionLabel Index T → Bool
  | .exec _ c r => isCompletion key token c r
  | .stray _ c r => isCompletion key token c r
  | _ => false

def completions (key token : String) (ls : AdmissionHistory Index T) : ℕ :=
  ls.countP fun x => completes key token x.2

end

section

variable {Index T F Lane : Type} [DecidableEq T] [DecidableEq F] [DecidableEq Lane]
  {D : Deployment Index T F Lane} {w₀ w w' : AdmissionWorld Index T F Lane}
  {ls : AdmissionHistory Index T} {l : AdmissionLabel Index T} {key token : String} {t : T}
  {c : Command} {r : Reply}

/-! ## What a step does to the slot key -/

theorem Deployment.strays_issued (hquiet : Quiet w₀) (hrun : D.network.Run w₀ ls w) {lane : Lane}
    {x : T × Command} (hx : x ∈ w.strays lane) :
    ∃ s, Issues (D.provider (D.family x.1)) s x.2 (D.call x.1) :=
  hrun.strays_of_threads
    (P := fun t c => ∃ s, Issues (D.provider (D.family t)) s c (D.call t)) hquiet.strays
    (fun hrun hth => ⟨_, (D.obeys hquiet hrun hth).1⟩) hx

/-- The slot key is written by commands that calls were allowed to send, and by nothing else. -/
inductive KeyStep (D : Deployment Index T F Lane) (key : String)
    (w w' : AdmissionWorld Index T F Lane) (l : AdmissionLabel Index T) : Prop where
  | same (hnow : w.now ≤ w'.now) (hkey : w'.db.strings key = w.db.strings key)
      (hl : ∀ t c r, ¬ Executes t c r l)
  | exec {t : T} {c : Command} {s : Story}
      (hissues : Issues (D.provider (D.family t)) s c (D.call t))
      (hl : Executes t c (w.db.exec w.now c).2 l) (hdb : w'.db = (w.db.exec w.now c).1)
      (hnow : w'.now = w.now)

theorem KeyStep.of_step (hquiet : Quiet w₀)
    (hothers : ∀ now db db', D.others now db db' → db'.strings key = db.strings key)
    (hrun : D.network.Run w₀ ls w) (hstep : D.network.Step w l w') : KeyStep D key w w' l := by
  have hle := hstep.now_le
  cases hstep with
  | environment h => exact .same hle (hothers _ _ _ h) (by rintro t c r (h | h) <;> cases h)
  | exec hth hlane => exact .exec (D.obeys hquiet hrun hth).1 (Or.inl rfl) rfl rfl
  | stray hlane =>
      obtain ⟨s, hissues⟩ := D.strays_issued hquiet hrun (x := (_, _))
        (by rw [hlane]; exact List.mem_cons_self)
      exact .exec hissues (Or.inr rfl) rfl rfl
  | fail hth hwire h =>
      refine .same hle ?_ (by rintro t c r (h | h) <;> cases h)
      rw [World.abandon_db]
      rfl
  | cancel hth ho =>
      refine .same hle ?_ (by rintro t c r (h | h) <;> cases h)
      rw [World.abandonOp_db]
      rfl
  | _ => exact .same hle rfl (by rintro t c r (h | h) <;> cases h)

/-! ## The last deadline of a token -/

omit [DecidableEq T] [DecidableEq F] [DecidableEq Lane] in
theorem Executes.unique {t' : T} {c' : Command} {r' : Reply} (h : Executes t c r l)
    (h' : Executes t' c' r' l) : t = t' ∧ c = c' ∧ r = r' := by
  rcases h with rfl | rfl
  · rcases h' with h' | h' <;> cases h'
    exact ⟨rfl, rfl, rfl⟩
  · rcases h' with h' | h' <;> cases h'
    exact ⟨rfl, rfl, rfl⟩

omit [DecidableEq T] [DecidableEq F] [DecidableEq Lane] in
theorem ttl_of_set {p : RedisAdmissionProvider} {s : Story} {value : Bytes} {px : ℕ} {call : Call}
    (h : Issues p s (.set key value px) call) : px = p.ttlMs := by
  cases call with
  | tryAcquire scope =>
      obtain ⟨-, token, -, -, -, hpx⟩ := h
      exact hpx
  | tryAcquireRequest scope path =>
      obtain ⟨-, token, -, -, -, hpx⟩ := h
      exact hpx
  | _ => cases h

omit [DecidableEq T] [DecidableEq F] [DecidableEq Lane] in
theorem ttl_of_renew {p : RedisAdmissionProvider} {s : Story} {value : Bytes} {px : ℕ} {call : Call}
    (h : Issues p s (.renew key value px) call) : px = p.ttlMs := by
  cases call with
  | tryAcquire scope => exact h.2.elim
  | tryAcquireRequest scope path => exact h.2.elim
  | renew ticket => cases h; rfl
  | _ => cases h

/-- The key carries the token up to `deadline`, for as long as that is in the future. -/
def Held (key token : String) (deadline : ℕ) (w : AdmissionWorld Index T F Lane) : Prop :=
  w.now < deadline → w.db.strings.Until key (utf8 token) deadline

/-- A reservation or renewal at which the last deadline of the token begins. -/
def Prolongs (key token : String) (t : T) (l : AdmissionLabel Index T) : Prop :=
  Reserves key token t l ∨ Renews key token t l

omit [DecidableEq T] [DecidableEq F] [DecidableEq Lane] in
theorem Held.begin (hstep : KeyStep D key w w' l) (h : Prolongs key token t l) :
    Held key token (w.now + millis (D.provider (D.family t)).ttlMs) w' := by
  cases hstep with
  | same hnow hkey hl =>
      rcases h with ⟨px, h⟩ | ⟨px, h⟩
      · exact absurd h (hl _ _ _)
      · exact absurd h (hl _ _ _)
  | exec hissues hl hdb hnow =>
      unfold Held
      rw [hnow, hdb]
      rcases h with ⟨px, h⟩ | ⟨px, h⟩
      · obtain ⟨rfl, rfl, hr⟩ := hl.unique h
        obtain rfl := ttl_of_set hissues
        refine Grants.held ?_
        rw [hr]
        exact .set
      · obtain ⟨rfl, rfl, hr⟩ := hl.unique h
        obtain rfl := ttl_of_renew hissues
        refine Grants.held ?_
        rw [hr]
        exact .renew

omit [DecidableEq T] [DecidableEq F] [DecidableEq Lane] in
theorem Held.step {deadline : ℕ} (h : Held key token deadline w) (hstep : KeyStep D key w w' l)
    (hcompletes : completes key token l = false) (hprolongs : ∀ u, ¬ Prolongs key token u l) :
    Held key token deadline w' := by
  cases hstep with
  | same hnow hkey hl => exact HeldUntil.same h hnow hkey
  | @exec t c s hissues hl hdb hnow =>
      unfold Held
      rw [hnow, hdb]
      refine HeldUntil.exec h ?_ ?_
      · rintro ⟨rfl, hr⟩
        have hdone : completes key token l = true := by
          rcases hl with rfl | rfl <;> simp [completes, isCompletion, hr]
        rw [hdone] at hcompletes
        cases hcompletes
      · intro px hgrant
        generalize hr : (w.db.exec w.now c).2 = r at hgrant hl
        cases hgrant with
        | set => exact hprolongs t (Or.inl ⟨px, hl⟩)
        | renew => exact hprolongs t (Or.inr ⟨px, hl⟩)

omit [DecidableEq T] [DecidableEq F] [DecidableEq Lane] in
theorem Held.le_of_reserves {deadline : ℕ} {token' : String} (h : Held key token deadline w)
    (hstep : KeyStep D key w w' l) (hl : Reserves key token' t l) : deadline ≤ w.now := by
  obtain ⟨px, hl⟩ := hl
  cases hstep with
  | same hnow hkey hnone => exact absurd hl (hnone _ _ _)
  | exec hissues hexec hdb hnow =>
      obtain ⟨-, rfl, hr⟩ := hexec.unique hl
      exact HeldUntil.le_of_set h hr

theorem next_reservation {a b d : AdmissionHistory Index T} {τ₁ τ₂ : ℕ}
    {l₁ l₂ : AdmissionLabel Index T} {token' : String} {u : T} (hquiet : Quiet w₀)
    (hothers : ∀ now db db', D.others now db db' → db'.strings key = db.strings key)
    (hrun : D.network.Run w₀ (a ++ (τ₁, l₁) :: (b ++ (τ₂, l₂) :: d)) w)
    (h₁ : Prolongs key token t l₁) (h₂ : Reserves key token' u l₂)
    (hcompletes : ∀ x ∈ b, completes key token x.2 = false)
    (hprolongs : ∀ x ∈ b, ∀ v, ¬ Prolongs key token v x.2) :
    τ₁ + millis (D.provider (D.family t)).ttlMs ≤ τ₂ := by
  obtain ⟨v₀, v₁, hbefore, rfl, hfirst, hrest⟩ := hrun.step_of_append
  obtain ⟨v₂, v₃, hmid, rfl, hsecond, -⟩ := hrest.step_of_append
  have hafter := hbefore.snoc hfirst
  have hheld : Held key token (v₀.now + millis (D.provider (D.family t)).ttlMs) v₂ := by
    clear hrun hrest hsecond
    induction hmid with
    | refl => exact .begin (.of_step hquiet hothers hbefore hfirst) h₁
    | @snoc b v v' l hmid hstep ih =>
        have hstands := ih (fun x hx => hcompletes x (List.mem_append_left _ hx))
          fun x hx => hprolongs x (List.mem_append_left _ hx)
        have hlast : (v.now, l) ∈ b ++ [(v.now, l)] := by simp
        exact hstands.step (.of_step hquiet hothers (hafter.trans hmid) hstep)
          (hcompletes _ hlast) (hprolongs _ hlast)
  exact hheld.le_of_reserves (.of_step hquiet hothers (hafter.trans hmid) hsecond) h₂

end

end BreezeGateway
