import BreezeGateway.RedisAdmission.ProviderContract

/-!
# Provider families and one Redis

A family is a provider with all its clones: they share one discovery state.  A thread stands for
one call of one member of a family and may make it again and again.  Dropping the future of a
call drops the `Lookup` guard it holds.
-/

namespace BreezeGateway

open Effects Effects.Network RedisAdmissionProvider

/-- Memory outside the calls: the discovery of every family, who holds a guard, and which call
generated a token. -/
structure AdmissionMemory (T F : Type) where
  discovery : F → Discovery
  guard : T → Bool
  used : String → Option T

/-- The calls of a run and what surrounds them. -/
structure Deployment (Index T F Lane : Type) where
  lib : Libraries Index
  family : T → F
  provider : F → RedisAdmissionProvider
  call : T → Call
  lane : T → Lane
  /-- Writes by everybody else. -/
  others : ℕ → Db → Db → Prop
  /-- Replies that may stand in for a lost one. -/
  garbled : Command → Reply → Prop
  /-- The policies a snapshot may hold. -/
  policies : CompiledPolicy Index → Prop
  /-- No token is generated twice. -/
  fresh : Prop

section

variable {Index T F Lane : Type} [DecidableEq T] [DecidableEq F]

namespace AdmissionMemory

/-- `Lookup::drop` by the call `t`. -/
def release (mem : AdmissionMemory T F) (f : F) (t : T) (now : ℕ) (available : Bool) :
    AdmissionMemory T F :=
  { mem with
    discovery := Function.update mem.discovery f (Discovery.dropLookup now available)
    guard := Function.update mem.guard t false }

def hold (mem : AdmissionMemory T F) (f : F) (t : T) (d : Discovery) : AdmissionMemory T F :=
  { mem with
    discovery := Function.update mem.discovery f d
    guard := Function.update mem.guard t true }

end AdmissionMemory

namespace Deployment

variable (D : Deployment Index T F Lane)

def act (now : ℕ) (t : T) (mem : AdmissionMemory T F) :
    (o : AdmissionOp) → (admissionSig Index).Ans o → AdmissionMemory T F → Prop
  | .isParticipating, _, mem' => mem' = mem
  | .snapshot, policy, mem' => (∀ p, policy = some p → D.policies p) ∧ mem' = mem
  | .tryLookup, r, mem' =>
      match (mem.discovery (D.family t)).tryLookup now with
      | .ok d => r = .ok () ∧ mem' = mem.hold (D.family t) t d
      | .error e => r = .error e ∧ mem' = mem
  | .dropLookup available, _, mem' => mem' = mem.release (D.family t) t now available
  | .randomToken, random, mem' =>
      (D.fresh → mem.used (acquisitionToken random) = none) ∧
        mem' = { mem with used := Function.update mem.used (acquisitionToken random) (some t) }

def network : Network Command Reply (admissionSig Index) Db (AdmissionMemory T F) T Lane Unit
    CallResult where
  exec := Db.exec
  conveys := Conveys
  garbled := D.garbled
  lane := D.lane
  environment := D.others
  launch _ mem t p mem' := mem' = mem ∧ p = (D.call t).run D.lib (D.provider (D.family t))
  act := D.act
  suspends _ := False
  finish _ _ _ mem := mem
  cancel _ now t mem := if mem.guard t then mem.release (D.family t) t now false else mem

def contract (t : T) : Contract (redisSig (admissionSig Index)) Story :=
  callContract (D.provider (D.family t)) (D.call t)

end Deployment

abbrev AdmissionWorld (Index T F Lane : Type) :=
  World Command Reply (admissionSig Index) Db (AdmissionMemory T F) T Lane CallResult

abbrev AdmissionLabel (Index T : Type) := Label Command Reply (admissionSig Index) T Unit CallResult

abbrev AdmissionHistory (Index T : Type) :=
  History Command Reply (admissionSig Index) T Unit CallResult

/-! ## Stories -/

def storyTale : Tale (redisSig (admissionSig Index)) Story := ⟨.start, Story.after⟩

abbrev storyAfter (t : T) (s : Story) (x : ℕ × AdmissionLabel Index T) : Story :=
  storyTale.next t s x

section

variable (t : T) (s : Story) (τ : ℕ)

theorem storyAfter_launch : storyAfter t s (τ, (.launch t : AdmissionLabel Index T)) = .start :=
  if_pos rfl

theorem storyAfter_act (o : AdmissionOp) (x : (admissionSig Index).Ans o) :
    storyAfter t s (τ, (.act t o x : AdmissionLabel Index T)) = s.noted o x :=
  if_pos rfl

theorem storyAfter_deliver (c : Command) (r : Reply) :
    storyAfter t s (τ, (.deliver t c r : AdmissionLabel Index T)) = s.heard c r :=
  if_pos rfl

theorem storyAfter_fail (c : Command) (r : Reply) :
    storyAfter t s (τ, (.fail t c r : AdmissionLabel Index T)) = s.heard c r :=
  if_pos rfl

theorem storyAfter_finish (a : CallResult) :
    storyAfter t s (τ, (.finish t a : AdmissionLabel Index T)) = .start :=
  if_pos rfl

theorem storyAfter_cancel (kind : Unit) :
    storyAfter t s (τ, (.cancel t kind : AdmissionLabel Index T)) = .start :=
  if_pos rfl

end

abbrev story (t : T) (ls : AdmissionHistory Index T) : Story := storyTale.told t ls

theorem story_snoc (t : T) (ls : AdmissionHistory Index T) (x : ℕ × AdmissionLabel Index T) :
    story t (ls ++ [x]) = storyAfter t (story t ls) x :=
  Tale.told_snoc

/-- No call is in progress and no command is in flight. -/
structure Quiet (w : AdmissionWorld Index T F Lane) : Prop where
  threads : ∀ t, w.threads t = none
  strays : ∀ lane, w.strays lane = []
  guard : ∀ t, w.mem.guard t = false
  checking : ∀ f, (w.mem.discovery f).checking = false

variable {D : Deployment Index T F Lane} {w₀ w w' : AdmissionWorld Index T F Lane}
  {ls : AdmissionHistory Index T}

theorem add_indicator_le {a a' n : ℕ} {p p' : Prop} [Decidable p] [Decidable p'] (h : a' + n ≤ a)
    (hp : p' → p) : a' + (if p' then 1 else 0) + n ≤ a + if p then 1 else 0 := by
  split
  · rename_i hp'
    rw [if_pos (hp hp')]
    omega
  · omega

theorem Deployment.obeys [DecidableEq Lane] (hquiet : Quiet w₀) (hrun : D.network.Run w₀ ls w)
    {t : T} {th : Thread Command Reply (admissionSig Index) CallResult}
    (hth : w.threads t = some th) : th.prog.Meets (D.contract t) (story t ls) Returned := by
  refine storyTale.obeys (fun t => (D.contract t).pre) (fun _ => Returned) ?_ hquiet.threads hrun hth
  intro now mem t p mem' hlaunch
  obtain ⟨-, rfl⟩ := hlaunch
  exact meets_call D.lib _ _

/-! ## The guards of the families -/

theorem Discovery.tryLookup_eq_ok {d d' : Discovery} {now : ℕ} (h : d.tryLookup now = .ok d') :
    (∀ deadline, d.retryAfter = some deadline → deadline ≤ now) ∧ d.checking = false ∧
      d' = { d with checking := true } := by
  unfold Discovery.tryLookup at h
  split at h
  · cases h
  · rename_i hcool
    split at h
    · cases h
    · rename_i hchecking
      refine ⟨?_, by simpa using hchecking, (Except.ok.inj h).symm⟩
      intro deadline hd
      simpa [hd] using hcool

/-- `checking` tells whether somebody holds the guard, and nobody shares it. -/
structure Exclusive (family : T → F) (mem : AdmissionMemory T F) : Prop where
  checking : ∀ f, (mem.discovery f).checking = true ↔ ∃ t, family t = f ∧ mem.guard t = true
  unique : ∀ t u, family t = family u → mem.guard t = true → mem.guard u = true → t = u

section

variable {family : T → F} {mem : AdmissionMemory T F} {t : T} {now : ℕ}

omit [DecidableEq T] [DecidableEq F] in
theorem Exclusive.free (h : Exclusive family mem) {f : F} (hf : (mem.discovery f).checking = false)
    {u : T} (hu : family u = f) : mem.guard u = false := by
  by_contra hguard
  have hchecking := (h.checking f).mpr ⟨u, hu, by simpa using hguard⟩
  rw [hf] at hchecking
  cases hchecking

theorem Exclusive.hold {d : Discovery} (h : Exclusive family mem)
    (htry : (mem.discovery (family t)).tryLookup now = .ok d) :
    Exclusive family (mem.hold (family t) t d) := by
  obtain ⟨-, hfree, rfl⟩ := Discovery.tryLookup_eq_ok htry
  refine ⟨?_, ?_⟩
  · intro f
    by_cases hf : f = family t
    · subst hf
      simp only [AdmissionMemory.hold, Function.update_self, true_iff]
      exact ⟨t, rfl, Function.update_self ..⟩
    · simp only [AdmissionMemory.hold, Function.update_of_ne hf, h.checking f]
      have hguard : ∀ u, family u = f → Function.update mem.guard t true u = mem.guard u := by
        intro u hu
        exact Function.update_of_ne (fun hut => hf (by rw [← hu, hut])) ..
      constructor
      · intro ⟨u, hu, hgu⟩
        exact ⟨u, hu, by rw [hguard u hu, hgu]⟩
      · intro ⟨u, hu, hgu⟩
        exact ⟨u, hu, by rw [← hguard u hu, hgu]⟩
  · have hholder : ∀ u v, family u = family v → Function.update mem.guard t true v = true → u = t →
        v = t := by
      intro u v huv hv hut
      by_contra hvt
      rw [Function.update_of_ne hvt, h.free hfree (by rw [← huv, hut])] at hv
      cases hv
    intro u v huv hu hv
    by_cases hut : u = t
    · rw [hut, hholder u v huv hv hut]
    · by_cases hvt : v = t
      · exact absurd (hholder v u huv.symm hu hvt) hut
      · simp only [AdmissionMemory.hold, Function.update_of_ne hut, Function.update_of_ne hvt] at hu hv
        exact h.unique u v huv hu hv

theorem Exclusive.release {available : Bool} (h : Exclusive family mem) (ht : mem.guard t = true) :
    Exclusive family (mem.release (family t) t now available) := by
  have hkeep : ∀ u, Function.update mem.guard t false u = true → mem.guard u = true ∧ u ≠ t := by
    intro u hu
    by_cases hut : u = t
    · rw [hut, Function.update_self] at hu
      cases hu
    · rw [Function.update_of_ne hut] at hu
      exact ⟨hu, hut⟩
  refine ⟨?_, ?_⟩
  · intro f
    by_cases hf : f = family t
    · subst hf
      simp only [AdmissionMemory.release, Function.update_self, Discovery.dropLookup,
        Bool.false_eq_true, false_iff]
      intro ⟨u, hu, hgu⟩
      obtain ⟨hgu', hut⟩ := hkeep u hgu
      exact hut (h.unique u t hu hgu' ht)
    · simp only [AdmissionMemory.release, Function.update_of_ne hf, h.checking f]
      constructor
      · intro ⟨u, hu, hgu⟩
        have hut : u ≠ t := fun hut => hf (by rw [← hu, hut])
        exact ⟨u, hu, by rw [Function.update_of_ne hut, hgu]⟩
      · intro ⟨u, hu, hgu⟩
        exact ⟨u, hu, (hkeep u hgu).1⟩
  · intro u v huv hu hv
    exact h.unique u v huv (hkeep u hu).1 (hkeep v hv).1

end

structure CallFacts (D : Deployment Index T F Lane) (ls : AdmissionHistory Index T)
    (w : AdmissionWorld Index T F Lane) : Prop where
  idle : ∀ t, w.threads t = none → story t ls = .start
  guard : ∀ t, w.mem.guard t = (story t ls).guarded
  exclusive : Exclusive D.family w.mem

omit [DecidableEq F] in
theorem CallFacts.same {x : ℕ × AdmissionLabel Index T} (h : CallFacts D ls w)
    (hx : ∀ t, storyAfter t (story t ls) x = story t ls) (hmem : w'.mem = w.mem)
    (hthreads : ∀ t, w'.threads t = none → w.threads t = none) : CallFacts D (ls ++ [x]) w' where
  idle t ht := by
    rw [story_snoc, hx t]
    exact h.idle t (hthreads t ht)
  guard t := by
    rw [story_snoc, hx t, hmem]
    exact h.guard t
  exclusive := by
    rw [hmem]
    exact h.exclusive

omit [DecidableEq F] in
theorem CallFacts.moved {x : ℕ × AdmissionLabel Index T} {t : T}
    {th : Option (Thread Command Reply (admissionSig Index) CallResult)} (h : CallFacts D ls w)
    (hx : ∀ s, s ≠ t → storyAfter s (story s ls) x = story s ls)
    (hthreads : w'.threads = Function.update w.threads t th)
    (hidle : th = none → storyAfter t (story t ls) x = .start)
    (hguard : ∀ s, s ≠ t → w'.mem.guard s = w.mem.guard s)
    (hself : w'.mem.guard t = (storyAfter t (story t ls) x).guarded)
    (hexclusive : Exclusive D.family w'.mem) : CallFacts D (ls ++ [x]) w' where
  idle s hs := by
    rw [story_snoc]
    by_cases hst : s = t
    · subst hst
      rw [hthreads, Function.update_self] at hs
      exact hidle hs
    · rw [hthreads, Function.update_of_ne hst] at hs
      rw [hx s hst]
      exact h.idle s hs
  guard s := by
    rw [story_snoc]
    by_cases hst : s = t
    · subst hst
      exact hself
    · rw [hguard s hst, hx s hst]
      exact h.guard s
  exclusive := hexclusive

theorem CallFacts.act {t : T} {o : AdmissionOp} {x : (admissionSig Index).Ans o}
    {mem : AdmissionMemory T F} (h : CallFacts D ls w)
    (hpre : (D.contract t).pre (story t ls) (.inr o))
    (hact : D.act w.now t w.mem o x mem) :
    Exclusive D.family mem ∧ (∀ s, s ≠ t → mem.guard s = w.mem.guard s) ∧
      mem.guard t = ((story t ls).noted o x).guarded := by
  cases o with
  | isParticipating =>
      obtain rfl : mem = w.mem := hact
      exact ⟨h.exclusive, fun _ _ => rfl, h.guard t⟩
  | snapshot =>
      obtain ⟨-, rfl⟩ := hact
      exact ⟨h.exclusive, fun _ _ => rfl, h.guard t⟩
  | tryLookup =>
      cases htry : (w.mem.discovery (D.family t)).tryLookup w.now with
      | ok d =>
          simp only [Deployment.act, htry] at hact
          obtain ⟨rfl, rfl⟩ := hact
          exact ⟨h.exclusive.hold htry, fun s hs => Function.update_of_ne hs ..,
            Function.update_self ..⟩
      | error e =>
          simp only [Deployment.act, htry] at hact
          obtain ⟨rfl, rfl⟩ := hact
          exact ⟨h.exclusive, fun _ _ => rfl, h.guard t⟩
  | dropLookup available =>
      obtain rfl : mem = w.mem.release (D.family t) t w.now available := hact
      have hholds : w.mem.guard t = true := by
        rw [h.guard t]
        exact hpre
      exact ⟨h.exclusive.release hholds, fun s hs => Function.update_of_ne hs ..,
        Function.update_self ..⟩
  | randomToken =>
      obtain ⟨-, rfl⟩ := hact
      refine ⟨⟨h.exclusive.checking, h.exclusive.unique⟩, fun _ _ => rfl, ?_⟩
      exact h.guard t

theorem Returned.unguarded {s : Story} {r : CallResult} (h : Returned s r) : s.guarded = false := by
  cases r with
  | outcome r => exact h.released
  | done r => exact h

theorem Deployment.callFacts [DecidableEq Lane] (hquiet : Quiet w₀)
    (hrun : D.network.Run w₀ ls w) : CallFacts D ls w := by
  induction hrun with
  | refl =>
      refine ⟨fun _ _ => rfl, hquiet.guard, ?_, ?_⟩
      · intro f
        rw [hquiet.checking f]
        constructor
        · intro h
          cases h
        · intro ⟨t, _, ht⟩
          rw [hquiet.guard t] at ht
          cases ht
      · intro t u _ ht
        rw [hquiet.guard t] at ht
        cases ht
  | @snoc ls w w' l hrun hstep ih =>
      cases hstep with
      | tick d => exact ih.same (fun _ => rfl) rfl fun _ h => h
      | environment h => exact ih.same (fun _ => rfl) rfl fun _ h => h
      | launch hidle h =>
          obtain ⟨rfl, rfl⟩ := h
          refine ih.moved (fun s hs => if_neg hs.symm) rfl (by simp) (fun _ _ => rfl) ?_ ih.exclusive
          rw [storyAfter_launch,
            show w.mem.guard _ = _ from ih.guard _, ih.idle _ hidle]
      | act hth h =>
          have hpre := (D.obeys hquiet hrun hth).1
          obtain ⟨hexclusive, hothers, hself⟩ := ih.act hpre h
          refine ih.moved (fun s hs => if_neg hs.symm) rfl (by simp) hothers ?_ hexclusive
          rw [storyAfter_act]
          exact hself
      | send hth => exact ih.same (fun _ => rfl) rfl fun _ h => threads_of_update h
      | exec hth hlane => exact ih.same (fun _ => rfl) rfl fun _ h => threads_of_update h
      | deliver hth h =>
          refine ih.moved (fun s hs => if_neg hs.symm) rfl (by simp) (fun _ _ => rfl) ?_ ih.exclusive
          rw [storyAfter_deliver, Story.heard_guarded]
          exact ih.guard _
      | @fail t c k wire r hth hwire h =>
          have hmem := World.abandon_mem (w.setThread t (some ⟨k r, .idle⟩)) (D.lane t) t c wire
          refine ih.moved (fun s hs => if_neg hs.symm) (World.abandon_threads ..) (by simp) ?_ ?_ ?_
          · intro s _
            exact congrFun (congrArg AdmissionMemory.guard hmem) s
          · rw [storyAfter_fail, Story.heard_guarded]
            exact (congrFun (congrArg AdmissionMemory.guard hmem) t).trans (ih.guard t)
          · exact hmem ▸ ih.exclusive
      | stray h => exact ih.same (fun _ => rfl) rfl fun _ h => h
      | lose h => exact ih.same (fun _ => rfl) rfl fun _ h => h
      | finish hth =>
          have hreturned := D.obeys hquiet hrun hth
          refine ih.moved (fun s hs => if_neg hs.symm) rfl (fun _ => if_pos rfl) (fun _ _ => rfl) ?_
            ih.exclusive
          rw [storyAfter_finish]
          exact (ih.guard _).trans hreturned.unguarded
      | @cancel t o k wire kind hth ho =>
          refine ih.moved (fun s hs => if_neg hs.symm) (World.abandonOp_threads ..)
            (fun _ => if_pos rfl) ?_ ?_ ?_
          · intro s hs
            dsimp only [Deployment.network]
            split
            · exact Function.update_of_ne hs ..
            · rfl
          · rw [storyAfter_cancel]
            dsimp only [Deployment.network]
            split
            · exact Function.update_self ..
            · rename_i hfree
              exact eq_false_of_ne_true hfree
          · dsimp only [Deployment.network]
            split
            · rename_i hholds
              exact ih.exclusive.release hholds
            · exact ih.exclusive

end

/-! ## One call of one provider -/

/-- A call for the path `/x` under policies with a case limit of one. -/
def soloDeployment : Deployment Unit Unit Unit Unit where
  lib := soloLibraries
  family := id
  provider _ := ⟨"p", "r", 60000⟩
  call _ := .tryAcquireRequest "s" "/x"
  lane := id
  others _ _ _ := False
  garbled := Malformed
  policies policy := policy.caseLimit = some 1
  fresh := True

/-- Nothing has happened yet, and the recorder key holds `recorder`. -/
def quietWorld (recorder : Option Bytes) : AdmissionWorld Unit Unit Unit Unit where
  now := 0
  db := ⟨fun key => if key = "r" then recorder.map fun v => ⟨v, none⟩ else none, fun _ _ => none⟩
  mem := ⟨fun _ => .default, fun _ => false, fun _ => none⟩
  threads _ := none
  strays _ := []

theorem quietWorld_quiet (recorder : Option Bytes) : Quiet (quietWorld recorder) where
  threads _ := rfl
  strays _ := rfl
  guard _ := rfl
  checking _ := rfl

/-- The call finds the recorder, reserves the slot and counts itself. -/
theorem soloAdmission :
    ∃ ls w ticket, soloDeployment.network.Run (quietWorld (some (utf8 "http://r"))) ls w ∧
      (0, .finish () (.outcome (.ok (.acquired ticket)))) ∈ ls ∧
      w.db.strings.read w.now "p:inflight:s" = some (utf8 (acquisitionToken (0, 0))) ∧
      Db.counter (w.db.hashes "p:api-counts" "/x") = some 1 := by
  have h₀ : soloDeployment.network.Run (quietWorld (some (utf8 "http://r"))) [] _ := .refl
  have h₁ := h₀.snoc (.launch (t := ()) rfl ⟨rfl, rfl⟩)
  have h₂ := h₁.snoc (.act (t := ()) (x := true) rfl rfl)
  have h₃ := h₂.snoc (.act (t := ()) (x := some ⟨some 1, true, (), [], (), ()⟩) rfl
    ⟨by rintro p ⟨⟩; rfl, rfl⟩)
  have h₄ := h₃.snoc (.act (t := ()) (x := true) rfl rfl)
  have h₅ := h₄.snoc (.act (t := ()) (x := (Except.ok () : Except LookupUnavailable Unit)) rfl
    ⟨rfl, rfl⟩)
  have h₆ := (h₅.snoc (.send (t := ()) rfl)).snoc (.exec (t := ()) rfl rfl)
  have h₇ := h₆.snoc (.deliver (t := ()) rfl (Or.inl rfl))
  have h₈ := (h₇.snoc (.send (t := ()) rfl)).snoc (.exec (t := ()) rfl rfl)
  have h₉ := h₈.snoc (.deliver (t := ()) rfl (Or.inl rfl))
  have h₁₀ := h₉.snoc (.act (t := ()) (x := ((0, 0) : Fin (2 ^ 128) × Fin (2 ^ 128))) rfl
    ⟨fun _ => rfl, rfl⟩)
  have h₁₁ := (h₁₀.snoc (.send (t := ()) rfl)).snoc (.exec (t := ()) rfl rfl)
  have h₁₂ := h₁₁.snoc (.deliver (t := ()) rfl (Or.inl rfl))
  have h₁₃ := (h₁₂.snoc (.send (t := ()) rfl)).snoc (.exec (t := ()) rfl rfl)
  have h₁₄ := h₁₃.snoc (.deliver (t := ()) rfl (Or.inl rfl))
  have h₁₅ := h₁₄.snoc (.act (t := ()) (x := true) rfl rfl)
  have h₁₆ := h₁₅.snoc (.act (t := ()) (x := ()) rfl rfl)
  have h₁₇ := h₁₆.snoc (.finish (t := ()) rfl)
  refine ⟨_, _, _, h₁₇, List.mem_append_right _ (List.mem_singleton.mpr rfl), ?_, ?_⟩
  · decide +kernel
  · decide +kernel

end BreezeGateway
