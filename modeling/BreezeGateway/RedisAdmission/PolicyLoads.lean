import BreezeGateway.RedisAdmission.PolicyStore

/-!
# Concurrent policy loads

Any number of loads share one store: the current snapshot and the lock.  Redis may hold anything
under the policy key and may answer anything.
-/

namespace BreezeGateway

open Effects Effects.Network PolicyStore

structure PolicyMemory (Index T : Type) where
  snapshot : PolicySnapshot Index
  loading : Option T

/-- Why a load ends early: its future is dropped, or `LOAD_TIMEOUT` has passed. -/
inductive LoadCut where
  | dropped
  | timeout

section

variable {Index T Lane : Type} [DecidableEq T]

def loadAct (t : T) (mem : PolicyMemory Index T) :
    (o : PolicyOp Index) → (policySig Index).Ans o → PolicyMemory Index T → Prop
  | .lock, _, mem' => mem.loading = none ∧ mem' = { mem with loading := some t }
  | .unlock, _, mem' => mem' = { mem with loading := none }
  | .snapshot, current, mem' => current = mem.snapshot ∧ mem' = mem
  | .store s, _, mem' => mem' = { mem with snapshot := s }

def loadNetwork (lib : Libraries Index) (keyPrefix : String) (lane : T → Lane) :
    Network Command Reply (policySig Index) Db (PolicyMemory Index T) T Lane LoadCut
      (Except AdmissionError Unit) where
  exec := Db.exec
  conveys _ _ _ := True
  garbled := Malformed
  lane := lane
  environment _ _ _ := True
  launch _ mem _ p mem' := mem' = mem ∧ p = (load lib keyPrefix).run
  act _ := loadAct
  suspends
    | .lock => True
    | _ => False
  finish _ _ _ mem := mem
  cancel _ _ t mem := if mem.loading = some t then { mem with loading := none } else mem

abbrev LoadWorld (Index T Lane : Type) :=
  World Command Reply (policySig Index) Db (PolicyMemory Index T) T Lane (Except AdmissionError Unit)

abbrev LoadLabel (Index T : Type) :=
  Label Command Reply (policySig Index) T LoadCut (Except AdmissionError Unit)

abbrev LoadHistory (Index T : Type) :=
  History Command Reply (policySig Index) T LoadCut (Except AdmissionError Unit)

abbrev stage (t : T) (ls : LoadHistory Index T) : Stage := stageTale.told t ls

structure Fresh (w : LoadWorld Index T Lane) : Prop where
  threads : ∀ t, w.threads t = none
  loading : w.mem.loading = none
  snapshot : w.mem.snapshot = initial

/-- Some load was given this raw policy in reply to its `GET`. -/
def Answered (keyPrefix : String) (raw : Option Bytes) (ls : LoadHistory Index T) : Prop :=
  ∃ τ t value, (τ, .deliver t (.get (PolicyStore.key keyPrefix)) (.ok value)) ∈ ls ∧
    rawPolicy value = .ok raw

/-- The initial snapshot, or a raw policy from Redis with its compilation. -/
def Valid (lib : Libraries Index) (keyPrefix : String) (ls : LoadHistory Index T)
    (s : PolicySnapshot Index) : Prop :=
  s = initial ∨ ∃ raw policy, s = ⟨raw, some policy⟩ ∧ compileRaw lib raw = .ok policy ∧
    Answered keyPrefix raw ls

/-- The load of `t` stores its snapshot, or finds it unchanged. -/
def Publishes (t : T) (ls : LoadHistory Index T) : LoadLabel Index T → Prop
  | .act u (.store _) _ => u = t
  | .act u .snapshot current => u = t ∧ ∃ raw, stage t ls = .replied raw ∧ Stage.unchanged raw current
  | _ => False

structure LoadFacts (lib : Libraries Index) (keyPrefix : String) (ls : LoadHistory Index T)
    (w : LoadWorld Index T Lane) : Prop where
  idle : ∀ t, w.threads t = none → stage t ls = .waiting
  lock : ∀ t, w.mem.loading = some t ↔ (stage t ls).holds = true
  valid : Valid lib keyPrefix ls w.mem.snapshot
  heard : ∀ t raw, stage t ls = .replied raw → Answered keyPrefix raw ls
  own : ∀ t raw, stage t ls = .published raw →
    ∃ policy, w.mem.snapshot = ⟨raw, some policy⟩ ∧ compileRaw lib raw = .ok policy

variable {lib : Libraries Index} {keyPrefix : String} {lane : T → Lane}
  {w₀ w w' : LoadWorld Index T Lane} {ls : LoadHistory Index T} {l : LoadLabel Index T} {t : T}
  {raw : Option Bytes}

omit [DecidableEq T] in
theorem Answered.mono (h : Answered keyPrefix raw ls) (ls' : LoadHistory Index T) :
    Answered keyPrefix raw (ls ++ ls') := by
  obtain ⟨τ, t, value, hmem, hraw⟩ := h
  exact ⟨τ, t, value, List.mem_append_left _ hmem, hraw⟩

omit [DecidableEq T] in
theorem Valid.mono {s : PolicySnapshot Index} (h : Valid lib keyPrefix ls s)
    (ls' : LoadHistory Index T) : Valid lib keyPrefix (ls ++ ls') s := by
  rcases h with h | ⟨raw, policy, hs, hcompile, hraw⟩
  · exact Or.inl h
  · exact Or.inr ⟨raw, policy, hs, hcompile, hraw.mono ls'⟩

theorem load_obeys [DecidableEq Lane] (hfresh : Fresh w₀)
    (hrun : (loadNetwork lib keyPrefix lane).Run w₀ ls w)
    {th : Thread Command Reply (policySig Index) (Except AdmissionError Unit)}
    (hth : w.threads t = some th) :
    th.prog.Meets (loadContract lib keyPrefix) (stage t ls) Finished := by
  refine stageTale.obeys (fun _ => Allows lib keyPrefix) (fun _ => Finished) ?_ hfresh.threads hrun
    hth
  intro now mem t p mem' hlaunch
  obtain ⟨-, rfl⟩ := hlaunch
  exact meets_load

/-! ## The steps of a load -/

theorem LoadFacts.same {x : ℕ × LoadLabel Index T} (h : LoadFacts lib keyPrefix ls w)
    (hx : ∀ s, stageTale.next s (stage s ls) x = stage s ls) (hmem : w'.mem = w.mem)
    (hthreads : ∀ s, w'.threads s = none → w.threads s = none) :
    LoadFacts lib keyPrefix (ls ++ [x]) w' where
  idle s hs := by
    rw [stage, Tale.told_snoc, hx s]
    exact h.idle s (hthreads s hs)
  lock s := by
    rw [stage, Tale.told_snoc, hx s, hmem]
    exact h.lock s
  valid := by
    rw [hmem]
    exact h.valid.mono _
  heard s raw hs := by
    rw [stage, Tale.told_snoc, hx s] at hs
    exact (h.heard s raw hs).mono _
  own s raw hs := by
    rw [stage, Tale.told_snoc, hx s] at hs
    rw [hmem]
    exact h.own s raw hs

theorem LoadFacts.moved {x : ℕ × LoadLabel Index T} {stage' : Stage}
    {th : Option (Thread Command Reply (policySig Index) (Except AdmissionError Unit))}
    (h : LoadFacts lib keyPrefix ls w)
    (hx : ∀ s, s ≠ t → stageTale.next s (stage s ls) x = stage s ls)
    (hself : stageTale.next t (stage t ls) x = stage')
    (hthreads : w'.threads = Function.update w.threads t th)
    (hidle : th = none → stage' = .waiting)
    (hlock : w'.mem.loading = some t ↔ stage'.holds = true)
    (hothers : ∀ s, s ≠ t → (w'.mem.loading = some s ↔ w.mem.loading = some s))
    (hsnapshot : w'.mem.snapshot = w.mem.snapshot ∨ (stage t ls).holds = true)
    (hvalid : Valid lib keyPrefix (ls ++ [x]) w'.mem.snapshot)
    (hheard : ∀ raw, stage' = .replied raw → Answered keyPrefix raw (ls ++ [x]))
    (hown : ∀ raw, stage' = .published raw →
      ∃ policy, w'.mem.snapshot = ⟨raw, some policy⟩ ∧ compileRaw lib raw = .ok policy) :
    LoadFacts lib keyPrefix (ls ++ [x]) w' where
  idle s hs := by
    rw [stage, Tale.told_snoc]
    by_cases hst : s = t
    · subst hst
      rw [hthreads, Function.update_self] at hs
      rw [hself]
      exact hidle hs
    · rw [hthreads, Function.update_of_ne hst] at hs
      rw [hx s hst]
      exact h.idle s hs
  lock s := by
    rw [stage, Tale.told_snoc]
    by_cases hst : s = t
    · subst hst
      rw [hself]
      exact hlock
    · rw [hx s hst, hothers s hst]
      exact h.lock s
  valid := hvalid
  heard s raw hs := by
    rw [stage, Tale.told_snoc] at hs
    by_cases hst : s = t
    · subst hst
      rw [hself] at hs
      exact hheard raw hs
    · rw [hx s hst] at hs
      exact (h.heard s raw hs).mono _
  own s raw hs := by
    rw [stage, Tale.told_snoc] at hs
    by_cases hst : s = t
    · subst hst
      rw [hself] at hs
      exact hown raw hs
    · rw [hx s hst] at hs
      rcases hsnapshot with hsnapshot | hholds
      · rw [hsnapshot]
        exact h.own s raw hs
      · have hs' : w.mem.loading = some s := (h.lock s).mpr (by rw [hs]; rfl)
        rw [(h.lock t).mpr hholds] at hs'
        exact absurd (Option.some.inj hs').symm hst

theorem LoadFacts.holder {u : T} (h : LoadFacts lib keyPrefix ls w) (ht : (stage t ls).holds = true)
    (hu : (stage u ls).holds = true) : t = u := by
  have ht' := (h.lock t).mpr ht
  rw [(h.lock u).mpr hu] at ht'
  exact (Option.some.inj ht').symm

theorem LoadFacts.act {o : PolicyOp Index} {y : (policySig Index).Ans o}
    {mem : PolicyMemory Index T}
    {k : (policySig Index).Ans o → Prog (redisSig (policySig Index)) (Except AdmissionError Unit)}
    (h : LoadFacts lib keyPrefix ls w) (hpre : Allows lib keyPrefix (stage t ls) (.inr o))
    (hact : loadAct t w.mem o y mem) :
    LoadFacts lib keyPrefix (ls ++ [(w.now, .act t o y)])
      { w.setThread t (some ⟨k y, .idle⟩) with mem := mem } := by
  have hother : ∀ s, s ≠ t →
      stageTale.next s (stage s ls) (w.now, (.act t o y : LoadLabel Index T)) = stage s ls :=
    fun s hs => if_neg hs.symm
  have hnext : ∀ {stage' : Stage}, (stage t ls).noted o y = stage' →
      stageTale.next t (stage t ls) (w.now, (.act t o y : LoadLabel Index T)) = stage' :=
    fun hnoted => (if_pos rfl).trans hnoted
  have hvalid := h.valid.mono [(w.now, (.act t o y : LoadLabel Index T))]
  cases o with
  | lock =>
      obtain ⟨hfree, rfl⟩ := hact
      have hstage : stage t ls = .waiting := hpre
      have hlocked : (stage t ls).noted (.lock : PolicyOp Index) y = .locked := by
        rw [hstage]
        rfl
      refine h.moved hother (hnext hlocked) rfl (by simp) (by simp [Stage.holds]) ?_ (Or.inl rfl)
        hvalid ?_ ?_
      · intro s hs
        simp [hfree, Ne.symm hs]
      · intro raw hraw
        cases hraw
      · intro raw hraw
        cases hraw
  | unlock =>
      obtain rfl : mem = { w.mem with loading := none } := hact
      have hholds : (stage t ls).holds = true := hpre
      have hended : (stage t ls).noted (.unlock : PolicyOp Index) y = .ended (stage t ls).settled := by
        cases stage t ls <;> rfl
      refine h.moved hother (hnext hended) rfl (by simp) (by simp [Stage.holds]) ?_ (Or.inl rfl) hvalid ?_ ?_
      · intro s hs
        simp [(h.lock t).mpr hholds, Ne.symm hs]
      · intro raw hraw
        cases hraw
      · intro raw hraw
        cases hraw
  | snapshot =>
      obtain ⟨rfl, rfl⟩ := hact
      obtain ⟨raw, hstage⟩ : ∃ raw, stage t ls = .replied raw := hpre
      have hholds : (stage t ls).holds = true := by rw [hstage]; rfl
      have hloading := (h.lock t).mpr hholds
      by_cases hsame : Stage.unchanged raw w.mem.snapshot
      · have hpublished : (stage t ls).noted (.snapshot : PolicyOp Index) w.mem.snapshot =
            .published raw := by
          rw [hstage]
          exact if_pos hsame
        refine h.moved hother (hnext hpublished) rfl (by simp) (by simp [Stage.holds, hloading])
          (fun _ _ => Iff.rfl) (Or.inl rfl) hvalid ?_ ?_
        · intro raw hraw
          cases hraw
        · intro raw' hraw
          obtain rfl := Stage.published.inj hraw
          rcases h.valid with hinitial | ⟨raw', policy, hsnapshot, hcompile, -⟩
          · have hsome := hsame.1
            rw [hinitial] at hsome
            cases hsome
          · have hraw' := hsame.2
            rw [hsnapshot] at hraw'
            obtain rfl : raw' = raw := hraw'
            exact ⟨policy, hsnapshot, hcompile⟩
      · have hreplied : (stage t ls).noted (.snapshot : PolicyOp Index) w.mem.snapshot =
            .replied raw := by
          rw [hstage]
          exact if_neg hsame
        refine h.moved hother (hnext hreplied) rfl (by simp) (by simp [Stage.holds, hloading])
          (fun _ _ => Iff.rfl) (Or.inl rfl) hvalid ?_ ?_
        · intro raw' hraw
          obtain rfl := Stage.replied.inj hraw
          exact (h.heard t raw hstage).mono _
        · intro raw hraw
          cases hraw
  | store snapshot =>
      obtain rfl : mem = { w.mem with snapshot := snapshot } := hact
      obtain ⟨raw, policy, hstage, rfl, hcompile⟩ : ∃ raw policy, stage t ls = .replied raw ∧
        snapshot = ⟨raw, some policy⟩ ∧ compileRaw lib raw = .ok policy := hpre
      have hholds : (stage t ls).holds = true := by rw [hstage]; rfl
      have hloading := (h.lock t).mpr hholds
      have hpublished : (stage t ls).noted (.store ⟨raw, some policy⟩) y = .published raw := by
        rw [hstage]
        rfl
      refine h.moved hother (hnext hpublished) rfl (by simp) (by simp [Stage.holds, hloading])
        (fun _ _ => Iff.rfl) (Or.inr hholds) ?_ ?_ ?_
      · exact Or.inr ⟨raw, policy, rfl, hcompile, (h.heard t raw hstage).mono _⟩
      · intro raw' hraw
        cases hraw
      · intro raw' hraw
        obtain rfl := Stage.published.inj hraw
        exact ⟨policy, rfl, hcompile⟩

theorem heard_failed {r : Reply} (h : ∀ value raw, r = .ok value → rawPolicy value ≠ .ok raw) :
    Stage.heard r .locked = .failed := by
  cases r with
  | error m => rfl
  | ok value =>
      cases hraw : rawPolicy value with
      | ok raw => exact absurd hraw (h value raw rfl)
      | error e => simp [Stage.heard, hraw]

theorem rawPolicy_of_malformed {k : String} {value : Value} (h : Malformed (.get k) (.ok value))
    (raw : Option Bytes) : rawPolicy value ≠ .ok raw := by
  intro hraw
  cases value with
  | nil => exact absurd rfl h.1
  | bulkString bytes => exact absurd rfl (h.2 bytes)
  | _ => cases hraw

theorem LoadFacts.hear {c : Command} {r : Reply} {x : ℕ × LoadLabel Index T}
    {th : Option (Thread Command Reply (policySig Index) (Except AdmissionError Unit))}
    (h : LoadFacts lib keyPrefix ls w) (hpre : Allows lib keyPrefix (stage t ls) (.inl c))
    (hx : ∀ s, s ≠ t → stageTale.next s (stage s ls) x = stage s ls)
    (hself : stageTale.next t (stage t ls) x = (stage t ls).heard r)
    (hthreads : w'.threads = Function.update w.threads t th) (hth : th ≠ none)
    (hmem : w'.mem = w.mem)
    (hraw : ∀ value raw, r = .ok value → rawPolicy value = .ok raw →
      Answered keyPrefix raw (ls ++ [x])) : LoadFacts lib keyPrefix (ls ++ [x]) w' := by
  obtain ⟨hstage, -⟩ : stage t ls = .locked ∧ c = _ := hpre
  have hloading := (h.lock t).mpr (by rw [hstage]; rfl)
  have hvalid : Valid lib keyPrefix (ls ++ [x]) w'.mem.snapshot := by
    rw [hmem]
    exact h.valid.mono _
  have hothers : ∀ s, s ≠ t → (w'.mem.loading = some s ↔ w.mem.loading = some s) := by
    intro s _
    rw [hmem]
  by_cases hok : ∃ value raw, r = .ok value ∧ rawPolicy value = .ok raw
  · obtain ⟨value, raw, rfl, hvalue⟩ := hok
    have hreplied : (stage t ls).heard (.ok value) = .replied raw := by
      rw [hstage]
      simp [Stage.heard, hvalue]
    refine h.moved hx (hself.trans hreplied) hthreads (fun hnone => absurd hnone hth) ?_ hothers
      (Or.inl (by rw [hmem])) hvalid ?_ ?_
    · simp [hmem, hloading, Stage.holds]
    · intro raw' hraw'
      obtain rfl := Stage.replied.inj hraw'
      exact hraw value raw rfl hvalue
    · intro raw' hraw'
      cases hraw'
  · have hfailed : (stage t ls).heard r = .failed := by
      rw [hstage]
      exact heard_failed fun value raw hr hvalue => hok ⟨value, raw, hr, hvalue⟩
    refine h.moved hx (hself.trans hfailed) hthreads (fun hnone => absurd hnone hth) ?_ hothers
      (Or.inl (by rw [hmem])) hvalid ?_ ?_
    · simp [hmem, hloading, Stage.holds]
    · intro raw' hraw'
      cases hraw'
    · intro raw' hraw'
      cases hraw'

theorem LoadFacts.reset {x : ℕ × LoadLabel Index T}
    {th : Option (Thread Command Reply (policySig Index) (Except AdmissionError Unit))}
    (h : LoadFacts lib keyPrefix ls w)
    (hx : ∀ s, s ≠ t → stageTale.next s (stage s ls) x = stage s ls)
    (hself : stageTale.next t (stage t ls) x = .waiting)
    (hthreads : w'.threads = Function.update w.threads t th)
    (hlock : w'.mem.loading ≠ some t)
    (hothers : ∀ s, s ≠ t → (w'.mem.loading = some s ↔ w.mem.loading = some s))
    (hsnapshot : w'.mem.snapshot = w.mem.snapshot) : LoadFacts lib keyPrefix (ls ++ [x]) w' := by
  refine h.moved hx hself hthreads (fun _ => rfl) (by simp [hlock, Stage.holds]) hothers
    (Or.inl hsnapshot) ?_ ?_ ?_
  · rw [hsnapshot]
    exact h.valid.mono _
  · intro raw hraw
    cases hraw
  · intro raw hraw
    cases hraw

theorem LoadFacts.step [DecidableEq Lane] (h : LoadFacts lib keyPrefix ls w) (hfresh : Fresh w₀)
    (hrun : (loadNetwork lib keyPrefix lane).Run w₀ ls w)
    (hstep : (loadNetwork lib keyPrefix lane).Step w l w') :
    LoadFacts lib keyPrefix (ls ++ [(w.now, l)]) w' := by
  have hfree : ∀ t, (stage t ls).holds = false → w.mem.loading ≠ some t := by
    intro t hholds hloading
    rw [(h.lock t).mp hloading] at hholds
    cases hholds
  cases hstep with
  | tick d => exact h.same (fun _ => rfl) rfl fun _ hs => hs
  | environment hdb => exact h.same (fun _ => rfl) rfl fun _ hs => hs
  | @launch t p mem hidle hl =>
      obtain ⟨rfl, rfl⟩ := hl
      refine h.reset (fun s hs => if_neg hs.symm) (if_pos rfl) rfl ?_ (fun _ _ => Iff.rfl) rfl
      apply hfree
      rw [h.idle t hidle]
      rfl
  | act hth hact => exact h.act (load_obeys hfresh hrun hth).1 hact
  | send hth => exact h.same (fun _ => rfl) rfl fun _ hs => threads_of_update hs
  | exec hth hlane => exact h.same (fun _ => rfl) rfl fun _ hs => threads_of_update hs
  | @deliver t c k r r' hth hr =>
      have hpre : Allows lib keyPrefix (stage t ls) (.inl c) := (load_obeys hfresh hrun hth).1
      refine h.hear hpre (fun s hs => if_neg hs.symm) (if_pos rfl) rfl (by simp) rfl ?_
      rintro value raw rfl hraw
      refine ⟨w.now, t, value, List.mem_append_right _ ?_, hraw⟩
      rw [show c = .get (PolicyStore.key keyPrefix) from hpre.2]
      exact List.mem_singleton.mpr rfl
  | @fail t c k wire r hth hwire hgarbled =>
      have hpre : Allows lib keyPrefix (stage t ls) (.inl c) := (load_obeys hfresh hrun hth).1
      refine h.hear hpre (fun s hs => if_neg hs.symm) (if_pos rfl) (World.abandon_threads ..) (by simp)
        (World.abandon_mem ..) ?_
      rintro value raw rfl hraw
      have hmalformed : Malformed (.get (PolicyStore.key keyPrefix)) (.ok value) := by
        rw [← show c = .get (PolicyStore.key keyPrefix) from hpre.2]
        exact hgarbled
      exact absurd hraw (rawPolicy_of_malformed hmalformed raw)
  | stray hstray => exact h.same (fun _ => rfl) rfl fun _ hs => hs
  | lose hstray => exact h.same (fun _ => rfl) rfl fun _ hs => hs
  | @finish t a hth =>
      have hfinished : Finished (stage t ls) a := load_obeys hfresh hrun hth
      refine h.reset (fun s hs => if_neg hs.symm) (if_pos rfl) rfl ?_ (fun _ _ => Iff.rfl) rfl
      apply hfree
      rw [show stage t ls = _ from hfinished]
      rfl
  | @cancel t o k wire cut hth ho =>
      refine h.reset (fun s hs => if_neg hs.symm) (if_pos rfl) (World.abandonOp_threads ..) ?_ ?_ ?_
      · dsimp only [loadNetwork]
        split
        · simp
        · assumption
      · intro s hs
        dsimp only [loadNetwork]
        split
        · rename_i hloading
          simp [hloading, Ne.symm hs]
        · exact Iff.rfl
      · dsimp only [loadNetwork]
        split <;> rfl

theorem load_facts [DecidableEq Lane] (hfresh : Fresh w₀)
    (hrun : (loadNetwork lib keyPrefix lane).Run w₀ ls w) : LoadFacts lib keyPrefix ls w := by
  induction hrun with
  | refl =>
      refine ⟨fun _ _ => rfl, ?_, Or.inl hfresh.snapshot, ?_, ?_⟩
      · intro t
        rw [hfresh.loading]
        constructor
        · intro h
          cases h
        · intro h
          cases h
      · intro t raw h
        cases h
      · intro t raw h
        cases h
  | snoc hrun hstep ih => exact ih.step hfresh hrun hstep

/-! ## Publication and order -/

theorem settled_after (s : Stage) (o : (redisSig (policySig Index)).Op)
    (x : (redisSig (policySig Index)).Ans o) (h : s.settled = true) :
    (stageTale.after s o x).settled = true := by
  cases s with
  | published raw =>
      cases o with
      | inl c => rfl
      | inr o => cases o <;> rfl
  | ended ok =>
      cases o with
      | inl c => exact h
      | inr o => cases o <;> exact h
  | _ => cases h

theorem ended_after (ok : Bool) (s : Stage) (o : (redisSig (policySig Index)).Op)
    (x : (redisSig (policySig Index)).Ans o) (h : s = .ended ok) :
    stageTale.after s o x = .ended ok := by
  subst h
  cases o with
  | inl c => rfl
  | inr o => cases o <;> rfl

theorem settled_heard (s : Stage) (r : Reply) : (s.heard r).settled = s.settled := by
  cases s with
  | locked =>
      cases r with
      | error m => rfl
      | ok value =>
          simp only [Stage.heard]
          split <;> rfl
  | _ => rfl

theorem holds_heard (s : Stage) (r : Reply) : (s.heard r).holds = s.holds := by
  cases s with
  | locked =>
      cases r with
      | error m => rfl
      | ok value =>
          simp only [Stage.heard]
          split <;> rfl
  | _ => rfl

/-- A load that has the lock keeps it or has ended. -/
theorem held_or_ended_after (s : Stage) (o : (redisSig (policySig Index)).Op)
    (x : (redisSig (policySig Index)).Ans o) (h : s.holds = true ∨ ∃ ok, s = .ended ok) :
    (stageTale.after s o x).holds = true ∨ ∃ ok, stageTale.after s o x = .ended ok := by
  rcases h with h | ⟨ok, h⟩
  · cases o with
    | inl c => exact Or.inl ((holds_heard s x).trans h)
    | inr o =>
        cases o with
        | unlock => exact Or.inr ⟨s.settled, by cases s <;> rfl⟩
        | snapshot =>
            left
            cases s with
            | replied raw =>
                simp only [stageTale, Stage.noted]
                split <;> rfl
            | _ => exact h
        | _ =>
            left
            cases s <;> first | rfl | exact h
  · exact Or.inr ⟨ok, ended_after ok s o x h⟩

theorem publishes_of_noted {o : PolicyOp Index} {y : (policySig Index).Ans o}
    (hbefore : ¬ (stage t ls).settled = true)
    (hafter : ((stage t ls).noted o y).settled = true) :
    Publishes t ls (.act t o y : LoadLabel Index T) := by
  cases o with
  | lock =>
      generalize stage t ls = s at hbefore hafter
      cases s <;> exact absurd hafter hbefore
  | unlock =>
      generalize stage t ls = s at hbefore hafter
      refine absurd ?_ hbefore
      cases s <;> exact hafter
  | snapshot =>
      refine ⟨rfl, ?_⟩
      generalize stage t ls = s at hbefore hafter
      cases s with
      | replied raw =>
          simp only [Stage.noted] at hafter
          split at hafter
          · rename_i hsame
            exact ⟨raw, rfl, hsame⟩
          · cases hafter
      | _ => exact absurd hafter hbefore
  | store snapshot => rfl

theorem publishes_of_turn {x : ℕ × LoadLabel Index T} (hx : ¬ Bounds t x.2)
    (hbefore : ¬ (stage t ls).settled = true)
    (hafter : (stageTale.next t (stage t ls) x).settled = true) : Publishes t ls x.2 := by
  obtain ⟨τ, l⟩ := x
  have hif : ∀ {u : T} {s : Stage}, (u = t → s.settled = true → Publishes t ls l) →
      (if u = t then s else stage t ls).settled = true → Publishes t ls l := by
    intro u s hs hafter
    split at hafter
    · rename_i hu
      exact hs hu hafter
    · exact absurd hafter hbefore
  cases l with
  | launch u => exact hif (fun hu => absurd hu hx) hafter
  | finish u a => exact hif (fun hu => absurd hu hx) hafter
  | cancel u cut => exact hif (fun hu => absurd hu hx) hafter
  | act u o y =>
      refine hif ?_ hafter
      rintro rfl hnoted
      exact publishes_of_noted hbefore hnoted
  | deliver u c r =>
      refine hif ?_ hafter
      intro hu hheard
      exact absurd ((settled_heard _ r).symm.trans hheard) hbefore
  | fail u c r =>
      refine hif ?_ hafter
      intro hu hheard
      exact absurd ((settled_heard _ r).symm.trans hheard) hbefore
  | _ => exact absurd hafter hbefore

/-- A running load that has settled has published meanwhile. -/
theorem published_between {ls' : LoadHistory Index T} (hongoing : Ongoing t ls')
    (hbefore : ¬ (stage t ls).settled = true) (hafter : (stage t (ls ++ ls')).settled = true) :
    ∃ b₁ x b₂, ls' = b₁ ++ x :: b₂ ∧ Publishes t (ls ++ b₁) x.2 := by
  obtain ⟨b₁, x, b₂, rfl, hb, hx⟩ := Tale.exists_turn (P := fun s => Stage.settled s = true) hbefore hafter
  exact ⟨b₁, x, b₂, rfl, publishes_of_turn (hongoing x (by simp)) hb hx⟩

def ReturnsOk (t : T) (ls : LoadHistory Index T) : Prop :=
  ∃ m τ d, ls = m ++ (τ, .finish t (.ok ())) :: d ∧ Ongoing t m

section

variable [DecidableEq Lane]

theorem settled_of_finish {a d : LoadHistory Index T} {τ : ℕ} (hfresh : Fresh w₀)
    (hrun : (loadNetwork lib keyPrefix lane).Run w₀ (a ++ (τ, .finish t (.ok ())) :: d) w) :
    stage t a = .ended true := by
  obtain ⟨v, v', hv, -, hstep, -⟩ := hrun.step_of_append
  cases hstep with
  | finish hth => exact load_obeys hfresh hv hth

theorem locked_of_exec {a d : LoadHistory Index T} {τ : ℕ} {c : Command} {r : Reply}
    (hfresh : Fresh w₀)
    (hrun : (loadNetwork lib keyPrefix lane).Run w₀ (a ++ (τ, .exec t c r) :: d) w) :
    stage t a = .locked := by
  obtain ⟨v, v', hv, -, hstep, -⟩ := hrun.step_of_append
  cases hstep with
  | exec hth hlane => exact (load_obeys hfresh hv hth).1.1

/-- A load whose `GET` is executed publishes before the `GET` of another load is. -/
theorem published_before {a b d : LoadHistory Index T} {τ τ' : ℕ} {t u : T} {c c' : Command}
    {r r' : Reply} (hfresh : Fresh w₀)
    (hrun : (loadNetwork lib keyPrefix lane).Run w₀
      (a ++ (τ, .exec t c r) :: (b ++ (τ', .exec u c' r') :: d)) w)
    (hdistinct : t = u → ¬ Ongoing t b) (hok : ReturnsOk t (b ++ (τ', .exec u c' r') :: d)) :
    ∃ b₁ x b₂, b = b₁ ++ x :: b₂ ∧ Publishes t (a ++ (τ, .exec t c r) :: b₁) x.2 := by
  have hlocked : stage t (a ++ [(τ, .exec t c r)]) = .locked := by
    rw [stage, Tale.told_snoc]
    exact locked_of_exec hfresh hrun
  have hbefore : ¬ (stage t (a ++ [(τ, .exec t c r)])).settled = true := by
    rw [hlocked]
    exact Bool.false_ne_true
  have hpublished : ∀ b', Ongoing t b' →
      (stage t ((a ++ [(τ, .exec t c r)]) ++ b')).settled = true →
      ∃ b₁ x b₂, b' = b₁ ++ x :: b₂ ∧ Publishes t (a ++ (τ, .exec t c r) :: b₁) x.2 := by
    intro b' hb' hsettled
    obtain ⟨b₁, x, b₂, hsplit, hx⟩ := published_between hb' hbefore hsettled
    rw [List.append_assoc] at hx
    exact ⟨b₁, x, b₂, hsplit, hx⟩
  obtain ⟨m, τ'', d', hm, hongoing⟩ := hok
  rcases List.append_eq_append_iff.mp hm with ⟨rest, rfl, hrest⟩ | ⟨rest, rfl, hrest⟩
  · -- The load is still running when the other `GET` is executed.
    cases rest with
    | nil => cases hrest
    | cons y rest =>
        obtain ⟨rfl, rfl⟩ := List.cons_eq_cons.mp hrest
        have hmid : Ongoing t b := fun x hx => hongoing x (List.mem_append_left _ hx)
        have hheld : (stage t ((a ++ [(τ, .exec t c r)]) ++ b)).holds = true ∨
            ∃ ok, stage t ((a ++ [(τ, .exec t c r)]) ++ b) = .ended ok := by
          refine Tale.persists (P := fun s => Stage.holds s = true ∨ ∃ ok, s = Stage.ended ok)
            held_or_ended_after hmid ?_
          left
          change (stage t (a ++ [(τ, .exec t c r)])).holds = true
          rw [hlocked]
          rfl
        have hrun' : (loadNetwork lib keyPrefix lane).Run w₀
            (((a ++ [(τ, .exec t c r)]) ++ b) ++
              (τ', .exec u c' r') :: (rest ++ (τ'', .finish t (.ok ())) :: d')) w := by
          simpa using hrun
        rcases hheld with hheld | ⟨ok, hended⟩
        · obtain ⟨v, v', hv, -, -, -⟩ := hrun'.step_of_append
          have hother : (stage u ((a ++ [(τ, .exec t c r)]) ++ b)).holds = true := by
            rw [locked_of_exec hfresh hrun']
            rfl
          exact absurd hmid (hdistinct ((load_facts hfresh hv).holder hheld hother))
        · have hrest' : Ongoing t ((τ', .exec u c' r') :: rest) := fun x hx =>
            hongoing x (List.mem_append_right _ hx)
          have hlast := Tale.persists (P := fun s => s = Stage.ended ok) (ended_after ok) hrest' hended
          have hfinish : stage t (((a ++ [(τ, .exec t c r)]) ++ b) ++ (τ', .exec u c' r') :: rest) =
              .ended true := by
            apply settled_of_finish hfresh
            simpa using hrun
          have hboth := hlast.symm.trans hfinish
          obtain rfl := Stage.ended.inj hboth
          apply hpublished b hmid
          rw [hended]
          rfl
  · -- It has already returned.
    cases rest with
    | nil => cases hrest
    | cons y rest =>
        obtain ⟨rfl, rfl⟩ := List.cons_eq_cons.mp hrest
        have hfinish : stage t ((a ++ [(τ, .exec t c r)]) ++ m) = .ended true := by
          apply settled_of_finish hfresh
          simpa using hrun
        obtain ⟨b₁, x, b₂, rfl, hx⟩ := hpublished m hongoing (by rw [hfinish]; rfl)
        exact ⟨b₁, x, b₂ ++ (τ'', .finish t (.ok ())) :: rest, by simp, hx⟩

/-! ## The law of snapshots -/

def StoresNothing (t : T) (ls : LoadHistory Index T) : Prop :=
  ∀ σ s y, (σ, (.act t (.store s) y : LoadLabel Index T)) ∉ ls

/-- The end of a load that has failed or has been cancelled. -/
def Fails (t : T) : LoadLabel Index T → Prop
  | .finish u (.error _) => u = t
  | .cancel u _ => u = t
  | _ => False

theorem snapshot_of_step (h : (loadNetwork lib keyPrefix lane).Step w l w') :
    w'.mem.snapshot = w.mem.snapshot ∨
      ∃ t s y, l = .act t (.store s) y ∧ w'.mem.snapshot = s := by
  cases h with
  | launch hidle hl =>
      obtain ⟨rfl, rfl⟩ := hl
      exact Or.inl rfl
  | @act t o k y mem hth hact =>
      cases o with
      | lock =>
          obtain ⟨-, rfl⟩ := hact
          exact Or.inl rfl
      | unlock =>
          obtain rfl : mem = _ := hact
          exact Or.inl rfl
      | snapshot =>
          obtain ⟨-, rfl⟩ := hact
          exact Or.inl rfl
      | store s =>
          obtain rfl : mem = _ := hact
          exact Or.inr ⟨t, s, y, rfl, rfl⟩
  | fail hth hwire hgarbled => exact Or.inl (congrArg PolicyMemory.snapshot (World.abandon_mem ..))
  | @cancel t o k wire cut hth ho =>
      left
      dsimp only [loadNetwork]
      split <;> rfl
  | _ => exact Or.inl rfl

theorem stage_of_launch {a : LoadHistory Index T} {τ : ℕ} :
    stage t (a ++ [(τ, .launch t)]) = .waiting := by
  rw [stage, Tale.told_snoc]
  exact if_pos rfl

theorem stores_nothing {a b d : LoadHistory Index T} {τ τ' : ℕ} (hfresh : Fresh w₀)
    (hrun : (loadNetwork lib keyPrefix lane).Run w₀
      (a ++ (τ, .launch t) :: (b ++ (τ', l) :: d)) w)
    (hongoing : Ongoing t b) (hfails : Fails t l) : StoresNothing t b := by
  intro σ s y hmem
  obtain ⟨b₁, b₂, rfl⟩ := List.append_of_mem hmem
  have hrun' : (loadNetwork lib keyPrefix lane).Run w₀
      ((a ++ (τ, .launch t) :: b₁) ++ (σ, .act t (.store s) y) :: (b₂ ++ (τ', l) :: d)) w := by
    simpa using hrun
  have hsettled : (stage t ((a ++ (τ, .launch t) :: b₁) ++ [(σ, .act t (.store s) y)])).settled =
      true := by
    obtain ⟨v, v', hv, -, hstep, -⟩ := hrun'.step_of_append
    cases hstep with
    | act hth hact =>
        obtain ⟨raw, policy, hstage, -, -⟩ := (load_obeys hfresh hv hth).1
        rw [stage, Tale.told_snoc, show Tale.told stageTale t _ = .replied raw from hstage]
        exact congrArg Stage.settled (if_pos rfl)
  have hrest : Ongoing t b₂ := fun x hx => hongoing x (by simp [hx])
  have hend := Tale.persists (P := fun s => Stage.settled s = true) settled_after hrest hsettled
  have hlast : (loadNetwork lib keyPrefix lane).Run w₀
      ((((a ++ (τ, .launch t) :: b₁) ++ [(σ, .act t (.store s) y)]) ++ b₂) ++ (τ', l) :: d) w := by
    simpa using hrun
  obtain ⟨v, v', hv, -, hstep, -⟩ := hlast.step_of_append
  cases hstep with
  | @finish u x hth =>
      cases x with
      | ok _ => exact hfails
      | error e =>
          obtain rfl : u = t := hfails
          rw [show Tale.told stageTale u _ = .ended false from load_obeys hfresh hv hth] at hend
          cases hend
  | @cancel u o k wire cut hth ho =>
      obtain rfl : u = t := hfails
      have hpre := (load_obeys hfresh hv hth).1
      cases o with
      | inl c =>
          rw [show Tale.told stageTale u _ = .locked from hpre.1] at hend
          cases hend
      | inr o =>
          cases o with
          | lock =>
              rw [show Tale.told stageTale u _ = .waiting from hpre] at hend
              cases hend
          | _ => exact ho
  | _ => exact hfails

/-- A load gets at its raw policy by the reply to its own `GET`. -/
theorem replied_of_run {a b : LoadHistory Index T} {v : LoadWorld Index T Lane} {τ : ℕ}
    (hfresh : Fresh w₀)
    (hrun : (loadNetwork lib keyPrefix lane).Run w₀ (a ++ (τ, .launch t) :: b) v)
    (hongoing : Ongoing t b) (hstage : stage t (a ++ (τ, .launch t) :: b) = .replied raw) :
    ∃ σ value, (σ, .deliver t (.get (PolicyStore.key keyPrefix)) (.ok value)) ∈ b ∧
      rawPolicy value = .ok raw := by
  have hbefore : ¬ stage t (a ++ [(τ, .launch t)]) = .replied raw := by
    rw [stage_of_launch]
    intro h
    cases h
  have hafter : stage t ((a ++ [(τ, .launch t)]) ++ b) = .replied raw := by
    simpa using hstage
  obtain ⟨b₁, ⟨σ, l⟩, b₂, rfl, hx, hy⟩ :=
    Tale.exists_turn (P := fun s => s = Stage.replied raw) hbefore hafter
  have hrun' : (loadNetwork lib keyPrefix lane).Run w₀
      (((a ++ [(τ, .launch t)]) ++ b₁) ++ (σ, l) :: b₂) v := by
    simpa using hrun
  obtain ⟨u, u', hu, -, hstep, -⟩ := hrun'.step_of_append
  have hl : ¬ Bounds t l := hongoing (σ, l) (by simp)
  have hif : ∀ {s : T} {s' : Stage} {P : Prop}, (s = t → s' = .replied raw → P) →
      (if s = t then s' else stage t ((a ++ [(τ, .launch t)]) ++ b₁)) = .replied raw → P := by
    intro s s' P hP h
    split at h
    · rename_i hs
      exact hP hs h
    · exact absurd h hx
  have hheard : ∀ {s : Stage} {r : Reply}, s.heard r = .replied raw → s ≠ .replied raw →
      ∃ value, r = .ok value ∧ rawPolicy value = .ok raw := by
    intro s r h hne
    cases s with
    | locked =>
        cases r with
        | error m => cases h
        | ok value =>
            simp only [Stage.heard] at h
            split at h
            · rename_i raw' hraw
              obtain rfl := Stage.replied.inj h
              exact ⟨value, rfl, hraw⟩
            · cases h
    | _ => exact absurd h hne
  cases hstep with
  | launch hidle h => exact absurd hy (hif (fun hs => absurd hs hl))
  | finish hth => exact absurd hy (hif (fun hs => absurd hs hl))
  | cancel hth ho => exact absurd hy (hif (fun hs => absurd hs hl))
  | @act s o k y mem hth hact =>
      refine hif ?_ hy
      rintro rfl hnoted
      exfalso
      apply hx
      cases o with
      | snapshot =>
          obtain ⟨raw', hraw'⟩ : ∃ raw', stage s _ = .replied raw' := (load_obeys hfresh hu hth).1
          change stage s _ = _
          change Stage.noted (stage s _) _ _ = _ at hnoted
          rw [hraw'] at hnoted ⊢
          simp only [Stage.noted] at hnoted
          split at hnoted
          · cases hnoted
          · exact hnoted
      | lock =>
          rw [show Tale.told stageTale s _ = .waiting from (load_obeys hfresh hu hth).1] at hnoted
          cases hnoted
      | unlock =>
          change Stage.noted (stage s _) _ _ = _ at hnoted
          generalize stage s _ = st at hnoted
          cases st <;> cases hnoted
      | store snapshot =>
          obtain ⟨raw', policy, hraw', -⟩ := (load_obeys hfresh hu hth).1
          rw [show Tale.told stageTale s _ = .replied raw' from hraw'] at hnoted
          cases hnoted
  | @deliver s c k r r' hth hr =>
      refine hif ?_ hy
      rintro rfl h
      obtain ⟨value, rfl, hraw⟩ := hheard h hx
      refine ⟨σ, value, ?_, hraw⟩
      rw [show c = .get (PolicyStore.key keyPrefix) from (load_obeys hfresh hu hth).1.2]
      simp
  | @fail s c k wire r hth hwire hgarbled =>
      refine hif ?_ hy
      rintro rfl h
      obtain ⟨value, rfl, hraw⟩ := hheard h hx
      rw [show c = .get (PolicyStore.key keyPrefix) from (load_obeys hfresh hu hth).1.2] at hgarbled
      exact absurd hraw (rawPolicy_of_malformed (k := PolicyStore.key keyPrefix) hgarbled raw)
  | _ => exact absurd hy hx

/-- What a load has published is in the store, and is the compilation of the reply to its own
`GET`. -/
theorem published_own {a b d : LoadHistory Index T} {τ τ' : ℕ} (hfresh : Fresh w₀)
    (hrun : (loadNetwork lib keyPrefix lane).Run w₀
      (a ++ (τ, .launch t) :: (b ++ (τ', .finish t (.ok ())) :: d)) w)
    (hongoing : Ongoing t b) :
    ∃ b₁ x b₂ raw policy v, b = b₁ ++ x :: b₂ ∧ Publishes t (a ++ (τ, .launch t) :: b₁) x.2 ∧
      (∃ σ value, (σ, .deliver t (.get (PolicyStore.key keyPrefix)) (.ok value)) ∈ b₁ ∧
        rawPolicy value = .ok raw) ∧
      (loadNetwork lib keyPrefix lane).Run w₀ (a ++ (τ, .launch t) :: (b₁ ++ [x])) v ∧
      v.mem.snapshot = ⟨raw, some policy⟩ ∧ compileRaw lib raw = .ok policy := by
  have hfinish : stage t ((a ++ [(τ, .launch t)]) ++ b) = .ended true := by
    apply settled_of_finish hfresh
    simpa using hrun
  have hbefore : ¬ (stage t (a ++ [(τ, .launch t)])).settled = true := by
    rw [stage_of_launch]
    exact Bool.false_ne_true
  obtain ⟨b₁, ⟨σ, l⟩, b₂, rfl, hpublishes⟩ :=
    published_between hongoing hbefore (by rw [hfinish]; rfl)
  have hb₁ : Ongoing t b₁ := fun x hx => hongoing x (by simp [hx])
  rw [List.append_assoc, List.singleton_append] at hpublishes
  have hsplit : (loadNetwork lib keyPrefix lane).Run w₀
      ((a ++ (τ, .launch t) :: b₁) ++ (σ, l) :: (b₂ ++ (τ', .finish t (.ok ())) :: d)) w := by
    simpa using hrun
  obtain ⟨v, v', hv, rfl, hstep, -⟩ := hsplit.step_of_append
  have hv' := hv.snoc hstep
  have hown := (load_facts hfresh hv').own
  refine ⟨b₁, (v.now, l), b₂, ?_⟩
  cases hstep with
  | @act u o k y mem hth hact =>
      cases o with
      | snapshot =>
          obtain ⟨rfl, raw, hstage, hsame⟩ := hpublishes
          have hpublished : stage u ((a ++ (τ, .launch u) :: b₁) ++ [(v.now, .act u .snapshot y)]) =
              .published raw := by
            rw [stage, Tale.told_snoc, show Tale.told stageTale u _ = .replied raw from hstage]
            exact (if_pos rfl).trans (if_pos hsame)
          obtain ⟨policy, hsnapshot, hcompile⟩ := hown u raw hpublished
          exact ⟨raw, policy, _, rfl, ⟨rfl, raw, hstage, hsame⟩, replied_of_run hfresh hv hb₁ hstage,
            by simpa using hv', hsnapshot, hcompile⟩
      | store s =>
          obtain rfl : u = t := hpublishes
          obtain ⟨raw, policy, hstage, rfl, -⟩ := (load_obeys hfresh hv hth).1
          have hpublished : stage u ((a ++ (τ, .launch u) :: b₁) ++
              [(v.now, .act u (.store ⟨raw, some policy⟩) y)]) = .published raw := by
            rw [stage, Tale.told_snoc, show Tale.told stageTale u _ = .replied raw from hstage]
            exact if_pos rfl
          obtain ⟨policy', hsnapshot, hcompile⟩ := hown u raw hpublished
          exact ⟨raw, policy', _, rfl, rfl, replied_of_run hfresh hv hb₁ hstage, by simpa using hv',
            hsnapshot, hcompile⟩
      | _ => exact absurd hpublishes id
  | _ => exact absurd hpublishes id

/-- Snapshots are valid, change only by the publication of a load that succeeds, and are published
in the order in which the `GET`s took effect. -/
theorem policy_snapshots (hfresh : Fresh w₀) (hrun : (loadNetwork lib keyPrefix lane).Run w₀ ls w) :
    Valid lib keyPrefix ls w.mem.snapshot ∧
    (∀ l w', (loadNetwork lib keyPrefix lane).Step w l w' →
      w'.mem.snapshot = w.mem.snapshot ∨
        ∃ t s y, l = .act t (.store s) y ∧ w'.mem.snapshot = s) ∧
    (∀ a b d τ τ' t l, ls = a ++ (τ, .launch t) :: (b ++ (τ', l) :: d) → Ongoing t b →
      Fails t l → StoresNothing t b) ∧
    (∀ a b d τ τ' t, ls = a ++ (τ, .launch t) :: (b ++ (τ', .finish t (.ok ())) :: d) →
      Ongoing t b →
      ∃ b₁ x b₂ raw policy v, b = b₁ ++ x :: b₂ ∧ Publishes t (a ++ (τ, .launch t) :: b₁) x.2 ∧
        (∃ σ value, (σ, .deliver t (.get (PolicyStore.key keyPrefix)) (.ok value)) ∈ b₁ ∧
          rawPolicy value = .ok raw) ∧
        (loadNetwork lib keyPrefix lane).Run w₀ (a ++ (τ, .launch t) :: (b₁ ++ [x])) v ∧
        v.mem.snapshot = ⟨raw, some policy⟩ ∧ compileRaw lib raw = .ok policy) ∧
    (∀ a b d τ τ' t u c c' r r',
      ls = a ++ (τ, .exec t c r) :: (b ++ (τ', .exec u c' r') :: d) → (t = u → ¬ Ongoing t b) →
      ReturnsOk t (b ++ (τ', .exec u c' r') :: d) →
      ∃ b₁ x b₂, b = b₁ ++ x :: b₂ ∧ Publishes t (a ++ (τ, .exec t c r) :: b₁) x.2) := by
  refine ⟨(load_facts hfresh hrun).valid, fun _ _ => snapshot_of_step, ?_, ?_, ?_⟩
  · intro a b d τ τ' t l hls hongoing hfails
    subst hls
    exact stores_nothing hfresh hrun hongoing hfails
  · intro a b d τ τ' t hls hongoing
    subst hls
    exact published_own hfresh hrun hongoing
  · intro a b d τ τ' t u c c' r r' hls hdistinct hok
    subst hls
    exact published_before hfresh hrun hdistinct hok

end

end

def emptyStore : LoadWorld Unit Unit Unit where
  now := 0
  db := ⟨fun _ => none, fun _ _ => none⟩
  mem := ⟨initial, none⟩
  threads _ := none
  strays _ := []

/-- One load of a missing policy publishes the compilation of the default configuration. -/
theorem policy_snapshots_solo :
    ∃ ls w, (loadNetwork soloLibraries "p" (id : Unit → Unit)).Run emptyStore ls w ∧
      w.mem.snapshot = ⟨none, some ⟨none, true, (), [], (), ()⟩⟩ ∧
      Valid soloLibraries "p" ls w.mem.snapshot := by
  have hfresh : Fresh emptyStore := ⟨fun _ => rfl, rfl, rfl⟩
  have h₀ : (loadNetwork soloLibraries "p" (id : Unit → Unit)).Run emptyStore [] _ := .refl
  have h₁ := h₀.snoc (.launch (t := ()) rfl ⟨rfl, rfl⟩)
  have h₂ := h₁.snoc (.act (t := ()) (x := ()) rfl ⟨rfl, rfl⟩)
  have h₃ := (h₂.snoc (.send (t := ()) rfl)).snoc (.exec (t := ()) rfl rfl)
  have h₄ : (loadNetwork soloLibraries "p" (id : Unit → Unit)).Run emptyStore
      (_ ++ [(0, .deliver () (.get (PolicyStore.key "p")) (.ok .nil))]) _ :=
    h₃.snoc (.deliver (t := ()) rfl (show True from trivial))
  have h₅ := h₄.snoc (.act (t := ()) (x := initial) rfl ⟨rfl, rfl⟩)
  have h₆ := h₅.snoc (.act (t := ()) (x := ()) rfl rfl)
  have h₇ := (h₆.snoc (.act (t := ()) (x := ()) rfl rfl)).snoc (.finish (t := ()) rfl)
  exact ⟨_, _, h₇, rfl, (policy_snapshots hfresh h₇).1⟩

end BreezeGateway
