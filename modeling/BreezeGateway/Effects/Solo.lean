import BreezeGateway.Effects.Network

/-!
# Threads that nobody disturbs

Between the launch of a thread and its return nobody else takes a step, no reply is lost and the
thread is not cancelled; time may pass.  Then the thread runs a sequential program on the server's
state and the memory, and `solo` is the contract of that program.  Local operations are answered
as `Good` says.
-/

namespace Effects.Network

structure Moment (Db Mem : Type) where
  now : ℕ
  db : Db
  mem : Mem

section

variable {Cmd Rep : Type} {L : Sig} {Db Mem T Lane Kind α : Type}

def solo (N : Network Cmd Rep L Db Mem T Lane Kind α) (t : T) (Good : (o : L.Op) → L.Ans o → Prop) :
    Contract (clientSig Cmd Rep L) (Moment Db Mem) where
  pre _ _ := True
  post m o x m' :=
    match o, x with
    | .inl c, r => ∃ now, m.now ≤ now ∧ now ≤ m'.now ∧ m'.db = (N.exec now m.db c).1 ∧
        N.conveys c (N.exec now m.db c).2 r ∧ m'.mem = m.mem
    | .inr o, x => ∃ now, m.now ≤ now ∧ now ≤ m'.now ∧ Good o x ∧ N.act now t m.mem o x m'.mem ∧
        m'.db = m.db

/-- Steps of a thread that nobody disturbs. -/
def Calm (t : T) (Good : (o : L.Op) → L.Ans o → Prop) : Label Cmd Rep L T Kind α → Prop
  | .tick _ => True
  | .act u o x => u = t ∧ Good o x
  | .send u _ => u = t
  | .exec u _ _ => u = t
  | .deliver u _ _ => u = t
  | _ => False

variable {N : Network Cmd Rep L Db Mem T Lane Kind α} {t : T} {Good : (o : L.Op) → L.Ans o → Prop}
  {Q : Moment Db Mem → α → Prop}

section

variable [DecidableEq T] [DecidableEq Lane] {w w' : World Cmd Rep L Db Mem T Lane α}
  {l : Label Cmd Rep L T Kind α} {ls : History Cmd Rep L T Kind α}

/-- What is left of the program meets the sequential contract, from now on. -/
inductive Keeping (N : Network Cmd Rep L Db Mem T Lane Kind α) (t : T)
    (Good : (o : L.Op) → L.Ans o → Prop) (Q : Moment Db Mem → α → Prop)
    (w : World Cmd Rep L Db Mem T Lane α) : Prop where
  | running {p : Prog (clientSig Cmd Rep L) α} {wire : Wire Rep}
      (hth : w.threads t = some ⟨p, wire⟩) (hwire : ∀ r, wire ≠ .answered r)
      (h : ∀ now, w.now ≤ now → p.Meets (solo N t Good) ⟨now, w.db, w.mem⟩ Q) : Keeping N t Good Q w
  | answered {c : Cmd} {k : Rep → Prog (clientSig Cmd Rep L) α} {r : Rep}
      (hth : w.threads t = some ⟨.op (.inl c) k, .answered r⟩)
      (h : ∀ r', N.conveys c r r' → ∀ now, w.now ≤ now →
        (k r').Meets (solo N t Good) ⟨now, w.db, w.mem⟩ Q) : Keeping N t Good Q w

theorem Keeping.step (h : Keeping N t Good Q w) (hstep : N.Step w l w') (hl : Calm t Good l) :
    Keeping N t Good Q w' := by
  cases hstep with
  | tick d =>
      cases h with
      | running hth hwire h =>
          exact .running hth hwire fun now hnow => h now ((Nat.le_add_right _ _).trans hnow)
      | answered hth h =>
          exact .answered hth fun r hr now hnow => h r hr now ((Nat.le_add_right _ _).trans hnow)
  | @act u o k x mem hth hact =>
      obtain ⟨rfl, hgood⟩ := hl
      cases h with
      | running hth' hwire h =>
          rw [hth] at hth'
          cases hth'
          refine .running (Function.update_self ..) (by simp) ?_
          intro now hnow
          exact (h w.now le_rfl).2 x ⟨now, w.db, mem⟩ ⟨w.now, le_rfl, hnow, hgood, hact, rfl⟩
      | answered hth' h =>
          rw [hth] at hth'
          cases hth'
  | @send u c k hth =>
      obtain rfl : u = t := hl
      cases h with
      | running hth' hwire h =>
          rw [hth] at hth'
          cases hth'
          exact .running (Function.update_self ..) (by simp) h
      | answered hth' h =>
          rw [hth] at hth'
          cases hth'
  | @exec u c k hth hlane =>
      obtain rfl : u = t := hl
      cases h with
      | running hth' hwire h =>
          rw [hth] at hth'
          cases hth'
          refine .answered (Function.update_self ..) ?_
          intro r hr now hnow
          exact (h w.now le_rfl).2 r ⟨now, _, w.mem⟩ ⟨w.now, le_rfl, hnow, rfl, hr, rfl⟩
      | answered hth' h =>
          rw [hth] at hth'
          cases hth'
  | @deliver u c k r r' hth hconveys =>
      obtain rfl : u = t := hl
      cases h with
      | running hth' hwire h =>
          rw [hth] at hth'
          cases hth'
          exact absurd rfl (hwire r)
      | answered hth' h =>
          rw [hth] at hth'
          cases hth'
          exact .running (Function.update_self ..) (by simp) (h r' hconveys)
  | _ => exact hl.elim

theorem Keeping.run (h : Keeping N t Good Q w) (hrun : N.Run w ls w')
    (hcalm : ∀ x ∈ ls, Calm t Good x.2) : Keeping N t Good Q w' := by
  induction hrun with
  | refl => exact h
  | snoc hrun hstep ih =>
      exact (ih fun x hx => hcalm x (List.mem_append_left _ hx)).step hstep
        (hcalm _ (List.mem_append_right _ (List.mem_singleton.mpr rfl)))

/-- A program that meets the sequential contract and is not disturbed returns what the contract
says. -/
theorem Run.solo {p : Prog (clientSig Cmd Rep L) α} {y : α} (hrun : N.Run w ls w')
    (hcalm : ∀ x ∈ ls, Calm t Good x.2) (hth : w.threads t = some ⟨p, .idle⟩)
    (hp : ∀ now, w.now ≤ now → p.Meets (Network.solo N t Good) ⟨now, w.db, w.mem⟩ Q)
    (hth' : w'.threads t = some ⟨.ret y, .idle⟩) : Q ⟨w'.now, w'.db, w'.mem⟩ y := by
  have hkeeping := (Keeping.running hth (by simp) hp).run hrun hcalm
  cases hkeeping with
  | running hth'' hwire h =>
      rw [hth'] at hth''
      cases hth''
      exact h w'.now le_rfl
  | answered hth'' h =>
      rw [hth'] at hth''
      cases hth''

/-- The server and the memory can give these answers one after the other, without time passing. -/
inductive Plays (N : Network Cmd Rep L Db Mem T Lane Kind α) (t : T) (now : ℕ) :
    List (Event (clientSig Cmd Rep L)) → Db → Mem → Db → Mem → Prop where
  | nil {db : Db} {mem : Mem} : Plays N t now [] db mem db mem
  | command {c : Cmd} {r : Rep} {tr : List (Event (clientSig Cmd Rep L))} {db db' : Db}
      {mem mem' : Mem} (h : N.conveys c (N.exec now db c).2 r)
      (hrest : Plays N t now tr (N.exec now db c).1 mem db' mem') :
      Plays N t now (⟨.inl c, r⟩ :: tr) db mem db' mem'
  | act {o : L.Op} {x : L.Ans o} {tr : List (Event (clientSig Cmd Rep L))} {db db' : Db}
      {mem mem₁ mem' : Mem} (h : N.act now t mem o x mem₁) (hrest : Plays N t now tr db mem₁ db' mem') :
      Plays N t now (⟨.inr o, x⟩ :: tr) db mem db' mem'

/-- No time passes. -/
def Quick (ls : History Cmd Rep L T Kind α) : Prop := ∀ x ∈ ls, ∀ d, x.2 ≠ .tick d

/-- The answer of a local operation is one of these events. -/
abbrev Among (tr : List (Event (clientSig Cmd Rep L))) (o : L.Op) (x : L.Ans o) : Prop :=
  (⟨.inr o, x⟩ : Event (clientSig Cmd Rep L)) ∈ tr

omit [DecidableEq T] [DecidableEq Lane] in
theorem Calm.mono {Good' : (o : L.Op) → L.Ans o → Prop} (h : ∀ o x, Good o x → Good' o x)
    (hl : Calm t Good l) : Calm t Good' l := by
  cases l with
  | act u o x => exact hl.imp_right (h o x)
  | _ => exact hl

omit [DecidableEq T] [DecidableEq Lane] in
theorem calm_append {ls ls' : History Cmd Rep L T Kind α}
    (h : (∀ x ∈ ls, Calm t Good x.2) ∧ Quick ls) (h' : (∀ x ∈ ls', Calm t Good x.2) ∧ Quick ls') :
    (∀ x ∈ ls ++ ls', Calm t Good x.2) ∧ Quick (ls ++ ls') := by
  constructor
  · intro x hx
    rcases List.mem_append.mp hx with hx | hx
    · exact h.1 x hx
    · exact h'.1 x hx
  · intro x hx
    rcases List.mem_append.mp hx with hx | hx
    · exact h.2 x hx
    · exact h'.2 x hx

/-- A command that is answered at once. -/
theorem exists_command_run {c : Cmd} {k : Rep → Prog (clientSig Cmd Rep L) α} {r : Rep}
    (hth : w.threads t = some ⟨.op (.inl c) k, .idle⟩) (hlane : w.strays (N.lane t) = [])
    (h : N.conveys c (N.exec w.now w.db c).2 r) :
    ∃ ls, N.Run w ls { w.setThread t (some ⟨k r, .idle⟩) with db := (N.exec w.now w.db c).1 } ∧
      (∀ x ∈ ls, Calm t Good x.2) ∧ Quick ls := by
  have h₁ := (Run.refl (N := N)).snoc (.send hth)
  have h₂ := h₁.snoc (.exec (Function.update_self ..) hlane)
  have h₃ := h₂.snoc (.deliver (Function.update_self ..) h)
  exact ⟨_, by simpa [World.setThread] using h₃, by simp [Calm], by simp [Quick]⟩

/-- Answers that can be given take a thread along its program. -/
theorem exists_run_of_plays {tr : List (Event (clientSig Cmd Rep L))} {db db' : Db} {mem mem' : Mem}
    {p q : Prog (clientSig Cmd Rep L) α} (hplays : Plays N t w.now tr db mem db' mem')
    (hsteps : p.Steps tr q) (hdb : w.db = db) (hmem : w.mem = mem)
    (hth : w.threads t = some ⟨p, .idle⟩) (hlane : w.strays (N.lane t) = []) :
    ∃ ls, N.Run w ls { w.setThread t (some ⟨q, .idle⟩) with db := db', mem := mem' } ∧
      (∀ x ∈ ls, Calm t (Among tr) x.2) ∧ Quick ls := by
  generalize hnow : w.now = now at hplays
  induction hplays generalizing w p with
  | nil =>
      subst hdb hmem
      cases hsteps
      refine ⟨[], ?_, by simp, by simp [Quick]⟩
      have hthreads : Function.update w.threads t (some ⟨q, .idle⟩) = w.threads := by
        rw [← hth, Function.update_eq_self]
      simp only [World.setThread, hthreads]
      exact .refl
  | @command c r tr db db' mem mem' h hrest ih =>
      subst hdb hmem hnow
      cases hsteps with
      | op hsteps =>
          obtain ⟨ls₁, hrun₁, hcalm₁⟩ := exists_command_run hth hlane h
          obtain ⟨ls₂, hrun₂, hcalm₂, hquick₂⟩ :=
            ih (w := { w.setThread t (some ⟨_, .idle⟩) with db := (N.exec w.now w.db c).1 }) hsteps rfl
              rfl (Function.update_self ..) hlane rfl
          refine ⟨ls₁ ++ ls₂, ?_, calm_append hcalm₁ ⟨fun x hx => (hcalm₂ x hx).mono ?_, hquick₂⟩⟩
          · simpa [World.setThread] using hrun₁.trans hrun₂
          · exact fun o x hx => List.mem_cons_of_mem _ hx
  | @act o x tr db db' mem mem₁ mem' h hrest ih =>
      subst hdb hmem hnow
      cases hsteps with
      | op hsteps =>
          have hrun₁ := (Run.refl (N := N)).snoc (.act hth h)
          obtain ⟨ls₂, hrun₂, hcalm₂, hquick₂⟩ :=
            ih (w := { w.setThread t (some ⟨_, .idle⟩) with mem := mem₁ }) hsteps rfl rfl
              (Function.update_self ..) hlane rfl
          refine ⟨[(w.now, .act t o x)] ++ ls₂, by simpa [World.setThread] using hrun₁.trans hrun₂, ?_⟩
          refine calm_append ?_ ⟨fun x hx => (hcalm₂ x hx).mono ?_, hquick₂⟩
          · simp [Calm, Quick]
          · exact fun o x hx => List.mem_cons_of_mem _ hx

omit [DecidableEq T] [DecidableEq Lane] in
/-- Where every operation has an answer, a program can be played to its end. -/
theorem exists_plays {now : ℕ} (hact : ∀ now mem o, ∃ x mem', Good o x ∧ N.act now t mem o x mem')
    (hconveys : ∀ c r, ∃ r', N.conveys c r r') (p : Prog (clientSig Cmd Rep L) α) (db : Db)
    (mem : Mem) :
    ∃ tr y db' mem', p.Runs tr y ∧ Plays N t now tr db mem db' mem' ∧ ∀ o x, Among tr o x → Good o x := by
  induction p generalizing db mem with
  | ret y => exact ⟨[], y, db, mem, .refl _, .nil, by simp⟩
  | op o k ih =>
      cases o with
      | inl c =>
          obtain ⟨r, hr⟩ := hconveys c (N.exec now db c).2
          obtain ⟨tr, y, db', mem', hruns, hplays, hgood⟩ := ih r (N.exec now db c).1 mem
          refine ⟨_, y, db', mem', .op hruns, .command hr hplays, ?_⟩
          intro o x hmem
          rcases List.mem_cons.mp hmem with heq | hmem
          · cases heq
          · exact hgood o x hmem
      | inr o =>
          obtain ⟨x, mem₁, hx, hact⟩ := hact now mem o
          obtain ⟨tr, y, db', mem', hruns, hplays, hgood⟩ := ih x db mem₁
          refine ⟨_, y, db', mem', .op hruns, .act hact hplays, ?_⟩
          intro o' x' hmem
          rcases List.mem_cons.mp hmem with heq | hmem
          · cases heq
            exact hx
          · exact hgood o' x' hmem

/-- From its launch to its return nobody disturbs `t`. -/
def Turn (t : T) (Good : (o : L.Op) → L.Ans o → Prop) (y : α) (ls : History Cmd Rep L T Kind α) :
    Prop :=
  ∃ σ τ b, ls = (σ, .launch t) :: (b ++ [(τ, .finish t y)]) ∧ ∀ x ∈ b, Calm t Good x.2

omit [DecidableEq T] [DecidableEq Lane] in
theorem Turn.good {y : α} (h : Turn t Good y ls) {σ : ℕ} {u : T} {o : L.Op} {x : L.Ans o}
    (hx : (σ, .act u o x) ∈ ls) : Good o x := by
  obtain ⟨τ, τ', b, rfl, hcalm⟩ := h
  simp only [List.mem_cons, List.mem_append, List.not_mem_nil, or_false] at hx
  rcases hx with hx | hx | hx
  · cases hx
  · exact (hcalm _ hx).2
  · cases hx

theorem Step.calm (hstep : N.Step w l w') (hl : Calm t Good l) :
    w'.strays = w.strays ∧ ∀ u, u ≠ t → w'.threads u = w.threads u := by
  cases hstep with
  | tick d => exact ⟨rfl, fun _ _ => rfl⟩
  | act hth hact =>
      obtain ⟨rfl, -⟩ := hl
      exact ⟨rfl, fun u hu => Function.update_of_ne hu ..⟩
  | send hth =>
      obtain rfl := hl
      exact ⟨rfl, fun u hu => Function.update_of_ne hu ..⟩
  | exec hth hlane =>
      obtain rfl := hl
      exact ⟨rfl, fun u hu => Function.update_of_ne hu ..⟩
  | deliver hth hconveys =>
      obtain rfl := hl
      exact ⟨rfl, fun u hu => Function.update_of_ne hu ..⟩
  | _ => exact hl.elim

/-- A calm run of `t` changes no lane and no other thread. -/
theorem Run.calm (hrun : N.Run w ls w') (hcalm : ∀ x ∈ ls, Calm t Good x.2) :
    w'.strays = w.strays ∧ ∀ u, u ≠ t → w'.threads u = w.threads u := by
  induction hrun with
  | refl => exact ⟨rfl, fun _ _ => rfl⟩
  | snoc hrun hstep ih =>
      obtain ⟨hstrays, hthreads⟩ := ih fun x hx => hcalm x (List.mem_append_left _ hx)
      obtain ⟨hstrays', hthreads'⟩ :=
        hstep.calm (hcalm _ (List.mem_append_right _ (List.mem_singleton.mpr rfl)))
      exact ⟨hstrays'.trans hstrays, fun u hu => (hthreads' u hu).trans (hthreads u hu)⟩

theorem Run.eq_of_nil (h : N.Run w [] w') : w' = w := by
  generalize hnil : ([] : History Cmd Rep L T Kind α) = ls at h
  cases h with
  | refl => rfl
  | snoc => simp at hnil

/-- After its turn the memory is what the sequential contract of the program says. -/
theorem Run.turn {y : α} (hrun : N.Run w ls w') (hturn : Turn t Good y ls) :
    ∃ p mem, w.threads t = none ∧ N.launch w.now w.mem t p mem ∧ w.now ≤ w'.now ∧
      w'.threads = w.threads ∧ w'.strays = w.strays ∧
      ∀ Q : Moment Db Mem → α → Prop,
        (∀ now, w.now ≤ now → p.Meets (Network.solo N t Good) ⟨now, w.db, mem⟩ Q) →
          ∃ mem', Q ⟨w'.now, w'.db, mem'⟩ y ∧ w'.mem = N.finish w'.now t y mem' := by
  obtain ⟨σ, τ, b, rfl, hcalm⟩ := hturn
  obtain ⟨v, v₁, hv, rfl, hlaunch, hrest⟩ := (show N.Run w ([] ++ _) w' from hrun).step_of_append
  obtain ⟨v₂, v₃, hbody, rfl, hfinish, hdone⟩ := hrest.step_of_append
  obtain rfl := hv.eq_of_nil
  obtain rfl := hdone.eq_of_nil
  obtain ⟨hstrays, hthreads⟩ := hbody.calm hcalm
  cases hlaunch with
  | @launch _ p mem hidle h =>
      cases hfinish with
      | finish hth =>
          refine ⟨p, mem, hidle, h, hbody.now_le, ?_, hstrays, ?_⟩
          · funext u
            by_cases hu : u = t
            · subst hu
              exact (Function.update_self ..).trans hidle.symm
            · refine (Function.update_of_ne hu ..).trans ((hthreads u hu).trans ?_)
              exact Function.update_of_ne hu ..
          · intro Q hp
            exact ⟨v₂.mem, hbody.solo hcalm (Function.update_self ..) hp hth, rfl⟩

/-- A turn in which a thread is given these answers. -/
theorem exists_turn_of_plays {tr : List (Event (clientSig Cmd Rep L))} {db : Db} {mem mem' : Mem}
    {p : Prog (clientSig Cmd Rep L) α} {y : α} (hidle : w.threads t = none)
    (hlane : w.strays (N.lane t) = []) (hlaunch : N.launch w.now w.mem t p mem) (hruns : p.Runs tr y)
    (hplays : Plays N t w.now tr w.db mem db mem') :
    ∃ ls, N.Run w ls { w with db := db, mem := N.finish w.now t y mem' } ∧ Turn t (Among tr) y ls ∧
      Quick ls := by
  have h₁ := (Run.refl (N := N)).snoc (.launch hidle hlaunch)
  obtain ⟨b, hbody, hcalm, hquick⟩ :=
    exists_run_of_plays (w := { w.setThread t (some ⟨p, .idle⟩) with mem := mem }) hplays hruns rfl rfl
      (Function.update_self ..) hlane
  have h₂ := (h₁.trans hbody).snoc (.finish (t := t) (a := y) (Function.update_self ..))
  refine ⟨_, ?_, ⟨w.now, w.now, b, rfl, hcalm⟩, ?_⟩
  · have hthreads : Function.update w.threads t none = w.threads := by
      rw [← hidle, Function.update_eq_self]
    simpa [World.setThread, hthreads] using h₂
  · intro x hx d hd
    simp only [List.mem_cons, List.mem_append, List.not_mem_nil, or_false] at hx
    rcases hx with rfl | hx | rfl
    · cases hd
    · exact hquick x hx d hd
    · cases hd

/-- A thread that can be launched and whose lane is empty can take its turn. -/
theorem exists_turn (hact : ∀ now mem o, ∃ x mem', Good o x ∧ N.act now t mem o x mem')
    (hconveys : ∀ c r, ∃ r', N.conveys c r r') {p : Prog (clientSig Cmd Rep L) α} {mem : Mem}
    (hidle : w.threads t = none) (hlane : w.strays (N.lane t) = [])
    (hlaunch : N.launch w.now w.mem t p mem) :
    ∃ ls w' y, N.Run w ls w' ∧ Turn t Good y ls ∧ Quick ls ∧ w'.now = w.now := by
  obtain ⟨tr, y, db, mem', hruns, hplays, hgood⟩ := exists_plays hact hconveys p w.db mem
  obtain ⟨ls, hrun, ⟨σ, τ, b, hls, hcalm⟩, hquick⟩ :=
    exists_turn_of_plays hidle hlane hlaunch hruns hplays
  exact ⟨ls, _, y, hrun, ⟨σ, τ, b, hls, fun x hx => (hcalm x hx).mono hgood⟩, hquick, rfl⟩

/-- The threads of a list take their turns one after the other; time may pass between. -/
inductive Turns (Good : (o : L.Op) → L.Ans o → Prop) (y : α) :
    List T → History Cmd Rep L T Kind α → Prop where
  | nil : Turns Good y [] []
  | wait {ts : List T} {ls : History Cmd Rep L T Kind α} {σ d : ℕ} (h : Turns Good y ts ls) :
      Turns Good y ts (ls ++ [(σ, .tick d)])
  | turn {ts : List T} {t : T} {ls ls' : History Cmd Rep L T Kind α} (h : Turns Good y ts ls)
      (hturn : Turn t Good y ls') : Turns Good y (ts ++ [t]) (ls ++ ls')

end

end

end Effects.Network
