import BreezeGateway.Effects.Program

/-!
# Clients of an atomic server

Threads run programs whose operations are commands to one server and local operations on
memory they share.  The server executes a command atomically and at most once.  A command
whose thread stopped waiting for it (a lost or unreadable reply, a cancellation) stays behind
as a stray of its lane: it may still be executed, or never, but not after a later command of
that lane.  Time passes, threads interleave and the environment writes in any order.
-/

namespace Effects

/-- Commands, all answered by a reply, beside the local operations of `L`. -/
abbrev clientSig (Cmd Rep : Type) (L : Sig) : Sig where
  Op := Cmd ⊕ L.Op
  Ans := Sum.elim (fun _ => Rep) L.Ans

/-- How far the command a thread waits for has come. -/
inductive Wire (Rep : Type) where
  | idle
  | sent
  | answered (r : Rep)

structure Thread (Cmd Rep : Type) (L : Sig) (α : Type) where
  prog : Prog (clientSig Cmd Rep L) α
  wire : Wire Rep

/-- What a thread is doing as seen from outside its program. -/
inductive Phase (Cmd Rep : Type) where
  | absent
  | running
  | sent (c : Cmd)
  | answered (c : Cmd) (r : Rep)

def Phase.of {Cmd Rep : Type} {L : Sig} {α : Type} : Option (Thread Cmd Rep L α) → Phase Cmd Rep
  | none => .absent
  | some ⟨.op (.inl c) _, .sent⟩ => .sent c
  | some ⟨.op (.inl c) _, .answered r⟩ => .answered c r
  | some _ => .running

def Phase.command {Cmd Rep : Type} : Phase Cmd Rep → Option Cmd
  | .sent c => some c
  | .answered c _ => some c
  | _ => none

section

variable {Cmd Rep : Type} {L : Sig} {α : Type}

@[simp] theorem Phase.of_none : Phase.of (none : Option (Thread Cmd Rep L α)) = .absent := rfl

@[simp] theorem Phase.of_idle (p : Prog (clientSig Cmd Rep L) α) :
    Phase.of (some ⟨p, .idle⟩) = .running := by
  cases p with
  | ret a => rfl
  | op o k => cases o <;> rfl

@[simp] theorem Phase.of_sent (c : Cmd)
    (k : (clientSig Cmd Rep L).Ans (.inl c) → Prog (clientSig Cmd Rep L) α) :
    Phase.of (some ⟨.op (.inl c) k, .sent⟩) = .sent c := rfl

@[simp] theorem Phase.of_answered (c : Cmd) (r : Rep)
    (k : (clientSig Cmd Rep L).Ans (.inl c) → Prog (clientSig Cmd Rep L) α) :
    Phase.of (some ⟨.op (.inl c) k, .answered r⟩) = .answered c r := rfl

end

structure World (Cmd Rep : Type) (L : Sig) (Db Mem T Lane α : Type) where
  now : ℕ
  db : Db
  mem : Mem
  threads : T → Option (Thread Cmd Rep L α)
  strays : Lane → List (T × Cmd)

inductive Label (Cmd Rep : Type) (L : Sig) (T Kind α : Type) where
  | tick (d : ℕ)
  | environment
  | launch (t : T)
  | act (t : T) (l : L.Op) (x : L.Ans l)
  | send (t : T) (c : Cmd)
  | exec (t : T) (c : Cmd) (r : Rep)
  | deliver (t : T) (c : Cmd) (r : Rep)
  | fail (t : T) (c : Cmd) (r : Rep)
  | stray (t : T) (c : Cmd) (r : Rep)
  | lose (t : T) (c : Cmd)
  | finish (t : T) (a : α)
  | cancel (t : T) (kind : Kind)

/-- The labels of a run, each with the time of its step. -/
abbrev History (Cmd Rep : Type) (L : Sig) (T Kind α : Type) :=
  List (ℕ × Label Cmd Rep L T Kind α)

/-- The server, the local operations and the life of a thread. -/
structure Network (Cmd Rep : Type) (L : Sig) (Db Mem T Lane Kind α : Type) where
  /-- The effect and the reply of a command executed at a given time. -/
  exec : ℕ → Db → Cmd → Db × Rep
  /-- `conveys c r r'`: the client may see `r'` for the reply `r`. -/
  conveys : Cmd → Rep → Rep → Prop
  /-- Replies that say nothing about whether the command was executed. -/
  garbled : Cmd → Rep → Prop
  lane : T → Lane
  /-- Writes by everybody else. -/
  environment : ℕ → Db → Db → Prop
  launch : ℕ → Mem → T → Prog (clientSig Cmd Rep L) α → Mem → Prop
  act : ℕ → T → Mem → (l : L.Op) → L.Ans l → Mem → Prop
  /-- Local operations at which a thread can be cancelled, as it can at every command. -/
  suspends : L.Op → Prop
  finish : ℕ → T → α → Mem → Mem
  cancel : Kind → ℕ → T → Mem → Mem

section

variable {Cmd Rep : Type} {L : Sig} {Db Mem T Lane Kind α : Type}

namespace World

section

variable [DecidableEq T]

def setThread (w : World Cmd Rep L Db Mem T Lane α) (t : T) (th : Option (Thread Cmd Rep L α)) :
    World Cmd Rep L Db Mem T Lane α :=
  { w with threads := Function.update w.threads t th }

variable (w : World Cmd Rep L Db Mem T Lane α) (t : T) (th : Option (Thread Cmd Rep L α))

@[simp] theorem setThread_now : (w.setThread t th).now = w.now := rfl

@[simp] theorem setThread_db : (w.setThread t th).db = w.db := rfl

@[simp] theorem setThread_mem : (w.setThread t th).mem = w.mem := rfl

@[simp] theorem setThread_strays : (w.setThread t th).strays = w.strays := rfl

@[simp] theorem setThread_threads :
    (w.setThread t th).threads = Function.update w.threads t th := rfl

end

section

variable [DecidableEq Lane]

/-- Give up waiting for `c`: an unexecuted command becomes a stray. -/
def abandon (w : World Cmd Rep L Db Mem T Lane α) (lane : Lane) (t : T) (c : Cmd) :
    Wire Rep → World Cmd Rep L Db Mem T Lane α
  | .sent => { w with strays := Function.update w.strays lane (w.strays lane ++ [(t, c)]) }
  | _ => w

/-- Give up at whatever operation the thread is suspended in. -/
def abandonOp (w : World Cmd Rep L Db Mem T Lane α) (lane : Lane) (t : T) (wire : Wire Rep) :
    Cmd ⊕ L.Op → World Cmd Rep L Db Mem T Lane α
  | .inl c => w.abandon lane t c wire
  | .inr _ => w

variable (w : World Cmd Rep L Db Mem T Lane α) (lane : Lane) (t : T) (c : Cmd) (wire : Wire Rep)

@[simp] theorem abandon_now : (w.abandon lane t c wire).now = w.now := by
  cases wire <;> rfl

@[simp] theorem abandon_db : (w.abandon lane t c wire).db = w.db := by
  cases wire <;> rfl

@[simp] theorem abandon_mem : (w.abandon lane t c wire).mem = w.mem := by
  cases wire <;> rfl

@[simp] theorem abandon_threads : (w.abandon lane t c wire).threads = w.threads := by
  cases wire <;> rfl

theorem abandon_strays_ne {other : Lane} (h : other ≠ lane) :
    (w.abandon lane t c wire).strays other = w.strays other := by
  cases wire <;> simp [abandon, h]

theorem mem_abandon {w : World Cmd Rep L Db Mem T Lane α} {lane other : Lane} {t : T} {c : Cmd}
    {wire : Wire Rep} {x : T × Cmd} (h : x ∈ (w.abandon lane t c wire).strays other) :
    x ∈ w.strays other ∨ other = lane ∧ x = (t, c) ∧ wire = .sent := by
  by_cases hl : other = lane
  · subst hl
    cases wire with
    | sent =>
        simp only [abandon, Function.update_self, List.mem_append, List.mem_singleton] at h
        rcases h with h | h
        · exact Or.inl h
        · exact Or.inr ⟨rfl, h, rfl⟩
    | _ => exact Or.inl h
  · rw [abandon_strays_ne _ _ _ _ _ hl] at h
    exact Or.inl h

theorem mem_of_tail {w : World Cmd Rep L Db Mem T Lane α} {lane other : Lane} {x y : T × Cmd}
    {cs : List (T × Cmd)} (hlane : w.strays lane = y :: cs)
    (h : x ∈ Function.update w.strays lane cs other) : x ∈ w.strays other := by
  by_cases hl : other = lane
  · subst hl
    rw [Function.update_self] at h
    rw [hlane]
    exact List.mem_cons_of_mem _ h
  · rwa [Function.update_of_ne hl] at h

@[simp] theorem abandon_sent_strays :
    (w.abandon lane t c .sent).strays =
      Function.update w.strays lane (w.strays lane ++ [(t, c)]) := rfl

@[simp] theorem abandon_idle : w.abandon lane t c .idle = w := rfl

@[simp] theorem abandon_answered (r : Rep) : w.abandon lane t c (.answered r) = w := rfl

@[simp] theorem abandonOp_inl : w.abandonOp lane t wire (.inl c) = w.abandon lane t c wire := rfl

@[simp] theorem abandonOp_inr (l : L.Op) : w.abandonOp lane t wire (.inr l) = w := rfl

theorem abandonOp_threads (o : Cmd ⊕ L.Op) : (w.abandonOp lane t wire o).threads = w.threads := by
  cases o with
  | inl c => exact abandon_threads w lane t c wire
  | inr l => rfl

theorem abandonOp_db (o : Cmd ⊕ L.Op) : (w.abandonOp lane t wire o).db = w.db := by
  cases o with
  | inl c => exact abandon_db w lane t c wire
  | inr l => rfl

/-! ## Counting strays -/

section

variable (p : Cmd → Bool)

omit [DecidableEq Lane] in
def strayCount (w : World Cmd Rep L Db Mem T Lane α) (lane : Lane) : ℕ :=
  (w.strays lane).countP fun x => p x.2

variable {p} {w w' : World Cmd Rep L Db Mem T Lane α} {lane other : Lane} {t : T} {c : Cmd}
  {cs : List (T × Cmd)} {wire : Wire Rep}

omit [DecidableEq Lane] in
theorem strayCount_congr (h : w'.strays = w.strays) :
    w'.strayCount p lane = w.strayCount p lane := by
  unfold strayCount
  rw [h]

theorem strayCount_abandon_ne (hl : other ≠ lane) :
    (w.abandon lane t c wire).strayCount p other = w.strayCount p other := by
  unfold strayCount
  rw [abandon_strays_ne _ _ _ _ _ hl]

theorem strayCount_abandon (hc : p c = false) :
    (w.abandon lane t c wire).strayCount p other = w.strayCount p other := by
  by_cases hl : other = lane
  · subst hl
    cases wire with
    | sent => simp [strayCount, hc]
    | _ => rfl
  · exact strayCount_abandon_ne hl

theorem strayCount_abandon_sent (hc : p c = true) :
    (w.abandon lane t c .sent).strayCount p lane = w.strayCount p lane + 1 := by
  simp [strayCount, hc]

theorem strayCount_tail (h : w.strays lane = (t, c) :: cs)
    (hstrays : w'.strays = Function.update w.strays lane cs) :
    w.strayCount p other = w'.strayCount p other +
      if other = lane ∧ p c = true then 1 else 0 := by
  unfold strayCount
  rw [hstrays]
  by_cases hl : other = lane
  · subst hl
    rw [Function.update_self, h, List.countP_cons]
    simp
  · rw [Function.update_of_ne hl]
    simp [hl]

theorem strayCount_tail_le (h : w.strays lane = (t, c) :: cs)
    (hstrays : w'.strays = Function.update w.strays lane cs) :
    w'.strayCount p other ≤ w.strayCount p other := by
  rw [strayCount_tail h hstrays]
  exact Nat.le_add_right _ _

theorem strayCount_tail_lt (h : w.strays lane = (t, c) :: cs)
    (hstrays : w'.strays = Function.update w.strays lane cs) (hc : p c = true) :
    w'.strayCount p lane + 1 ≤ w.strayCount p lane := by
  rw [strayCount_tail h hstrays, if_pos ⟨rfl, hc⟩]

end

end

end World

namespace Network

variable [DecidableEq T] [DecidableEq Lane] (N : Network Cmd Rep L Db Mem T Lane Kind α)

def Suspended : Cmd ⊕ L.Op → Prop
  | .inl _ => True
  | .inr l => N.suspends l

inductive Step (w : World Cmd Rep L Db Mem T Lane α) :
    Label Cmd Rep L T Kind α → World Cmd Rep L Db Mem T Lane α → Prop where
  | tick (d : ℕ) : Step w (.tick d) { w with now := w.now + d }
  | environment {db : Db} (h : N.environment w.now w.db db) :
      Step w .environment { w with db := db }
  | launch {t : T} {p : Prog (clientSig Cmd Rep L) α} {mem : Mem} (hidle : w.threads t = none)
      (h : N.launch w.now w.mem t p mem) :
      Step w (.launch t) { w.setThread t (some ⟨p, .idle⟩) with mem := mem }
  | act {t : T} {l : L.Op} {k : L.Ans l → Prog (clientSig Cmd Rep L) α} {x : L.Ans l} {mem : Mem}
      (hth : w.threads t = some ⟨.op (.inr l) k, .idle⟩) (h : N.act w.now t w.mem l x mem) :
      Step w (.act t l x) { w.setThread t (some ⟨k x, .idle⟩) with mem := mem }
  | send {t : T} {c : Cmd} {k : Rep → Prog (clientSig Cmd Rep L) α}
      (hth : w.threads t = some ⟨.op (.inl c) k, .idle⟩) :
      Step w (.send t c) (w.setThread t (some ⟨.op (.inl c) k, .sent⟩))
  | exec {t : T} {c : Cmd} {k : Rep → Prog (clientSig Cmd Rep L) α}
      (hth : w.threads t = some ⟨.op (.inl c) k, .sent⟩) (hlane : w.strays (N.lane t) = []) :
      Step w (.exec t c (N.exec w.now w.db c).2)
        { w.setThread t (some ⟨.op (.inl c) k, .answered (N.exec w.now w.db c).2⟩) with
          db := (N.exec w.now w.db c).1 }
  | deliver {t : T} {c : Cmd} {k : Rep → Prog (clientSig Cmd Rep L) α} {r r' : Rep}
      (hth : w.threads t = some ⟨.op (.inl c) k, .answered r⟩) (h : N.conveys c r r') :
      Step w (.deliver t c r') (w.setThread t (some ⟨k r', .idle⟩))
  | fail {t : T} {c : Cmd} {k : Rep → Prog (clientSig Cmd Rep L) α} {wire : Wire Rep} {r : Rep}
      (hth : w.threads t = some ⟨.op (.inl c) k, wire⟩) (hwire : wire ≠ .idle)
      (h : N.garbled c r) :
      Step w (.fail t c r) ((w.setThread t (some ⟨k r, .idle⟩)).abandon (N.lane t) t c wire)
  | stray {lane : Lane} {t : T} {c : Cmd} {cs : List (T × Cmd)}
      (h : w.strays lane = (t, c) :: cs) :
      Step w (.stray t c (N.exec w.now w.db c).2)
        { w with db := (N.exec w.now w.db c).1, strays := Function.update w.strays lane cs }
  | lose {lane : Lane} {t : T} {c : Cmd} {cs : List (T × Cmd)}
      (h : w.strays lane = (t, c) :: cs) :
      Step w (.lose t c) { w with strays := Function.update w.strays lane cs }
  | finish {t : T} {a : α} (hth : w.threads t = some ⟨.ret a, .idle⟩) :
      Step w (.finish t a)
        { w.setThread t none with mem := N.finish w.now t a w.mem }
  | cancel {t : T} {o : Cmd ⊕ L.Op} {k : (clientSig Cmd Rep L).Ans o → Prog (clientSig Cmd Rep L) α}
      {wire : Wire Rep} {kind : Kind} (hth : w.threads t = some ⟨.op o k, wire⟩)
      (ho : N.Suspended o) :
      Step w (.cancel t kind)
        { (w.setThread t none).abandonOp (N.lane t) t wire o with
          mem := N.cancel kind w.now t w.mem }

inductive Run (w₀ : World Cmd Rep L Db Mem T Lane α) :
    History Cmd Rep L T Kind α → World Cmd Rep L Db Mem T Lane α → Prop where
  | refl : Run w₀ [] w₀
  | snoc {ls : History Cmd Rep L T Kind α} {w w' : World Cmd Rep L Db Mem T Lane α}
      {l : Label Cmd Rep L T Kind α} (h : Run w₀ ls w) (hstep : N.Step w l w') :
      Run w₀ (ls ++ [(w.now, l)]) w'

variable {N}

theorem Run.trans {w₀ w₁ w₂ : World Cmd Rep L Db Mem T Lane α}
    {ls ls' : History Cmd Rep L T Kind α} (h₁ : N.Run w₀ ls w₁) (h₂ : N.Run w₁ ls' w₂) :
    N.Run w₀ (ls ++ ls') w₂ := by
  induction h₂ with
  | refl => simpa using h₁
  | snoc h hstep ih =>
      rw [← List.append_assoc]
      exact ih.snoc hstep

theorem Run.split {w₀ w : World Cmd Rep L Db Mem T Lane α}
    {ls ls' : History Cmd Rep L T Kind α} (h : N.Run w₀ (ls ++ ls') w) :
    ∃ v, N.Run w₀ ls v ∧ N.Run v ls' w := by
  generalize hall : ls ++ ls' = all at h
  induction h generalizing ls' with
  | refl =>
      obtain ⟨rfl, rfl⟩ := List.append_eq_nil_iff.mp hall
      exact ⟨w₀, .refl, .refl⟩
  | @snoc pre v v' l h hstep ih =>
      rcases List.eq_nil_or_concat ls' with rfl | ⟨ls'', x, rfl⟩
      · rw [List.append_nil] at hall
        subst hall
        exact ⟨v', h.snoc hstep, .refl⟩
      · rw [List.concat_eq_append, ← List.append_assoc] at hall
        obtain ⟨hpre, hx⟩ := List.append_inj' hall rfl
        obtain ⟨u, hu, hu'⟩ := ih hpre
        obtain rfl : x = (v.now, l) := by simpa using hx
        exact ⟨u, hu, by simpa using hu'.snoc hstep⟩

theorem Run.step_of_append {w₀ w : World Cmd Rep L Db Mem T Lane α}
    {ls ls' : History Cmd Rep L T Kind α} {τ : ℕ} {l : Label Cmd Rep L T Kind α}
    (h : N.Run w₀ (ls ++ (τ, l) :: ls') w) :
    ∃ v v', N.Run w₀ ls v ∧ v.now = τ ∧ N.Step v l v' ∧ N.Run v' ls' w := by
  have h' : N.Run w₀ ((ls ++ [(τ, l)]) ++ ls') w := by simpa using h
  obtain ⟨v', hv', hw⟩ := h'.split
  generalize hall : ls ++ [(τ, l)] = all at hv'
  cases hv' with
  | refl => simp at hall
  | @snoc pre v _ l' hv hstep =>
      obtain ⟨rfl, hl⟩ := List.append_inj' hall rfl
      obtain ⟨rfl, rfl⟩ : τ = v.now ∧ l = l' := by simpa using hl
      exact ⟨v, v', hv, rfl, hstep, hw⟩

/-- Abandoned commands were in the threads that sent them. -/
theorem Run.strays_of_threads {P : T → Cmd → Prop} {w₀ w : World Cmd Rep L Db Mem T Lane α}
    {ls : History Cmd Rep L T Kind α} (hempty : ∀ lane, w₀.strays lane = [])
    (hthreads : ∀ {ls w t c k wire}, N.Run w₀ ls w →
      w.threads t = some ⟨.op (.inl c) k, wire⟩ → P t c)
    (h : N.Run w₀ ls w) {lane : Lane} {x : T × Cmd} (hx : x ∈ w.strays lane) : P x.1 x.2 := by
  induction h generalizing lane with
  | refl =>
      rw [hempty lane] at hx
      cases hx
  | snoc hrun hstep ih =>
      cases hstep with
      | fail hth hwire hgarbled =>
          rcases World.mem_abandon hx with hx | ⟨-, rfl, -⟩
          · exact ih hx
          · exact hthreads hrun hth
      | stray hlane => exact ih (World.mem_of_tail hlane hx)
      | lose hlane => exact ih (World.mem_of_tail hlane hx)
      | @cancel t o k wire kind hth ho =>
          cases o with
          | inl c =>
              rcases World.mem_abandon hx with hx | ⟨-, rfl, -⟩
              · exact ih hx
              · exact hthreads hrun hth
          | inr o => exact ih hx
      | _ => exact ih hx

theorem Step.now_le {w w' : World Cmd Rep L Db Mem T Lane α} {l : Label Cmd Rep L T Kind α}
    (h : N.Step w l w') : w.now ≤ w'.now := by
  cases h with
  | tick d => exact Nat.le_add_right _ _
  | @cancel t o k wire kind hth ho => cases o <;> simp
  | _ => simp

theorem Run.now_le {w w' : World Cmd Rep L Db Mem T Lane α}
    {ls : History Cmd Rep L T Kind α} (h : N.Run w ls w') : w.now ≤ w'.now := by
  induction h with
  | refl => exact le_rfl
  | snoc h hstep ih => exact ih.trans hstep.now_le

end Network

end

end Effects
