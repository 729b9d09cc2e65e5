import BreezeGateway.Effects.Network

/-!
# Invariants of networks from contracts of programs

Every thread carries a ghost state, and its program meets a contract from it.  `Sound` lists
what an invariant over the world and all ghost states owes to each kind of step; the programs
enter only through the precondition of the operation at hand.  `Run.guarantee` then gives the
invariant, and the contract of every program in the middle of its run, in every state reached.
-/

namespace Effects.Network

variable {Cmd Rep : Type} {L : Sig} {Db Mem T Lane Kind α G : Type} [DecidableEq T]

section

variable {C : T → Contract (clientSig Cmd Rep L) G} {Q : T → G → α → Prop}

/-- Every running program meets the contract from its thread's ghost state. -/
def Keeps (C : T → Contract (clientSig Cmd Rep L) G) (Q : T → G → α → Prop)
    (w : World Cmd Rep L Db Mem T Lane α) (g : T → G) : Prop :=
  ∀ t th, w.threads t = some th → th.prog.Meets (C t) (g t) (Q t)

theorem Keeps.update {w w' : World Cmd Rep L Db Mem T Lane α} {g : T → G} {t : T} {g' : G}
    {th' : Option (Thread Cmd Rep L α)} (h : Keeps C Q w g)
    (hth : w'.threads = Function.update w.threads t th')
    (ht : ∀ th, th' = some th → th.prog.Meets (C t) g' (Q t)) :
    Keeps C Q w' (Function.update g t g') := by
  intro s th hs
  rw [hth] at hs
  by_cases hst : s = t
  · subst hst
    rw [Function.update_self] at hs ⊢
    exact ht th hs
  · rw [Function.update_of_ne hst] at hs ⊢
    exact h s th hs

theorem Keeps.update_same {w w' : World Cmd Rep L Db Mem T Lane α} {g : T → G} {t : T}
    {th' : Option (Thread Cmd Rep L α)} (h : Keeps C Q w g)
    (hth : w'.threads = Function.update w.threads t th')
    (ht : ∀ th, th' = some th → th.prog.Meets (C t) (g t) (Q t)) : Keeps C Q w' g := by
  have h' : Keeps C Q w' (Function.update g t (g t)) := h.update hth ht
  rwa [Function.update_eq_self] at h'

omit [DecidableEq T] in
theorem keeps_of_quiet {w : World Cmd Rep L Db Mem T Lane α} (h : ∀ t, w.threads t = none)
    (g : T → G) : Keeps C Q w g := by
  intro t th hth
  simp [h t] at hth

end

variable [DecidableEq Lane]

/-- What the steps of the network owe to the invariant `I`, which may look back at the history. -/
structure Sound (N : Network Cmd Rep L Db Mem T Lane Kind α) (C : T → Contract (clientSig Cmd Rep L) G)
    (Q : T → G → α → Prop)
    (I : History Cmd Rep L T Kind α → World Cmd Rep L Db Mem T Lane α → (T → G) → Prop) : Prop where
  tick : ∀ {ls w g} (d : ℕ), I ls w g →
    I (ls ++ [(w.now, .tick d)]) { w with now := w.now + d } g
  environment : ∀ {ls w g db}, I ls w g → N.environment w.now w.db db →
    I (ls ++ [(w.now, .environment)]) { w with db := db } g
  launch : ∀ {ls w g t p mem}, I ls w g → w.threads t = none → N.launch w.now w.mem t p mem →
    ∃ g', p.Meets (C t) g' (Q t) ∧
      I (ls ++ [(w.now, .launch t)]) { w.setThread t (some ⟨p, .idle⟩) with mem := mem }
        (Function.update g t g')
  act : ∀ {ls w g t l k x mem}, I ls w g → w.threads t = some ⟨.op (.inr l) k, .idle⟩ →
    (C t).pre (g t) (.inr l) → N.act w.now t w.mem l x mem →
    ∃ g', (C t).post (g t) (.inr l) x g' ∧
      I (ls ++ [(w.now, .act t l x)]) { w.setThread t (some ⟨k x, .idle⟩) with mem := mem }
        (Function.update g t g')
  send : ∀ {ls w g t c k}, I ls w g → w.threads t = some ⟨.op (.inl c) k, .idle⟩ →
    (C t).pre (g t) (.inl c) →
    I (ls ++ [(w.now, .send t c)]) (w.setThread t (some ⟨.op (.inl c) k, .sent⟩)) g
  exec : ∀ {ls w g t c k}, I ls w g → w.threads t = some ⟨.op (.inl c) k, .sent⟩ →
    (C t).pre (g t) (.inl c) → w.strays (N.lane t) = [] →
    I (ls ++ [(w.now, .exec t c (N.exec w.now w.db c).2)])
      { w.setThread t (some ⟨.op (.inl c) k, .answered (N.exec w.now w.db c).2⟩) with
        db := (N.exec w.now w.db c).1 } g
  deliver : ∀ {ls w g t c k r r'}, I ls w g →
    w.threads t = some ⟨.op (.inl c) k, .answered r⟩ → (C t).pre (g t) (.inl c) → N.conveys c r r' →
    ∃ g', (C t).post (g t) (.inl c) r' g' ∧
      I (ls ++ [(w.now, .deliver t c r')]) (w.setThread t (some ⟨k r', .idle⟩))
        (Function.update g t g')
  fail : ∀ {ls w g t c k wire r}, I ls w g → w.threads t = some ⟨.op (.inl c) k, wire⟩ →
    wire ≠ .idle → (C t).pre (g t) (.inl c) → N.garbled c r →
    ∃ g', (C t).post (g t) (.inl c) r g' ∧
      I (ls ++ [(w.now, .fail t c r)])
        ((w.setThread t (some ⟨k r, .idle⟩)).abandon (N.lane t) t c wire) (Function.update g t g')
  stray : ∀ {ls w g lane t c cs}, I ls w g → w.strays lane = (t, c) :: cs →
    I (ls ++ [(w.now, .stray t c (N.exec w.now w.db c).2)])
      { w with db := (N.exec w.now w.db c).1, strays := Function.update w.strays lane cs } g
  lose : ∀ {ls w g lane t c cs}, I ls w g → w.strays lane = (t, c) :: cs →
    I (ls ++ [(w.now, .lose t c)]) { w with strays := Function.update w.strays lane cs } g
  finish : ∀ {ls w g t a}, I ls w g → w.threads t = some ⟨.ret a, .idle⟩ → Q t (g t) a →
    ∃ g', I (ls ++ [(w.now, .finish t a)])
      { w.setThread t none with mem := N.finish w.now t a w.mem } (Function.update g t g')
  cancel : ∀ {ls w g t o k wire} (kind : Kind), I ls w g →
    w.threads t = some ⟨.op o k, wire⟩ → N.Suspended o → (C t).pre (g t) o →
    ∃ g', I (ls ++ [(w.now, .cancel t kind)])
      { (w.setThread t none).abandonOp (N.lane t) t wire o with
        mem := N.cancel kind w.now t w.mem } (Function.update g t g')

variable {N : Network Cmd Rep L Db Mem T Lane Kind α} {C : T → Contract (clientSig Cmd Rep L) G}
  {Q : T → G → α → Prop}
  {I : History Cmd Rep L T Kind α → World Cmd Rep L Db Mem T Lane α → (T → G) → Prop}

theorem Sound.step (hS : Sound N C Q I) {w w' : World Cmd Rep L Db Mem T Lane α}
    {ls : History Cmd Rep L T Kind α} {l : Label Cmd Rep L T Kind α} {g : T → G}
    (hI : I ls w g) (hK : Keeps C Q w g) (h : N.Step w l w') :
    ∃ g', I (ls ++ [(w.now, l)]) w' g' ∧ Keeps C Q w' g' := by
  cases h with
  | tick d => exact ⟨g, hS.tick d hI, hK⟩
  | environment h => exact ⟨g, hS.environment hI h, hK⟩
  | @launch t p mem hidle h =>
      obtain ⟨g', hp, hI'⟩ := hS.launch hI hidle h
      exact ⟨_, hI', hK.update rfl (by rintro _ ⟨⟩; exact hp)⟩
  | @act t l k x mem hth h =>
      have hm := hK t _ hth
      obtain ⟨g', hpost, hI'⟩ := hS.act hI hth hm.1 h
      exact ⟨_, hI', hK.update rfl (by rintro _ ⟨⟩; exact hm.2 x g' hpost)⟩
  | @send t c k hth =>
      have hm := hK t _ hth
      exact ⟨g, hS.send hI hth hm.1, hK.update_same rfl (by rintro _ ⟨⟩; exact hm)⟩
  | @exec t c k hth hlane =>
      have hm := hK t _ hth
      exact ⟨g, hS.exec hI hth hm.1 hlane, hK.update_same rfl (by rintro _ ⟨⟩; exact hm)⟩
  | @deliver t c k r r' hth h =>
      have hm := hK t _ hth
      obtain ⟨g', hpost, hI'⟩ := hS.deliver hI hth hm.1 h
      exact ⟨_, hI', hK.update rfl (by rintro _ ⟨⟩; exact hm.2 r' g' hpost)⟩
  | @fail t c k wire r hth hwire h =>
      have hm := hK t _ hth
      obtain ⟨g', hpost, hI'⟩ := hS.fail hI hth hwire hm.1 h
      have hth' : ((w.setThread t (some ⟨k r, .idle⟩)).abandon (N.lane t) t c wire).threads =
          Function.update w.threads t (some ⟨k r, .idle⟩) := by simp
      exact ⟨_, hI', hK.update hth' (by rintro _ ⟨⟩; exact hm.2 r g' hpost)⟩
  | stray h => exact ⟨g, hS.stray hI h, hK⟩
  | lose h => exact ⟨g, hS.lose hI h, hK⟩
  | @finish t a hth =>
      obtain ⟨g', hI'⟩ := hS.finish hI hth (hK t _ hth)
      exact ⟨_, hI', hK.update rfl (by rintro _ ⟨⟩)⟩
  | @cancel t o k wire kind hth ho =>
      have hm := hK t _ hth
      have hth' : ((w.setThread t none).abandonOp (N.lane t) t wire o).threads =
          Function.update w.threads t none := by cases o <;> simp
      obtain ⟨g', hI'⟩ := hS.cancel kind hI hth ho hm.1
      exact ⟨_, hI', hK.update hth' (by rintro _ ⟨⟩)⟩

/-- The invariant holds in every state of every run. -/
theorem Run.guarantee (g₀ : T → G) (hS : Sound N C Q I) {w₀ w : World Cmd Rep L Db Mem T Lane α}
    {ls : History Cmd Rep L T Kind α} (hI : I [] w₀ g₀) (hK : Keeps C Q w₀ g₀)
    (h : N.Run w₀ ls w) : ∃ g, I ls w g ∧ Keeps C Q w g := by
  induction h with
  | refl => exact ⟨g₀, hI, hK⟩
  | snoc h hstep ih =>
      obtain ⟨g, hI, hK⟩ := ih
      exact hS.step hI hK hstep

end Effects.Network
