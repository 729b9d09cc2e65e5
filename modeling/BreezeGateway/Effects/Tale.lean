import BreezeGateway.Effects.Guarantee

/-!
# Ghost states read off histories

When the answers to operations determine how a ghost state moves, the ghost state of a thread is a
function of the history: it starts with the launch and follows the answers the thread has seen.
-/

namespace Effects.Network

theorem threads_of_update {T α : Type} [DecidableEq T] {threads : T → Option α} {t s : T} {a : α}
    (h : Function.update threads t (some a) s = none) : threads s = none := by
  by_cases hs : s = t
  · rw [hs, Function.update_self] at h
    cases h
  · rwa [Function.update_of_ne hs] at h

/-- A ghost state that the answers determine. -/
structure Tale (S : Sig) (G : Type) where
  start : G
  after : G → (o : S.Op) → S.Ans o → G

/-- The contract of a program that may perform what `pre` allows. -/
def Tale.contract {S : Sig} {G : Type} (tale : Tale S G) (pre : G → S.Op → Prop) : Contract S G where
  pre := pre
  post g o x g' := g' = tale.after g o x

section

variable {Cmd Rep : Type} {L : Sig} {Db Mem T Lane Kind α G : Type} [DecidableEq T]
  (tale : Tale (clientSig Cmd Rep L) G)

def Tale.next (t : T) (g : G) : ℕ × Label Cmd Rep L T Kind α → G
  | (_, .launch u) => if u = t then tale.start else g
  | (_, .act u l x) => if u = t then tale.after g (.inr l) x else g
  | (_, .deliver u c r) => if u = t then tale.after g (.inl c) r else g
  | (_, .fail u c r) => if u = t then tale.after g (.inl c) r else g
  | (_, .finish u _) => if u = t then tale.start else g
  | (_, .cancel u _) => if u = t then tale.start else g
  | _ => g

/-- The ghost state of `t` after a history. -/
def Tale.told (t : T) (ls : History Cmd Rep L T Kind α) : G := ls.foldl (tale.next t) tale.start

variable {tale} {t : T} {ls : History Cmd Rep L T Kind α} {x : ℕ × Label Cmd Rep L T Kind α}
  {w w' w₀ : World Cmd Rep L Db Mem T Lane α}

theorem Tale.told_snoc : tale.told t (ls ++ [x]) = tale.next t (tale.told t ls) x := by
  simp [Tale.told]

theorem Tale.update_told {g : T → G} {g' : G} (hg : ∀ s, g s = tale.told s ls)
    (ht : tale.next t (tale.told t ls) x = g')
    (hother : ∀ s, s ≠ t → tale.next s (tale.told s ls) x = tale.told s ls) (s : T) :
    Function.update g t g' s = tale.told s (ls ++ [x]) := by
  rw [Tale.told_snoc]
  by_cases hs : s = t
  · subst hs
    rw [Function.update_self, ht]
  · rw [Function.update_of_ne hs, hother s hs, hg s]

theorem Tale.other_threads {P : G → Phase Cmd Rep → Prop} {th : Option (Thread Cmd Rep L α)}
    (hx : ∀ s, s ≠ t → tale.next s (tale.told s ls) x = tale.told s ls)
    (hthreads : w'.threads = Function.update w.threads t th) {s : T} (hs : s ≠ t) :
    P (tale.told s (ls ++ [x])) (Phase.of (w'.threads s)) ↔
      P (tale.told s ls) (Phase.of (w.threads s)) := by
  rw [Tale.told_snoc, hx s hs, hthreads, Function.update_of_ne hs]

theorem Tale.this_thread {P : G → Phase Cmd Rep → Prop} {th : Option (Thread Cmd Rep L α)}
    (hthreads : w'.threads = Function.update w.threads t th) :
    P (tale.told t (ls ++ [x])) (Phase.of (w'.threads t)) ↔
      P (tale.next t (tale.told t ls) x) (Phase.of th) := by
  rw [Tale.told_snoc, hthreads, Function.update_self]

/-! ## While a program is running -/

omit [DecidableEq T] in
/-- The label starts or ends a program of `t`. -/
def Bounds (t : T) : Label Cmd Rep L T Kind α → Prop
  | .launch u => u = t
  | .finish u _ => u = t
  | .cancel u _ => u = t
  | _ => False

omit [DecidableEq T] in
/-- No program of `t` starts or ends. -/
def Ongoing (t : T) (ls : History Cmd Rep L T Kind α) : Prop := ∀ x ∈ ls, ¬ Bounds t x.2

/-- What every answer keeps lasts as long as the program. -/
theorem Tale.persists {P : G → Prop} (hP : ∀ g o x, P g → P (tale.after g o x))
    {ls' : History Cmd Rep L T Kind α} (hongoing : Ongoing t ls') (h : P (tale.told t ls)) :
    P (tale.told t (ls ++ ls')) := by
  induction ls' using List.reverseRecOn with
  | nil =>
      rw [List.append_nil]
      exact h
  | append_singleton ls' x ih =>
      have hbefore := ih fun y hy => hongoing y (List.mem_append_left _ hy)
      have hx : ¬ Bounds t x.2 := hongoing x (List.mem_append_right _ (List.mem_singleton.mpr rfl))
      rw [← List.append_assoc, Tale.told_snoc]
      obtain ⟨τ, l⟩ := x
      cases l with
      | launch u =>
          rw [show tale.next t _ (τ, .launch u) = _ from if_neg hx]
          exact hbefore
      | finish u a =>
          rw [show tale.next t _ (τ, .finish u a) = _ from if_neg hx]
          exact hbefore
      | cancel u kind =>
          rw [show tale.next t _ (τ, .cancel u kind) = _ from if_neg hx]
          exact hbefore
      | act u l y =>
          simp only [Tale.next]
          split
          · exact hP _ _ _ hbefore
          · exact hbefore
      | deliver u c r =>
          simp only [Tale.next]
          split
          · exact hP _ _ _ hbefore
          · exact hbefore
      | fail u c r =>
          simp only [Tale.next]
          split
          · exact hP _ _ _ hbefore
          · exact hbefore
      | _ => exact hbefore

/-- Between a history at which `P` fails and one at which it holds there is an entry that turns
it. -/
theorem Tale.exists_turn {P : G → Prop} {ls' : History Cmd Rep L T Kind α}
    (hbefore : ¬ P (tale.told t ls)) (hafter : P (tale.told t (ls ++ ls'))) :
    ∃ b₁ y b₂, ls' = b₁ ++ y :: b₂ ∧ ¬ P (tale.told t (ls ++ b₁)) ∧
      P (tale.next t (tale.told t (ls ++ b₁)) y) := by
  induction ls' using List.reverseRecOn with
  | nil =>
      rw [List.append_nil] at hafter
      exact absurd hafter hbefore
  | append_singleton ls' y ih =>
      by_cases hmid : P (tale.told t (ls ++ ls'))
      · obtain ⟨b₁, z, b₂, rfl, hb, hz⟩ := ih hmid
        exact ⟨b₁, z, b₂ ++ [y], by simp, hb, hz⟩
      · rw [← List.append_assoc, Tale.told_snoc] at hafter
        exact ⟨ls', y, [], rfl, hmid, hafter⟩

variable (tale) [DecidableEq Lane] {N : Network Cmd Rep L Db Mem T Lane Kind α}
  (pre : T → G → (clientSig Cmd Rep L).Op → Prop) (Q : T → G → α → Prop)

theorem Tale.sound (hlaunch : ∀ now mem t p mem', N.launch now mem t p mem' →
      p.Meets (tale.contract (pre t)) tale.start (Q t)) :
    Sound N (fun t => tale.contract (pre t)) Q (fun ls _ g => ∀ t, g t = tale.told t ls) where
  tick d hI t := by
    rw [Tale.told_snoc]
    exact hI t
  environment hI h t := by
    rw [Tale.told_snoc]
    exact hI t
  launch hI hidle h :=
    ⟨_, hlaunch _ _ _ _ _ h, Tale.update_told hI (if_pos rfl) fun s hs => if_neg hs.symm⟩
  act {ls w g t l k x mem} hI hth hpre h := by
    refine ⟨tale.after (g t) (.inr l) x, rfl, Tale.update_told hI ?_ fun s hs => if_neg hs.symm⟩
    rw [hI t]
    exact if_pos rfl
  send hI hth hpre t := by
    rw [Tale.told_snoc]
    exact hI t
  exec hI hth hpre hlane t := by
    rw [Tale.told_snoc]
    exact hI t
  deliver {ls w g t c k r r'} hI hth hpre hc := by
    refine ⟨tale.after (g t) (.inl c) r', rfl, Tale.update_told hI ?_ fun s hs => if_neg hs.symm⟩
    rw [hI t]
    exact if_pos rfl
  fail {ls w g t c k wire r} hI hth hwire hpre hc := by
    refine ⟨tale.after (g t) (.inl c) r, rfl, Tale.update_told hI ?_ fun s hs => if_neg hs.symm⟩
    rw [hI t]
    exact if_pos rfl
  stray hI hlane t := by
    rw [Tale.told_snoc]
    exact hI t
  lose hI hlane t := by
    rw [Tale.told_snoc]
    exact hI t
  finish hI hth hQ := ⟨tale.start, Tale.update_told hI (if_pos rfl) fun s hs => if_neg hs.symm⟩
  cancel kind hI hth ho hpre :=
    ⟨tale.start, Tale.update_told hI (if_pos rfl) fun s hs => if_neg hs.symm⟩

theorem Tale.obeys (hlaunch : ∀ now mem t p mem', N.launch now mem t p mem' →
      p.Meets (tale.contract (pre t)) tale.start (Q t))
    (hquiet : ∀ t, w₀.threads t = none) (hrun : N.Run w₀ ls w) {th : Thread Cmd Rep L α}
    (hth : w.threads t = some th) :
    th.prog.Meets (tale.contract (pre t)) (tale.told t ls) (Q t) := by
  obtain ⟨g, hI, hK⟩ := hrun.guarantee (fun _ => tale.start) (tale.sound pre Q hlaunch) (fun _ => rfl)
    (keeps_of_quiet hquiet _)
  rw [← hI t]
  exact hK t th hth

/-- What holds at the start and survives every answer holds of all that is told. -/
theorem Tale.always {P : G → Prop} (hstart : P tale.start)
    (hact : ∀ {ls w l k x mem}, N.Run w₀ ls w → w.threads t = some ⟨.op (.inr l) k, .idle⟩ →
      N.act w.now t w.mem l x mem → P (tale.told t ls) → P (tale.after (tale.told t ls) (.inr l) x))
    (hheard : ∀ {ls w c k wire r}, N.Run w₀ ls w → w.threads t = some ⟨.op (.inl c) k, wire⟩ →
      P (tale.told t ls) → P (tale.after (tale.told t ls) (.inl c) r))
    (hrun : N.Run w₀ ls w) : P (tale.told t ls) := by
  have hif : ∀ {u : T} {g g' : G}, (u = t → P g) → P g' → P (if u = t then g else g') := by
    intro u g g' hg hg'
    split
    · rename_i hu
      exact hg hu
    · exact hg'
  induction hrun with
  | refl => exact hstart
  | snoc hrun hstep ih =>
      rw [Tale.told_snoc]
      cases hstep with
      | launch hidle h => exact hif (fun _ => hstart) ih
      | act hth h =>
          refine hif ?_ ih
          rintro rfl
          exact hact hrun hth h ih
      | deliver hth h =>
          refine hif ?_ ih
          rintro rfl
          exact hheard hrun hth ih
      | fail hth hwire h =>
          refine hif ?_ ih
          rintro rfl
          exact hheard hrun hth ih
      | finish hth => exact hif (fun _ => hstart) ih
      | cancel hth ho => exact hif (fun _ => hstart) ih
      | _ => exact ih

end

end Effects.Network
