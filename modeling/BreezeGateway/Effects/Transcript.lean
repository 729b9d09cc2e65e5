import BreezeGateway.Effects.Tale

/-!
# Transcripts

The answers that a running program has been given are the entries of the history since its launch
that answer its thread.  A reply of the server in it was computed by the server during the same run
of the program.
-/

namespace Effects

theorem Prog.meets_told_trivial {S : Sig} {α : Type} {p : Prog S α} {tr : List (Event S)} :
    p.Meets (Told fun _ _ => True) tr fun _ _ => True := by
  induction p generalizing tr with
  | ret a => trivial
  | op o k ih => exact ⟨trivial, fun x tr' _ => ih x⟩

namespace Network

section

variable {Cmd Rep : Type} {L : Sig} {Db Mem T Lane Kind α : Type}

/-- The label is one of thread `t`; strays and lost commands have left their thread. -/
def Of (t : T) : Label Cmd Rep L T Kind α → Prop
  | .launch u => u = t
  | .act u _ _ => u = t
  | .send u _ => u = t
  | .exec u _ _ => u = t
  | .deliver u _ _ => u = t
  | .fail u _ _ => u = t
  | .finish u _ => u = t
  | .cancel u _ => u = t
  | _ => False

theorem Of.of_bounds {t : T} {l : Label Cmd Rep L T Kind α} (h : Bounds t l) : Of t l := by
  cases l with
  | launch u => exact h
  | finish u a => exact h
  | cancel u kind => exact h
  | _ => exact absurd h id

section

variable [DecidableEq T]

/-- The operation of `t` that an entry answers. -/
def answeredBy (t : T) : ℕ × Label Cmd Rep L T Kind α → Option (Event (clientSig Cmd Rep L))
  | (_, .act u l x) => if u = t then some ⟨.inr l, x⟩ else none
  | (_, .deliver u c r) => if u = t then some ⟨.inl c, r⟩ else none
  | (_, .fail u c r) => if u = t then some ⟨.inl c, r⟩ else none
  | _ => none

def transcript (t : T) (ls : History Cmd Rep L T Kind α) : List (Event (clientSig Cmd Rep L)) :=
  ls.filterMap (answeredBy t)

variable {t : T} {ls ls' : History Cmd Rep L T Kind α} {x : ℕ × Label Cmd Rep L T Kind α}
  {e : Event (clientSig Cmd Rep L)}

@[simp] theorem transcript_append :
    transcript t (ls ++ ls') = transcript t ls ++ transcript t ls' := List.filterMap_append

theorem answeredBy_none (h : ¬ Of t x.2) : answeredBy t x = none := by
  obtain ⟨τ, l⟩ := x
  cases l with
  | act u o y => exact if_neg h
  | deliver u c r => exact if_neg h
  | fail u c r => exact if_neg h
  | _ => rfl

theorem answeredBy_eq_some {σ : ℕ} {l : Label Cmd Rep L T Kind α}
    (h : answeredBy t (σ, l) = some e) :
    (∃ o y, l = .act t o y ∧ e = ⟨.inr o, y⟩) ∨
      ∃ c r, (l = .deliver t c r ∨ l = .fail t c r) ∧ e = ⟨.inl c, r⟩ := by
  have hof : Of t l := by
    by_contra hof
    rw [answeredBy_none (x := (σ, l)) hof] at h
    cases h
  cases l with
  | act u o y =>
      obtain rfl : u = t := hof
      rw [show answeredBy u (σ, .act u o y) = _ from if_pos rfl] at h
      exact Or.inl ⟨o, y, rfl, (Option.some.inj h).symm⟩
  | deliver u c r =>
      obtain rfl : u = t := hof
      rw [show answeredBy u (σ, .deliver u c r) = _ from if_pos rfl] at h
      exact Or.inr ⟨c, r, Or.inl rfl, (Option.some.inj h).symm⟩
  | fail u c r =>
      obtain rfl : u = t := hof
      rw [show answeredBy u (σ, .fail u c r) = _ from if_pos rfl] at h
      exact Or.inr ⟨c, r, Or.inr rfl, (Option.some.inj h).symm⟩
  | _ => cases h

theorem transcript_none (h : answeredBy t x = none) : transcript t [x] = [] := by
  simp [transcript, h]

theorem transcript_some (h : answeredBy t x = some e) : transcript t [x] = [e] := by
  simp [transcript, h]

theorem mem_transcript : e ∈ transcript t ls ↔ ∃ x ∈ ls, answeredBy t x = some e :=
  List.mem_filterMap

theorem transcript_split {tr tr' : List (Event (clientSig Cmd Rep L))}
    (h : transcript t ls = tr ++ e :: tr') :
    ∃ b x b', ls = b ++ x :: b' ∧ transcript t b = tr ∧ answeredBy t x = some e ∧
      transcript t b' = tr' := by
  obtain ⟨l₁, l₂, rfl, hpre, hrest⟩ := List.filterMap_eq_append_iff.mp h
  obtain ⟨l₃, x, l₄, rfl, hnone, hx, hpost⟩ := List.filterMap_eq_cons_iff.mp hrest
  refine ⟨l₁ ++ l₃, x, l₄, by simp, ?_, hx, hpost⟩
  have hquiet : transcript t l₃ = [] := List.filterMap_eq_nil_iff.mpr hnone
  rw [transcript_append, hquiet, List.append_nil]
  exact hpre

end

/-! ## What a step does to a thread -/

/-- A thread is left alone, waits, is answered, is launched, or ends. -/
inductive ThreadMove [DecidableEq T] (N : Network Cmd Rep L Db Mem T Lane Kind α)
    (w : World Cmd Rep L Db Mem T Lane α) (l : Label Cmd Rep L T Kind α) (t : T) :
    Option (Thread Cmd Rep L α) → Option (Thread Cmd Rep L α) → Prop where
  | same {th : Option (Thread Cmd Rep L α)} (hl : ¬ Of t l) : ThreadMove N w l t th th
  | sent {c : Cmd} {k : Rep → Prog (clientSig Cmd Rep L) α} (hl : l = .send t c) :
      ThreadMove N w l t (some ⟨.op (.inl c) k, .idle⟩) (some ⟨.op (.inl c) k, .sent⟩)
  | executed {c : Cmd} {k : Rep → Prog (clientSig Cmd Rep L) α}
      (hl : l = .exec t c (N.exec w.now w.db c).2) :
      ThreadMove N w l t (some ⟨.op (.inl c) k, .sent⟩)
        (some ⟨.op (.inl c) k, .answered (N.exec w.now w.db c).2⟩)
  | delivered {c : Cmd} {k : Rep → Prog (clientSig Cmd Rep L) α} {r r' : Rep}
      (hl : l = .deliver t c r') (h : N.conveys c r r') :
      ThreadMove N w l t (some ⟨.op (.inl c) k, .answered r⟩) (some ⟨k r', .idle⟩)
  | failed {c : Cmd} {k : Rep → Prog (clientSig Cmd Rep L) α} {r : Rep} {wire : Wire Rep}
      (hl : l = .fail t c r) (h : N.garbled c r) :
      ThreadMove N w l t (some ⟨.op (.inl c) k, wire⟩) (some ⟨k r, .idle⟩)
  | acted {o : L.Op} {x : L.Ans o} {k : L.Ans o → Prog (clientSig Cmd Rep L) α} {mem : Mem}
      (hl : l = .act t o x) (h : N.act w.now t w.mem o x mem) :
      ThreadMove N w l t (some ⟨.op (.inr o) k, .idle⟩) (some ⟨k x, .idle⟩)
  | launched {p : Prog (clientSig Cmd Rep L) α} {mem : Mem} (hl : l = .launch t)
      (h : N.launch w.now w.mem t p mem) : ThreadMove N w l t none (some ⟨p, .idle⟩)
  | ended {th : Option (Thread Cmd Rep L α)} : ThreadMove N w l t th none

variable [DecidableEq T] [DecidableEq Lane] {N : Network Cmd Rep L Db Mem T Lane Kind α}
  {w₀ w w' : World Cmd Rep L Db Mem T Lane α} {l : Label Cmd Rep L T Kind α} {t : T}
  {ls : History Cmd Rep L T Kind α}

omit [DecidableEq Lane] in
theorem ThreadMove.update {u : T} {th : Option (Thread Cmd Rep L α)}
    (hthreads : w'.threads = Function.update w.threads u th) (hl : ∀ s, Of s l → u = s)
    (h : ThreadMove N w l u (w.threads u) th) (t : T) :
    ThreadMove N w l t (w.threads t) (w'.threads t) := by
  rw [hthreads]
  by_cases ht : t = u
  · subst ht
    rwa [Function.update_self]
  · rw [Function.update_of_ne ht]
    exact .same fun hof => ht (hl t hof).symm

theorem Step.threadMove (h : N.Step w l w') (t : T) :
    ThreadMove N w l t (w.threads t) (w'.threads t) := by
  cases h with
  | launch hidle h =>
      refine .update rfl ?_ ?_ t
      · exact fun _ hs => hs
      · rw [hidle]
        exact .launched rfl h
  | act hth h =>
      refine .update rfl ?_ ?_ t
      · exact fun _ hs => hs
      · rw [hth]
        exact .acted rfl h
  | send hth =>
      refine .update rfl ?_ ?_ t
      · exact fun _ hs => hs
      · rw [hth]
        exact .sent rfl
  | exec hth hlane =>
      refine .update rfl ?_ ?_ t
      · exact fun _ hs => hs
      · rw [hth]
        exact .executed rfl
  | deliver hth h =>
      refine .update rfl ?_ ?_ t
      · exact fun _ hs => hs
      · rw [hth]
        exact .delivered rfl h
  | fail hth hwire h =>
      refine .update (World.abandon_threads ..) ?_ ?_ t
      · exact fun _ hs => hs
      · rw [hth]
        exact .failed rfl h
  | finish hth =>
      refine .update rfl ?_ .ended t
      exact fun _ hs => hs
  | cancel hth ho =>
      refine .update (World.abandonOp_threads ..) ?_ .ended t
      exact fun _ hs => hs
  | _ => exact .same id

/-! ## The run of a program -/

/-- The program that `t` runs after `a ++ (τ, .launch t) :: b`, and where it came from. -/
structure Running (N : Network Cmd Rep L Db Mem T Lane Kind α) (w₀ : World Cmd Rep L Db Mem T Lane α)
    (t : T) (a : History Cmd Rep L T Kind α) (τ : ℕ) (b : History Cmd Rep L T Kind α)
    (q : Prog (clientSig Cmd Rep L) α) : Prop where
  ongoing : Ongoing t b
  origin : ∃ v mem p, N.Run w₀ a v ∧ v.now = τ ∧ N.launch τ v.mem t p mem ∧
    p.Steps (transcript t b) q

variable {a b : History Cmd Rep L T Kind α} {τ : ℕ} {q q' : Prog (clientSig Cmd Rep L) α}
  {x : ℕ × Label Cmd Rep L T Kind α}

omit [DecidableEq T] [DecidableEq Lane] in
theorem Ongoing.snoc (h : Ongoing t b) (hx : ¬ Bounds t x.2) : Ongoing t (b ++ [x]) := by
  intro y hy
  rcases List.mem_append.mp hy with hy | hy
  · exact h y hy
  · obtain rfl := List.mem_singleton.mp hy
    exact hx

/-- `t` runs `q` after the history. -/
def Underway (N : Network Cmd Rep L Db Mem T Lane Kind α) (w₀ : World Cmd Rep L Db Mem T Lane α)
    (t : T) (ls : History Cmd Rep L T Kind α) (q : Prog (clientSig Cmd Rep L) α) : Prop :=
  ∃ a τ b, ls = a ++ (τ, .launch t) :: b ∧ Running N w₀ t a τ b q

theorem Underway.quiet (h : Underway N w₀ t ls q) (hx : ¬ Bounds t x.2)
    (hnone : answeredBy t x = none) : Underway N w₀ t (ls ++ [x]) q := by
  obtain ⟨a, τ, b, rfl, hongoing, v, mem, p, hrun, hnow, hlaunch, hsteps⟩ := h
  refine ⟨a, τ, b ++ [x], by simp, hongoing.snoc hx, v, mem, p, hrun, hnow, hlaunch, ?_⟩
  rw [transcript_append, transcript_none hnone, List.append_nil]
  exact hsteps

theorem Underway.answered {o : (clientSig Cmd Rep L).Op} {y : (clientSig Cmd Rep L).Ans o}
    {k : (clientSig Cmd Rep L).Ans o → Prog (clientSig Cmd Rep L) α}
    (h : Underway N w₀ t ls (.op o k)) (hx : ¬ Bounds t x.2)
    (hsome : answeredBy t x = some ⟨o, y⟩) : Underway N w₀ t (ls ++ [x]) (k y) := by
  obtain ⟨a, τ, b, rfl, hongoing, v, mem, p, hrun, hnow, hlaunch, hsteps⟩ := h
  refine ⟨a, τ, b ++ [x], by simp, hongoing.snoc hx, v, mem, p, hrun, hnow, hlaunch, ?_⟩
  rw [transcript_append, transcript_some hsome]
  exact hsteps.trans (.one rfl)

/-- What a thread runs is what is left of the program it was launched with. -/
theorem Run.underway (hquiet : ∀ t, w₀.threads t = none) (hrun : N.Run w₀ ls w)
    {th : Thread Cmd Rep L α} (hth : w.threads t = some th) : Underway N w₀ t ls th.prog := by
  induction hrun generalizing th with
  | refl =>
      rw [hquiet t] at hth
      cases hth
  | @snoc ls w w' l hrun hstep ih =>
      have hmove := hstep.threadMove t
      rw [hth] at hmove
      generalize hold : w.threads t = old at hmove
      cases hmove with
      | same hl => exact (ih hold).quiet (fun hb => hl (.of_bounds hb)) (answeredBy_none hl)
      | sent hl =>
          subst hl
          exact (ih hold).quiet id rfl
      | executed hl =>
          subst hl
          exact (ih hold).quiet id rfl
      | delivered hl hconveys =>
          subst hl
          exact (ih hold).answered id (if_pos rfl)
      | failed hl hgarbled =>
          subst hl
          exact (ih hold).answered id (if_pos rfl)
      | acted hl hact =>
          subst hl
          exact (ih hold).answered id (if_pos rfl)
      | @launched p mem hl hlaunch =>
          subst hl
          refine ⟨ls, w.now, [], rfl, ?_, w, mem, p, hrun, rfl, hlaunch, .refl p⟩
          intro y hy
          cases hy

theorem Run.finished {pre post : History Cmd Rep L T Kind α} {y : α}
    (hquiet : ∀ t, w₀.threads t = none) (hrun : N.Run w₀ (pre ++ (τ, .finish t y) :: post) w) :
    Underway N w₀ t pre (.ret y) := by
  obtain ⟨v, v', hpre, -, hstep, -⟩ := hrun.step_of_append
  cases hstep with
  | finish hth => exact hpre.underway hquiet hth

/-! ## Where the answers come from -/

/-- A reply that waits for its thread was computed since the last step of the thread. -/
theorem Run.executed_of_answered (hquiet : ∀ t, w₀.threads t = none) (hrun : N.Run w₀ ls w) {c : Cmd}
    {k : Rep → Prog (clientSig Cmd Rep L) α} {r : Rep}
    (hth : w.threads t = some ⟨.op (.inl c) k, .answered r⟩) :
    ∃ a ρ b, ls = a ++ (ρ, .exec t c r) :: b ∧ ∀ y ∈ b, ¬ Of t y.2 := by
  induction hrun with
  | refl =>
      rw [hquiet t] at hth
      cases hth
  | @snoc ls w w' l hrun hstep ih =>
      have hmove := hstep.threadMove t
      have hwire : (w'.threads t).map Thread.wire = some (.answered r) := by rw [hth]; rfl
      generalize hold : w.threads t = old, hnew : w'.threads t = new at hmove hth hwire
      cases hmove with
      | same hl =>
          rw [hth] at hold
          obtain ⟨a, ρ, b, rfl, hb⟩ := ih hold
          refine ⟨a, ρ, b ++ [(w.now, l)], by simp, ?_⟩
          intro y hy
          rcases List.mem_append.mp hy with hy | hy
          · exact hb y hy
          · obtain rfl := List.mem_singleton.mp hy
            exact hl
      | executed hl =>
          subst hl
          cases hth
          refine ⟨ls, w.now, [], rfl, ?_⟩
          intro y hy
          cases hy
      | _ => cases hwire

omit [DecidableEq T] [DecidableEq Lane] in
/-- An entry after which `t` has taken no step comes after the launch. -/
theorem split_of_quiet {e : ℕ × Label Cmd Rep L T Kind α} {d d' : History Cmd Rep L T Kind α}
    (h : a ++ (τ, .launch t) :: b = d ++ e :: d') (he : e.2 ≠ .launch t)
    (hd' : ∀ y ∈ d', ¬ Of t y.2) : ∃ b₁, b = b₁ ++ e :: d' ∧ d = a ++ (τ, .launch t) :: b₁ := by
  rcases List.append_eq_append_iff.mp h with ⟨f, rfl, hf⟩ | ⟨f, rfl, hf⟩
  · rcases List.cons_eq_append_iff.mp hf with ⟨rfl, hcons⟩ | ⟨b₁, rfl, rfl⟩
    · obtain ⟨rfl, rfl⟩ := List.cons.inj hcons
      exact absurd rfl he
    · exact ⟨b₁, rfl, rfl⟩
  · rcases List.cons_eq_append_iff.mp hf with ⟨rfl, hcons⟩ | ⟨f', rfl, rfl⟩
    · obtain ⟨rfl, rfl⟩ := List.cons.inj hcons
      exact absurd rfl he
    · exact absurd rfl (hd' (τ, .launch t) (by simp))

/-- The server computed a reply to `c` that conveys `r`. -/
def Served (N : Network Cmd Rep L Db Mem T Lane Kind α) (w₀ : World Cmd Rep L Db Mem T Lane α) (t : T)
    (a b : History Cmd Rep L T Kind α) (c : Cmd) (r : Rep) : Prop :=
  ∃ b₁ v v' b₂, b = b₁ ++ (v.now, .exec t c (N.exec v.now v.db c).2) :: b₂ ∧ N.Run w₀ (a ++ b₁) v ∧
    N.Step v (.exec t c (N.exec v.now v.db c).2) v' ∧ N.conveys c (N.exec v.now v.db c).2 r

/-- A local operation was performed with the answer `y`. -/
def Acted (N : Network Cmd Rep L Db Mem T Lane Kind α) (w₀ : World Cmd Rep L Db Mem T Lane α) (t : T)
    (a b : History Cmd Rep L T Kind α) (o : L.Op) (y : L.Ans o) : Prop :=
  ∃ b₁ v v' b₂, b = b₁ ++ (v.now, .act t o y) :: b₂ ∧ N.Run w₀ (a ++ b₁) v ∧
    N.Step v (.act t o y) v'

theorem Run.acted {d : History Cmd Rep L T Kind α} {o : L.Op} {y : L.Ans o}
    (hrun : N.Run w₀ (a ++ b ++ d) w) (he : (⟨.inr o, y⟩ : Event (clientSig Cmd Rep L)) ∈ transcript t b) :
    Acted N w₀ t a b o y := by
  obtain ⟨⟨σ, l⟩, hx, hanswered⟩ := mem_transcript.mp he
  obtain ⟨b₁, b₂, rfl⟩ := List.append_of_mem hx
  rcases answeredBy_eq_some hanswered with ⟨o', y', rfl, h⟩ | ⟨c, r, -, h⟩
  · cases h
    have hsplit : N.Run w₀ ((a ++ b₁) ++ (σ, .act t o y) :: (b₂ ++ d)) w := by simpa using hrun
    obtain ⟨v, v', hv, rfl, hstep, -⟩ := hsplit.step_of_append
    exact ⟨b₁, v, v', b₂, rfl, hv, hstep⟩
  · cases h

theorem Run.served {d : History Cmd Rep L T Kind α} {c : Cmd} {r : Rep}
    (hquiet : ∀ t, w₀.threads t = none) (hrun : N.Run w₀ (a ++ (τ, .launch t) :: b ++ d) w)
    (he : (⟨.inl c, r⟩ : Event (clientSig Cmd Rep L)) ∈ transcript t b) :
    N.garbled c r ∨ Served N w₀ t (a ++ [(τ, .launch t)]) b c r := by
  obtain ⟨⟨σ, l⟩, hx, hanswered⟩ := mem_transcript.mp he
  obtain ⟨b₁, b₂, rfl⟩ := List.append_of_mem hx
  have hsplit : N.Run w₀ ((a ++ (τ, .launch t) :: b₁) ++ (σ, l) :: (b₂ ++ d)) w := by
    simpa using hrun
  obtain ⟨v, v', hv, rfl, hstep, -⟩ := hsplit.step_of_append
  rcases answeredBy_eq_some hanswered with ⟨o, y, -, h⟩ | ⟨c', r', hl, h⟩
  · cases h
  · cases h
    rcases hl with rfl | rfl
    · cases hstep with
      | @deliver _ _ _ r₀ _ hth hconveys =>
          right
          obtain ⟨e, ρ, e', hb, hfree⟩ := hv.executed_of_answered hquiet hth
          obtain ⟨b₀, rfl, rfl⟩ := split_of_quiet hb (by simp) hfree
          have hbefore : N.Run w₀ ((a ++ (τ, .launch t) :: b₀) ++ (ρ, .exec t c r₀) :: e') v := by
            simpa using hv
          obtain ⟨u, u', hu, rfl, hexec, -⟩ := hbefore.step_of_append
          have hreply := hexec
          cases hreply with
          | exec _ _ =>
              refine ⟨b₀, u, _, e' ++ (v.now, .deliver t c r) :: b₂, by simp, ?_, hexec, hconveys⟩
              simpa using hu
    · cases hstep with
      | fail hth hwire hgarbled => exact Or.inl hgarbled

end

end Network

end Effects
