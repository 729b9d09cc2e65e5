import BreezeGateway.RedisAdmission.Reservation

/-!
# The life of a slot token

A token waits with the call that generated it, is on its way to Redis as a stray command, can be
read from the slot key, or has been completed: never more than one of these.
-/

namespace BreezeGateway

open Effects Effects.Network RedisAdmissionProvider

section

variable {Index T F Lane : Type} (key token : String)

def isReservation : Command → Bool
  | .set k value _ => k == key && value == utf8 token
  | _ => false

/-- A call that has generated the token is still to send the reservation, or to have it executed. -/
def MayReserve (s : Story) : Phase Command Reply → Prop
  | .absent => False
  | .running => s.token = some token
  | .sent _ => s.token = some token
  | .answered c r => (s.heard c r).token = some token

def readable (w : AdmissionWorld Index T F Lane) : ℕ :=
  if w.db.strings.read w.now key = some (utf8 token) then 1 else 0

/-- What the token has come to in Redis. -/
def settled (ls : AdmissionHistory Index T) (w : AdmissionWorld Index T F Lane) : ℕ :=
  completions key token ls + readable key token w

section

variable [DecidableEq T]

def Reserving (ls : AdmissionHistory Index T) (w : AdmissionWorld Index T F Lane) (t : T) : Prop :=
  MayReserve token (story t ls) (Phase.of (w.threads t))

open Classical in
/-- What may still become of the token in the hands of the call `t`. -/
noncomputable def pending (lane : T → Lane) (ls : AdmissionHistory Index T)
    (w : AdmissionWorld Index T F Lane) (t : T) : ℕ :=
  w.strayCount (isReservation key token) (lane t) + if Reserving token ls w t then 1 else 0

/-- The token belongs to the call that generated it, and it is in one place at most. -/
structure Once (D : Deployment Index T F Lane) (ls : AdmissionHistory Index T)
    (w : AdmissionWorld Index T F Lane) : Prop where
  mine : ∀ t, Reserving token ls w t → w.mem.used token = some t
  strays : ∀ lane, ∀ x ∈ w.strays lane, isReservation key token x.2 = true →
    w.mem.used token = some x.1 ∧ lane = D.lane x.1
  unused : w.mem.used token = none → settled key token ls w = 0
  once : ∀ t, w.mem.used token = some t →
    settled key token ls w + pending key token D.lane ls w t ≤ 1

end

end

section

variable {Index T F Lane : Type} [DecidableEq T] {D : Deployment Index T F Lane}
  {w₀ w w' : AdmissionWorld Index T F Lane} {ls ls' : AdmissionHistory Index T}
  {l : AdmissionLabel Index T} {key token : String} {t : T} {c : Command} {r : Reply}

/-! ## What happens in Redis -/

omit [DecidableEq T] in
theorem readable_le (h : w'.db.strings.read w'.now key = some (utf8 token) →
    w.db.strings.read w.now key = some (utf8 token)) :
    readable key token w' ≤ readable key token w := by
  unfold readable
  split
  · rename_i hread
    rw [if_pos (h hread)]
  · exact Nat.zero_le _

omit [DecidableEq T] in
theorem readable_le_one : readable key token w ≤ 1 := by
  unfold readable
  split <;> omega

omit [DecidableEq T] in
theorem completions_snoc (x : ℕ × AdmissionLabel Index T) : completions key token (ls ++ [x]) =
    completions key token ls + if completes key token x.2 then 1 else 0 := by
  simp [completions, List.countP_append, List.countP_cons]

theorem isCompletion_iff : isCompletion key token c r = true ↔
    c = .complete key (utf8 token) ∧ r = Db.transitionReply true := by
  simp [isCompletion]

theorem isReservation_iff {k : String} {value : Bytes} {px : ℕ} :
    isReservation key token (.set k value px) = true ↔ k = key ∧ value = utf8 token := by
  simp [isReservation]

theorem read_exec {db : Db} {now : ℕ} (hc : isReservation key token c = false)
    (h : (db.exec now c).1.strings.read now key = some (utf8 token)) :
    db.strings.read now key = some (utf8 token) := by
  cases c with
  | get k => exact h
  | hget k field => exact h
  | hincrby k field n => rwa [strings_hincrby] at h
  | set k value px =>
      rcases Store.read_putIfAbsent le_rfl h with hread | ⟨hk, hv, -⟩
      · exact hread
      · rw [isReservation_iff.mpr ⟨hk.symm, hv.symm⟩] at hc
        cases hc
  | complete k value => exact (Store.read_removeIf le_rfl h).1
  | renew k value px => exact Store.read_extendIf le_rfl h

omit [DecidableEq T] in
theorem settled_exec (hl : completes key token l = isCompletion key token c (w.db.exec w.now c).2)
    (hdb : w'.db = (w.db.exec w.now c).1) (hnow : w'.now = w.now)
    (hc : isReservation key token c = false) :
    settled key token (ls ++ [(w.now, l)]) w' ≤ settled key token ls w := by
  have hle : readable key token w' ≤ readable key token w := by
    apply readable_le
    rw [hdb, hnow]
    exact read_exec hc
  unfold settled
  rw [completions_snoc, hl]
  split
  · rename_i hdone
    obtain ⟨rfl, hr⟩ := isCompletion_iff.mp hdone
    obtain ⟨hread, hgone⟩ := Store.removeIf_true (transitionReply_inj hr)
    have hbefore : readable key token w = 1 := if_pos hread
    have hafter : readable key token w' = 0 := by
      apply if_neg
      rw [hdb, hnow, show (w.db.exec w.now (.complete key (utf8 token))).1.strings = _ from hgone]
      simp [Store.read]
    omega
  · omega

omit [DecidableEq T] in
theorem settled_same (hl : completes key token l = false) (hnow : w.now ≤ w'.now)
    (hkey : w'.db.strings key = w.db.strings key) :
    settled key token (ls ++ [(w.now, l)]) w' ≤ settled key token ls w := by
  have hle : readable key token w' ≤ readable key token w := by
    apply readable_le
    intro hread
    rw [Store.read_of_eq hkey] at hread
    exact Store.read_of_le hread hnow
  unfold settled
  rw [completions_snoc, hl]
  simpa using hle

omit [DecidableEq T] in
theorem completes_of_not_executes (h : ∀ t c r, ¬ Executes t c r l) : completes key token l = false := by
  cases l with
  | exec t c r => exact absurd (Or.inl rfl) (h t c r)
  | stray t c r => exact absurd (Or.inr rfl) (h t c r)
  | _ => rfl

omit [DecidableEq T] in
theorem completes_of_executes (h : Executes t c r l) :
    completes key token l = isCompletion key token c r := by
  rcases h with rfl | rfl
  · rfl
  · rfl

omit [DecidableEq T] in
/-- Only a reservation by the token adds to what the token has come to. -/
theorem KeyStep.settled_le (h : KeyStep D key w w' l)
    (hl : ∀ t c r, Executes t c r l → isReservation key token c = false) :
    settled key token (ls ++ [(w.now, l)]) w' ≤ settled key token ls w := by
  cases h with
  | same hnow hkey hnone => exact settled_same (completes_of_not_executes hnone) hnow hkey
  | exec hissues hexec hdb hnow =>
      exact settled_exec (completes_of_executes hexec) hdb hnow (hl _ _ _ hexec)

omit [DecidableEq T] in
theorem settled_reservation (hexec : Executes t c r l) (hc : isReservation key token c = true) :
    settled key token (ls ++ [(w.now, l)]) w' ≤ completions key token ls + 1 := by
  have hdone : completes key token l = false := by
    rw [completes_of_executes hexec]
    cases c with
    | set k value px => rfl
    | _ => cases hc
  have hle : readable key token w' ≤ 1 := readable_le_one
  unfold settled
  rw [completions_snoc, hdone]
  simp only [Bool.false_eq_true, if_false]
  omega

/-! ## What happens to the token elsewhere -/

omit [DecidableEq T] in
theorem token_heard {s : Story} : (s.heard c r).token = some token → s.token = some token := by
  cases c with
  | set k value px => intro h; cases h
  | _ => exact fun h => h

omit [DecidableEq T] in
theorem token_heard_congr {s : Story} {r' : Reply} :
    (s.heard c r').token = (s.heard c r).token := by
  cases c <;> rfl

/-- The call that sends a reservation by the token has generated the token. -/
theorem token_of_issues {p : RedisAdmissionProvider} {s : Story} {call : Call}
    (h : Issues p s c call) (hc : isReservation key token c = true) : s.token = some token := by
  have hset : ∀ scope, Acquires p scope s c → s.token = some token := by
    intro scope hacquires
    cases c with
    | set k value px =>
        obtain ⟨token', htoken, -, hvalue, -⟩ := hacquires
        have heq : utf8 token' = utf8 token := hvalue ▸ (isReservation_iff.mp hc).2
        rw [htoken, utf8_injective heq]
    | _ => cases hc
  cases call with
  | tryAcquire scope => exact hset scope h.2
  | tryAcquireRequest scope path => exact hset scope h.2
  | complete ticket => cases h; cases hc
  | renew ticket => cases h; cases hc
  | owns ticket => cases h; cases hc

theorem token_heard_of_reservation {s : Story} (hc : isReservation key token c = true) :
    (s.heard c r).token = none := by
  cases c with
  | set k value px => rfl
  | _ => cases hc

theorem Once.move (h : Once key token D ls w)
    (hused : w'.mem.used token = w.mem.used token)
    (hwaits : ∀ s, Reserving token ls' w' s → Reserving token ls w s)
    (hmem : ∀ lane, ∀ x ∈ w'.strays lane, isReservation key token x.2 = true →
      x ∈ w.strays lane ∨ w.mem.used token = some x.1 ∧ lane = D.lane x.1)
    (hsettled : w.mem.used token = none → settled key token ls' w' ≤ settled key token ls w)
    (honce : ∀ s, w.mem.used token = some s →
      settled key token ls' w' + pending key token D.lane ls' w' s ≤ 1) : Once key token D ls' w' where
  mine s hs := by
    rw [hused]
    exact h.mine s (hwaits s hs)
  strays lane x hx hc := by
    rw [hused]
    rcases hmem lane x hx hc with hx | hx
    · exact h.strays lane x hx hc
    · exact hx
  unused hnone := by
    rw [hused] at hnone
    have hzero := h.unused hnone
    have hle := hsettled hnone
    omega
  once s hs := by
    rw [hused] at hs
    exact honce s hs

theorem pending_add_le {lane : T → Lane} {n : ℕ}
    (hstrays : w'.strayCount (isReservation key token) (lane t) + n ≤
      w.strayCount (isReservation key token) (lane t))
    (hwait : Reserving token ls' w' t → Reserving token ls w t) :
    pending key token lane ls' w' t + n ≤ pending key token lane ls w t := by
  classical
  exact add_indicator_le hstrays hwait

theorem Once.keep (h : Once key token D ls w) (hused : w'.mem.used token = w.mem.used token)
    (hwaits : ∀ s, Reserving token ls' w' s → Reserving token ls w s)
    (hmem : ∀ lane, ∀ x ∈ w'.strays lane, isReservation key token x.2 = true → x ∈ w.strays lane)
    (hcount : ∀ lane, w'.strayCount (isReservation key token) lane ≤
      w.strayCount (isReservation key token) lane)
    (hsettled : settled key token ls' w' ≤ settled key token ls w) : Once key token D ls' w' := by
  refine h.move hused hwaits (fun lane x hx hc => Or.inl (hmem lane x hx hc)) (fun _ => hsettled) ?_
  intro s hs
  have honce := h.once s hs
  have hpending := pending_add_le (n := 0) (hcount (D.lane s)) (hwaits s)
  omega

theorem reserving_of_moved {x : ℕ × AdmissionLabel Index T}
    {th : Option (Thread Command Reply (admissionSig Index) CallResult)}
    (hx : ∀ s, s ≠ t → storyAfter s (story s ls) x = story s ls)
    (hthreads : w'.threads = Function.update w.threads t th)
    (hwait : MayReserve token (storyAfter t (story t ls) x) (Phase.of th) → Reserving token ls w t)
    (s : T) (hs : Reserving token (ls ++ [x]) w' s) : Reserving token ls w s := by
  by_cases hst : s = t
  · subst hst
    exact hwait ((Tale.this_thread hthreads).mp hs)
  · exact (Tale.other_threads hx hthreads hst).mp hs

theorem Once.call {x : ℕ × AdmissionLabel Index T}
    {th : Option (Thread Command Reply (admissionSig Index) CallResult)}
    (h : Once key token D ls w) (hx : ∀ s, s ≠ t → storyAfter s (story s ls) x = story s ls)
    (hthreads : w'.threads = Function.update w.threads t th)
    (hused : w'.mem.used token = w.mem.used token) (hstrays : w'.strays = w.strays)
    (hwait : MayReserve token (storyAfter t (story t ls) x) (Phase.of th) → Reserving token ls w t)
    (hsettled : settled key token (ls ++ [x]) w' ≤ settled key token ls w) :
    Once key token D (ls ++ [x]) w' := by
  refine h.keep hused (reserving_of_moved hx hthreads hwait) ?_ ?_ hsettled
  · rw [hstrays]
    exact fun _ _ hx _ => hx
  · intro lane
    rw [World.strayCount_congr hstrays]

theorem Once.take {x : ℕ × AdmissionLabel Index T}
    {th : Option (Thread Command Reply (admissionSig Index) CallResult)}
    (h : Once key token D ls w) (hx : ∀ s, s ≠ t → storyAfter s (story s ls) x = story s ls)
    (hthreads : w'.threads = Function.update w.threads t th)
    (hfresh : w.mem.used token = none) (hused : w'.mem.used token = some t)
    (hstrays : w'.strays = w.strays)
    (hsettled : settled key token (ls ++ [x]) w' ≤ settled key token ls w) :
    Once key token D (ls ++ [x]) w' where
  mine s hs := by
    rw [hused]
    by_contra hne
    have hst : s ≠ t := fun hst => hne (by rw [hst])
    have howner := h.mine s ((Tale.other_threads hx hthreads hst).mp hs)
    rw [hfresh] at howner
    cases howner
  strays lane y hy hc := by
    rw [hstrays] at hy
    have howner := (h.strays lane y hy hc).1
    rw [hfresh] at howner
    cases howner
  unused hnone := by
    rw [hused] at hnone
    cases hnone
  once s hs := by
    have hzero := h.unused hfresh
    have hcount : w'.strayCount (isReservation key token) (D.lane s) = 0 := by
      rw [World.strayCount_congr hstrays]
      refine List.countP_eq_zero.mpr ?_
      intro y hy hc
      have howner := (h.strays _ y hy hc).1
      rw [hfresh] at howner
      cases howner
    have hle : pending key token D.lane (ls ++ [x]) w' s ≤ 1 := by
      unfold pending
      rw [hcount]
      split <;> omega
    omega

/-- The reservation is executed: the token leaves the hands of its call. -/
theorem Once.reserve (h : Once key token D ls w) (hused : w'.mem.used token = w.mem.used token)
    (howner : w.mem.used token = some t)
    (hwaits : ∀ s, Reserving token ls' w' s → Reserving token ls w s)
    (hmem : ∀ lane, ∀ x ∈ w'.strays lane, x ∈ w.strays lane)
    (hsettled : settled key token ls' w' ≤ completions key token ls + 1)
    (hpending : pending key token D.lane ls' w' t + 1 ≤ pending key token D.lane ls w t) :
    Once key token D ls' w' := by
  refine h.move hused hwaits (fun lane x hx _ => Or.inl (hmem lane x hx)) ?_ ?_
  · intro hnone
    rw [howner] at hnone
    cases hnone
  · intro s hs
    obtain rfl : t = s := by
      rw [howner] at hs
      exact Option.some.inj hs
    have honce := h.once t howner
    have hle : completions key token ls ≤ settled key token ls w := Nat.le_add_right _ _
    omega

/-- A call stops waiting for a command: an unexecuted reservation becomes stray. -/
theorem Once.giveUp [DecidableEq Lane] {x : ℕ × AdmissionLabel Index T} {wire : Wire Reply}
    {th : Option (Thread Command Reply (admissionSig Index) CallResult)}
    {k : Reply → Prog (redisSig (admissionSig Index)) CallResult}
    (h : Once key token D ls w) (hth : w.threads t = some ⟨.op (.inl c) k, wire⟩)
    (htoken : isReservation key token c = true → (story t ls).token = some token)
    (hx : ∀ s, s ≠ t → storyAfter s (story s ls) x = story s ls)
    (hthreads : w'.threads = Function.update w.threads t th)
    (hused : w'.mem.used token = w.mem.used token)
    (hstrays : w'.strays = (w.abandon (D.lane t) t c wire).strays)
    (hdone : isReservation key token c = true →
      ¬ MayReserve token (storyAfter t (story t ls) x) (Phase.of th))
    (hwait : MayReserve token (storyAfter t (story t ls) x) (Phase.of th) → Reserving token ls w t)
    (hsettled : settled key token (ls ++ [x]) w' ≤ settled key token ls w) :
    Once key token D (ls ++ [x]) w' := by
  have hwaits := reserving_of_moved hx hthreads hwait
  cases hc : isReservation key token c with
  | false =>
      refine h.keep hused hwaits ?_ ?_ hsettled
      · intro lane y hy hy'
        rw [hstrays] at hy
        rcases World.mem_abandon hy with hy | ⟨-, rfl, -⟩
        · exact hy
        · rw [hc] at hy'
          cases hy'
      · intro lane
        rw [World.strayCount_congr hstrays, World.strayCount_abandon hc]
  | true =>
      by_cases hsent : wire = .sent
      · subst hsent
        have hbefore : Reserving token ls w t := by
          unfold Reserving
          rw [hth]
          exact htoken hc
        have howner := h.mine t hbefore
        have hafter : ¬ Reserving token (ls ++ [x]) w' t := fun hs =>
          hdone hc ((Tale.this_thread hthreads).mp hs)
        refine h.move hused hwaits ?_ (fun _ => hsettled) ?_
        · intro lane y hy _
          rw [hstrays] at hy
          rcases World.mem_abandon hy with hy | ⟨hl, rfl, -⟩
          · exact Or.inl hy
          · exact Or.inr ⟨howner, hl⟩
        · intro s hs
          obtain rfl : t = s := by
            rw [howner] at hs
            exact Option.some.inj hs
          have honce := h.once t howner
          unfold pending at honce ⊢
          rw [if_pos hbefore] at honce
          rw [if_neg hafter, World.strayCount_congr hstrays, World.strayCount_abandon_sent hc]
          omega
      · refine h.call hx hthreads hused ?_ hwait hsettled
        rw [hstrays]
        cases wire with
        | sent => exact absurd rfl hsent
        | _ => rfl

/-! ## Every step -/

section

variable [DecidableEq F]

theorem Once.act {o : AdmissionOp} {y : (admissionSig Index).Ans o} {mem : AdmissionMemory T F}
    {k : (admissionSig Index).Ans o → Prog (redisSig (admissionSig Index)) CallResult}
    (h : Once key token D ls w) (hfresh : D.fresh)
    (hth : w.threads t = some ⟨.op (.inr o) k, .idle⟩) (hact : D.act w.now t w.mem o y mem)
    (hsettled : settled key token (ls ++ [(w.now, .act t o y)])
      { w.setThread t (some ⟨k y, .idle⟩) with mem := mem } ≤ settled key token ls w) :
    Once key token D (ls ++ [(w.now, .act t o y)])
      { w.setThread t (some ⟨k y, .idle⟩) with mem := mem } := by
  have hother : ∀ s, s ≠ t →
      storyAfter s (story s ls) (w.now, (.act t o y : AdmissionLabel Index T)) = story s ls :=
    fun s hs => if_neg hs.symm
  have hnoted : storyAfter t (story t ls) (w.now, (.act t o y : AdmissionLabel Index T)) =
      (story t ls).noted o y := if_pos rfl
  have hcall : mem.used token = w.mem.used token →
      (((story t ls).noted o y).token = some token → (story t ls).token = some token) →
        Once key token D (ls ++ [(w.now, .act t o y)])
          { w.setThread t (some ⟨k y, .idle⟩) with mem := mem } := by
    intro hused htoken
    refine h.call hother rfl hused rfl ?_ hsettled
    rw [hnoted, Phase.of_idle]
    intro hwait
    unfold Reserving
    rw [hth]
    exact htoken hwait
  cases o with
  | isParticipating =>
      obtain rfl : mem = w.mem := hact
      exact hcall rfl fun h => h
  | snapshot =>
      obtain ⟨-, rfl⟩ := hact
      exact hcall rfl fun h => h
  | tryLookup =>
      cases htry : (w.mem.discovery (D.family t)).tryLookup w.now with
      | ok d =>
          simp only [Deployment.act, htry] at hact
          obtain ⟨rfl, rfl⟩ := hact
          exact hcall rfl fun h => h
      | error e =>
          simp only [Deployment.act, htry] at hact
          obtain ⟨rfl, rfl⟩ := hact
          exact hcall rfl fun h => h
  | dropLookup b =>
      obtain rfl : mem = w.mem.release (D.family t) t w.now b := hact
      exact hcall rfl fun h => h
  | randomToken =>
      obtain ⟨hnew, rfl⟩ := hact
      by_cases htoken : acquisitionToken y = token
      · subst htoken
        exact h.take hother rfl (hnew hfresh) (Function.update_self ..) rfl hsettled
      · refine hcall (Function.update_of_ne (Ne.symm htoken) ..) ?_
        intro hwait
        exact absurd (Option.some.inj hwait) htoken

omit [DecidableEq F] in
theorem Once.exec {k : Reply → Prog (redisSig (admissionSig Index)) CallResult}
    (h : Once key token D ls w) (hth : w.threads t = some ⟨.op (.inl c) k, .sent⟩)
    (hpre : Issues (D.provider (D.family t)) (story t ls) c (D.call t))
    (hsettled : isReservation key token c = false →
      settled key token (ls ++ [(w.now, .exec t c (w.db.exec w.now c).2)])
        { w.setThread t (some ⟨.op (.inl c) k, .answered (w.db.exec w.now c).2⟩) with
          db := (w.db.exec w.now c).1 } ≤ settled key token ls w) :
    Once key token D (ls ++ [(w.now, .exec t c (w.db.exec w.now c).2)])
      { w.setThread t (some ⟨.op (.inl c) k, .answered (w.db.exec w.now c).2⟩) with
        db := (w.db.exec w.now c).1 } := by
  cases hc : isReservation key token c with
  | false =>
      refine h.call (fun _ _ => rfl) rfl rfl rfl ?_ (hsettled hc)
      intro hwait
      unfold Reserving
      rw [hth]
      exact token_heard hwait
  | true =>
      have hbefore : Reserving token ls w t := by
        unfold Reserving
        rw [hth]
        exact token_of_issues hpre hc
      have hgone : ∀ r, (((story t ls).heard c r).token = some token) → False := by
        intro r hr
        rw [token_heard_of_reservation hc] at hr
        cases hr
      refine h.reserve rfl (h.mine t hbefore)
        (reserving_of_moved (fun _ _ => rfl) rfl fun hwait => (hgone _ hwait).elim)
        (fun _ _ hx => hx) (settled_reservation (Or.inl rfl) hc) ?_
      have hafter : ¬ Reserving token (ls ++ [(w.now, .exec t c (w.db.exec w.now c).2)])
          { w.setThread t (some ⟨.op (.inl c) k, .answered (w.db.exec w.now c).2⟩) with
            db := (w.db.exec w.now c).1 } t := by
        intro hs
        have hwait := (Tale.this_thread (P := MayReserve token) rfl).mp hs
        exact hgone _ hwait
      unfold pending
      rw [if_pos hbefore, if_neg hafter]
      exact le_rfl

variable [DecidableEq Lane]

omit [DecidableEq F] in
theorem Once.stray {lane : Lane} {cs : List (T × Command)} (h : Once key token D ls w)
    (hstray : w.strays lane = (t, c) :: cs)
    (hsettled : isReservation key token c = false →
      settled key token (ls ++ [(w.now, .stray t c (w.db.exec w.now c).2)])
        { w with db := (w.db.exec w.now c).1, strays := Function.update w.strays lane cs } ≤
          settled key token ls w) :
    Once key token D (ls ++ [(w.now, .stray t c (w.db.exec w.now c).2)])
      { w with db := (w.db.exec w.now c).1, strays := Function.update w.strays lane cs } := by
  have hwaits : ∀ s, Reserving token (ls ++ [(w.now, .stray t c (w.db.exec w.now c).2)])
      { w with db := (w.db.exec w.now c).1, strays := Function.update w.strays lane cs } s →
        Reserving token ls w s := by
    intro s hs
    unfold Reserving at hs ⊢
    rwa [story_snoc] at hs
  cases hc : isReservation key token c with
  | false =>
      exact h.keep rfl hwaits (fun _ _ hx _ => World.mem_of_tail hstray hx)
        (fun _ => World.strayCount_tail_le hstray rfl) (hsettled hc)
  | true =>
      obtain ⟨howner, hlane⟩ := h.strays lane (t, c) (by rw [hstray]; exact List.mem_cons_self) hc
      refine h.reserve rfl howner hwaits (fun _ _ hx => World.mem_of_tail hstray hx)
        (settled_reservation (Or.inr rfl) hc) ?_
      subst hlane
      exact pending_add_le (World.strayCount_tail_lt hstray rfl hc) (hwaits t)

theorem Once.step (h : Once key token D ls w) (hfresh : D.fresh) (hquiet : Quiet w₀)
    (hothers : ∀ now db db', D.others now db db' → db'.strings key = db.strings key)
    (hrun : D.network.Run w₀ ls w) (hstep : D.network.Step w l w') :
    Once key token D (ls ++ [(w.now, l)]) w' := by
  have hkey := KeyStep.of_step hquiet hothers hrun hstep
  have hquietly : (∀ t c r, ¬ Executes t c r l) →
      settled key token (ls ++ [(w.now, l)]) w' ≤ settled key token ls w :=
    fun hl => hkey.settled_le fun t c r hexec => absurd hexec (hl t c r)
  have hsame : (∀ s, storyAfter s (story s ls) (w.now, l) = story s ls) →
      w'.threads = w.threads → ∀ s, Reserving token (ls ++ [(w.now, l)]) w' s →
        Reserving token ls w s := by
    intro hx hthreads s hs
    unfold Reserving at hs ⊢
    rwa [story_snoc, hx s, hthreads] at hs
  cases hstep with
  | tick d =>
      exact h.keep rfl (hsame (fun _ => rfl) rfl) (fun _ _ hx _ => hx) (fun _ => le_rfl)
        (hquietly (by rintro t c r (h | h) <;> cases h))
  | environment hdb =>
      exact h.keep rfl (hsame (fun _ => rfl) rfl) (fun _ _ hx _ => hx) (fun _ => le_rfl)
        (hquietly (by rintro t c r (h | h) <;> cases h))
  | @launch t p mem hidle hl =>
      obtain ⟨rfl, -⟩ := hl
      refine h.call (fun s hs => if_neg hs.symm) rfl rfl rfl ?_
        (hquietly (by rintro t c r (h | h) <;> cases h))
      rw [storyAfter_launch, Phase.of_idle]
      intro hwait
      cases hwait
  | act hth hact => exact h.act hfresh hth hact (hquietly (by rintro t c r (h | h) <;> cases h))
  | @send t c k hth =>
      refine h.call (fun _ _ => rfl) rfl rfl rfl ?_ (hquietly (by rintro t c r (h | h) <;> cases h))
      intro hwait
      unfold Reserving
      rw [hth]
      exact hwait
  | @exec t c k hth hlane =>
      refine h.exec hth (D.obeys hquiet hrun hth).1 fun hc => hkey.settled_le ?_
      rintro u c' r' (hexec | hexec) <;> cases hexec
      exact hc
  | @deliver t c k r r' hth hr =>
      refine h.call (fun s hs => if_neg hs.symm) rfl rfl rfl ?_
        (hquietly (by rintro t c r (h | h) <;> cases h))
      rw [storyAfter_deliver, Phase.of_idle]
      intro hwait
      unfold Reserving
      rw [hth]
      exact token_heard_congr.symm.trans hwait
  | @fail t c k wire r hth hwire hgarbled =>
      have hpre : Issues _ (story t ls) c _ := (D.obeys hquiet hrun hth).1
      have hheard : storyAfter t (story t ls) (w.now, (.fail t c r : AdmissionLabel Index T)) =
          (story t ls).heard c r := if_pos rfl
      have hmem := World.abandon_mem (w.setThread t (some ⟨k r, .idle⟩)) (D.lane t) t c wire
      refine h.giveUp hth (token_of_issues hpre) (fun s hs => if_neg hs.symm)
        (World.abandon_threads ..) ?_ ?_ ?_ ?_ (hquietly (by rintro t c r (h | h) <;> cases h))
      · exact congrFun (congrArg AdmissionMemory.used hmem) token
      · cases wire <;> rfl
      · intro hc
        rw [hheard, Phase.of_idle]
        intro hwait
        have hnone : ((story t ls).heard c r).token = none := token_heard_of_reservation hc
        rw [show ((story t ls).heard c r).token = some token from hwait] at hnone
        cases hnone
      · rw [hheard, Phase.of_idle]
        intro hwait
        unfold Reserving
        rw [hth]
        cases wire with
        | idle => exact absurd rfl hwire
        | sent => exact token_heard hwait
        | answered r₀ => exact token_heard_congr.symm.trans hwait
  | @stray lane t c cs hstray =>
      refine h.stray hstray fun hc => hkey.settled_le ?_
      rintro u c' r' (hexec | hexec) <;> cases hexec
      exact hc
  | @lose lane t c cs hstray =>
      exact h.keep rfl (hsame (fun _ => rfl) rfl) (fun _ _ hx _ => World.mem_of_tail hstray hx)
        (fun _ => World.strayCount_tail_le hstray rfl)
        (hquietly (by rintro t c r (h | h) <;> cases h))
  | @finish t a hth =>
      refine h.call (fun s hs => if_neg hs.symm) rfl rfl rfl (fun hwait => hwait.elim)
        (hquietly (by rintro t c r (h | h) <;> cases h))
  | @cancel t o k wire kind hth ho =>
      have hused : ∀ mem : AdmissionMemory T F,
          (D.network.cancel kind w.now t mem).used token = mem.used token := by
        intro mem
        dsimp only [Deployment.network]
        split <;> rfl
      have hother : ∀ s, s ≠ t → storyAfter s (story s ls)
          (w.now, (.cancel t kind : AdmissionLabel Index T)) = story s ls := fun s hs => if_neg hs.symm
      have hsettled := hquietly (by rintro t c r (h | h) <;> cases h)
      cases o with
      | inl c =>
          refine h.giveUp hth (token_of_issues (D.obeys hquiet hrun hth).1) hother
            (World.abandon_threads ..) (hused w.mem) ?_ (fun _ hwait => hwait)
            (fun hwait => hwait.elim) hsettled
          cases wire <;> rfl
      | inr o => exact h.call hother rfl (hused w.mem) rfl (fun hwait => hwait.elim) hsettled

omit [DecidableEq F] [DecidableEq Lane] in
/-- Before the first call every token in the key counts as used. -/
theorem Once.start (hquiet : Quiet w₀)
    (hseen : w₀.db.strings.read w₀.now key = some (utf8 token) → w₀.mem.used token ≠ none) :
    Once key token D [] w₀ where
  mine t ht := by
    rw [Reserving, hquiet.threads t] at ht
    exact ht.elim
  strays lane x hx := by
    rw [hquiet.strays lane] at hx
    cases hx
  unused hnone := by
    have hread : readable key token w₀ = 0 := if_neg fun hread => hseen hread hnone
    rw [settled, hread]
    rfl
  once t ht := by
    have hcount : w₀.strayCount (isReservation key token) (D.lane t) = 0 := by
      rw [World.strayCount, hquiet.strays]
      rfl
    have hwait : ¬ Reserving token [] w₀ t := by
      rw [Reserving, hquiet.threads t]
      exact fun h => h
    have hread : readable key token w₀ ≤ 1 := readable_le_one
    have hnone : completions key token ([] : AdmissionHistory Index T) = 0 := rfl
    rw [pending, hcount, if_neg hwait, settled, hnone]
    omega

theorem Deployment.once (hfresh : D.fresh) (hquiet : Quiet w₀)
    (hothers : ∀ now db db', D.others now db db' → db'.strings key = db.strings key)
    (hseen : w₀.db.strings.read w₀.now key = some (utf8 token) → w₀.mem.used token ≠ none)
    (hrun : D.network.Run w₀ ls w) : Once key token D ls w := by
  induction hrun with
  | refl => exact .start hquiet hseen
  | snoc hrun hstep ih => exact ih.step hfresh hquiet hothers hrun hstep

theorem completions_le_one (hfresh : D.fresh) (hquiet : Quiet w₀)
    (hothers : ∀ now db db', D.others now db db' → db'.strings key = db.strings key)
    (hseen : w₀.db.strings.read w₀.now key = some (utf8 token) → w₀.mem.used token ≠ none)
    (hrun : D.network.Run w₀ ls w) : completions key token ls ≤ 1 := by
  have h := D.once hfresh hquiet hothers hseen hrun
  have hle : completions key token ls ≤ settled key token ls w := Nat.le_add_right _ _
  cases howner : w.mem.used token with
  | none =>
      have hzero := h.unused howner
      omega
  | some t =>
      have honce := h.once t howner
      omega

/-! ## The result -/

omit [DecidableEq T] [DecidableEq F] [DecidableEq Lane] in
theorem exec_foreign {db : Db} {now : ℕ} {value : Bytes}
    (h : db.strings.read now key ≠ some value) :
    (db.exec now (.complete key value)).1 = db ∧
      ∀ px, (db.exec now (.renew key value px)).1 = db := by
  refine ⟨?_, ?_⟩
  · cases hremove : (db.strings.removeIf now key value).2 with
    | true => exact absurd (Store.removeIf_true hremove).1 h
    | false =>
        simp only [Db.exec]
        rw [(Store.removeIf_false hremove).2]
  · intro px
    cases hextend : (db.strings.extendIf now key value (now + millis px)).2 with
    | true => exact absurd (Store.extendIf_true hextend).1 h
    | false =>
        simp only [Db.exec]
        rw [(Store.extendIf_false hextend).2]

end

end

/-- `owns` answers `true` for the ticket when Redis answers it in this state. -/
def OwnsAt (Index : Type) (p : RedisAdmissionProvider) (ticket : AdmissionTicket) (now : ℕ)
    (db : Db) : Prop :=
  (p.owns ticket : AdmissionTask Index Bool).run.Runs
    [⟨.inl (.get (p.key ticket.scope)), (db.exec now (.get (p.key ticket.scope))).2⟩] (.ok true)

theorem read_of_ownsAt {Index : Type} {p : RedisAdmissionProvider} {ticket : AdmissionTicket}
    {now : ℕ} {db : Db} (h : OwnsAt Index p ticket now db) :
    db.strings.read now (p.key ticket.scope) = some (utf8 ticket.token) := by
  unfold OwnsAt Prog.Runs at h
  simp only [Db.exec] at h
  cases hread : db.strings.read now (p.key ticket.scope) with
  | none =>
      rw [hread] at h
      cases h with
      | op h => cases h
  | some value =>
      rw [hread] at h
      cases h with
      | op h =>
          have hsame := (Prog.runs_ret (a := (.ok (decide (value = utf8 ticket.token)) :
            Except AdmissionError Bool))).mp h
          rw [of_decide_eq_true (Except.ok.inj hsame.2)]

section

variable {Index T F Lane : Type} [DecidableEq T] [DecidableEq F] [DecidableEq Lane]
  {w₀ w : AdmissionWorld Index T F Lane} {ls : AdmissionHistory Index T}

/-- In every run of any calls on a scope whose slot key nobody else writes: at most one ticket owns
the slot; after a reservation or effective renewal the next reservation waits for a completion,
another renewal or the TTL of the provider that made the call; a completion or renewal with a
stale token does nothing; and each token is completed at most once. -/
theorem request_slot_exclusive (D : Deployment Index T F Lane) (keyPrefix scope : String)
    (hfresh : D.fresh)
    (hothers : ∀ now db db', D.others now db db' →
      db'.strings (keyPrefix ++ ":inflight:" ++ scope) = db.strings (keyPrefix ++ ":inflight:" ++ scope))
    (hquiet : Quiet w₀)
    (hseen : ∀ token, w₀.db.strings.read w₀.now (keyPrefix ++ ":inflight:" ++ scope) =
      some (utf8 token) → w₀.mem.used token ≠ none)
    (hrun : D.network.Run w₀ ls w) :
    (∀ p q : RedisAdmissionProvider, ∀ a b : AdmissionTicket,
      p.keyPrefix = keyPrefix → q.keyPrefix = keyPrefix → a.scope = scope → b.scope = scope →
      OwnsAt Index p a w.now w.db → OwnsAt Index q b w.now w.db → a.token = b.token) ∧
    (∀ a b d τ₁ τ₂ l₁ l₂ token token' t u, ls = a ++ (τ₁, l₁) :: (b ++ (τ₂, l₂) :: d) →
      Prolongs (keyPrefix ++ ":inflight:" ++ scope) token t l₁ →
      Reserves (keyPrefix ++ ":inflight:" ++ scope) token' u l₂ →
      (∃ x ∈ b, completes (keyPrefix ++ ":inflight:" ++ scope) token x.2 = true) ∨
      (∃ x ∈ b, ∃ v, Prolongs (keyPrefix ++ ":inflight:" ++ scope) token v x.2) ∨
      τ₁ + millis (D.provider (D.family t)).ttlMs ≤ τ₂) ∧
    ((∀ t c w', D.network.Step w (.send t c) w' → ∀ ticket,
        (D.call t = .complete ticket →
          c = .complete ((D.provider (D.family t)).key ticket.scope) (utf8 ticket.token)) ∧
        (D.call t = .renew ticket →
          c = .renew ((D.provider (D.family t)).key ticket.scope) (utf8 ticket.token)
            (D.provider (D.family t)).ttlMs)) ∧
      ∀ l w' t c r value, D.network.Step w l w' → Executes t c r l →
        w.db.strings.read w.now (keyPrefix ++ ":inflight:" ++ scope) ≠ some value →
        (c = .complete (keyPrefix ++ ":inflight:" ++ scope) value ∨
          ∃ px, c = .renew (keyPrefix ++ ":inflight:" ++ scope) value px) → w'.db = w.db) ∧
    ∀ token, completions (keyPrefix ++ ":inflight:" ++ scope) token ls ≤ 1 := by
  refine ⟨?_, ?_, ⟨?_, ?_⟩, ?_⟩
  · rintro p q a b rfl hq rfl hb ha hb'
    have hread := read_of_ownsAt ha
    have hread' := read_of_ownsAt hb'
    rw [show q.key b.scope = p.key a.scope by rw [RedisAdmissionProvider.key, hq, hb]; rfl,
      hread] at hread'
    exact utf8_injective (Option.some.inj hread')
  · intro a b d τ₁ τ₂ l₁ l₂ token token' t u hls h₁ h₂
    subst hls
    by_cases hcompletes : ∃ x ∈ b, completes (keyPrefix ++ ":inflight:" ++ scope) token x.2 = true
    · exact Or.inl hcompletes
    · by_cases hprolongs : ∃ x ∈ b, ∃ v,
          Prolongs (keyPrefix ++ ":inflight:" ++ scope) token v x.2
      · exact Or.inr (Or.inl hprolongs)
      · refine Or.inr (Or.inr (next_reservation hquiet hothers hrun h₁ h₂ ?_ ?_))
        · intro x hx
          exact eq_false_of_ne_true fun hdone => hcompletes ⟨x, hx, hdone⟩
        · intro x hx v hv
          exact hprolongs ⟨x, hx, v, hv⟩
  · intro t c w' hstep ticket
    cases hstep with
    | send hth =>
        have hissues : Issues _ (story t ls) c (D.call t) := (D.obeys hquiet hrun hth).1
        refine ⟨?_, ?_⟩
        · intro hcall
          rwa [hcall] at hissues
        · intro hcall
          rwa [hcall] at hissues
  · intro l w' t c r value hstep hexec hread hc
    cases KeyStep.of_step hquiet hothers hrun hstep with
    | same hnow hkey hnone => exact absurd hexec (hnone _ _ _)
    | exec hissues hexec' hdb hnow =>
        obtain ⟨-, rfl, -⟩ := hexec.unique hexec'
        obtain ⟨hcomplete, hrenew⟩ := exec_foreign hread
        rw [hdb]
        rcases hc with rfl | ⟨px, rfl⟩
        · exact hcomplete
        · exact hrenew px
  · intro token
    exact completions_le_one hfresh hquiet hothers (hseen token) hrun

end

/-- One call reserves the slot, and the key reads as its token. -/
theorem request_slot_exclusive_solo :
    ∃ ls w, soloDeployment.network.Run (quietWorld (some (utf8 "http://r"))) ls w ∧
      w.db.strings.read w.now "p:inflight:s" = some (utf8 (acquisitionToken (0, 0))) ∧
      ∀ token, completions "p:inflight:s" token ls ≤ 1 := by
  obtain ⟨ls, w, ticket, hrun, -, hread, -⟩ := soloAdmission
  have hall := request_slot_exclusive soloDeployment "p" "s" trivial
    (fun _ _ _ h => h.elim) (quietWorld_quiet _) (fun _ h => by cases h) hrun
  exact ⟨ls, w, hrun, hread, hall.2.2.2⟩

end BreezeGateway
