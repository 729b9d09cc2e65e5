import BreezeGateway.RedisAdmission.Quota

/-!
# The quota bound over all runs
-/

namespace BreezeGateway

open Effects Effects.Network RedisAdmissionProvider

/-! ## Executing commands on the field -/

section

variable {db : Db} {now v : ℕ} {key field : String} {c : Command}

theorem hashes_exec (h : isIncrement key field c = false) :
    (db.exec now c).1.hashes key field = db.hashes key field := by
  cases c with
  | hincrby k f n =>
      have hne : ¬ (k = key ∧ f = field) := by simpa [isIncrement] using h
      have hset : ∀ value, (db.setField k f value).hashes key field = db.hashes key field := by
        intro value
        by_cases hk : key = k
        · subst hk
          have hf : field ≠ f := fun hf => hne ⟨rfl, hf.symm⟩
          simp [Db.setField, hf]
        · simp [Db.setField, hk]
      simp only [Db.exec]
      split
      · rfl
      · split
        · exact hset _
        · rfl
  | _ => rfl

theorem exec_increment (hv : Db.counter (db.hashes key field) = some (v : ℤ)) :
    (Db.counter ((db.exec now (.hincrby key field 1)).1.hashes key field) = some ((v + 1 : ℕ) : ℤ) ∧
      Story.isPositive (db.exec now (.hincrby key field 1)).2 = true) ∨
    ((db.exec now (.hincrby key field 1)).1 = db ∧
      Story.isPositive (db.exec now (.hincrby key field 1)).2 = false) := by
  simp only [Db.exec, hv]
  split
  · left
    constructor
    · simp [Db.setField, Db.counter]
    · simp only [Story.isPositive, decide_eq_true_eq]
      omega
  · right
    exact ⟨rfl, rfl⟩

theorem countIn_exec (hv : Db.counter (db.hashes key field) = some (v : ℤ)) {n : ℕ}
    (hn : Story.countIn (db.exec now (.hget key field)).2 = some n) : n = v := by
  simp only [Db.exec] at hn
  cases hfield : db.hashes key field with
  | none =>
      rw [hfield] at hv hn
      have hzero : (0 : ℤ) = v := Option.some.inj hv
      have hn' : 0 = n := Option.some.inj hn
      omega
  | some value =>
      rw [hfield] at hv hn
      cases value with
      | text bytes => cases hv
      | int m =>
          obtain rfl : m = (v : ℤ) := Option.some.inj hv
          exact parseDigits_decimal hn

theorem isIncrement_iff {n : ℤ} {k f : String} :
    isIncrement key field (.hincrby k f n) = true ↔ k = key ∧ f = field := by
  simp [isIncrement]

end

section

variable {Index T F : Type} [DecidableEq T] [DecidableEq F] [Fintype F] {D : Deployment Index T F F}
  {w₀ w w' : AdmissionWorld Index T F F} {ls : AdmissionHistory Index T}
  {keyPrefix key field : String} {L v v' : ℕ} {t : T} {c : Command} {r r' : Reply} {x : ℕ × AdmissionLabel Index T}
  {th : Option (Thread Command Reply (admissionSig Index) CallResult)}

omit [DecidableEq F] [Fintype F] in
theorem weight_other (hx : ∀ s, s ≠ t → storyAfter s (story s ls) x = story s ls)
    (hthreads : w'.threads = Function.update w.threads t th) {f : F} (hf : f ≠ D.family t)
    (hstrays : w'.strayCount (isIncrement key field) f ≤ w.strayCount (isIncrement key field) f) :
    weight D key field (ls ++ [x]) w' f ≤ weight D key field ls w f := by
  refine weight_le hstrays ?_
  intro s hs hwait
  have hst : s ≠ t := fun hst => hf (by rw [← hs, hst])
  exact (Tale.other_threads hx hthreads hst).mp hwait

omit [Fintype F] in
theorem waits_unique (hquiet : Quiet w₀) (hrun : D.network.Run w₀ ls w) {s : T}
    (ht : Waits key field ls w t) (hs : Waits key field ls w s) (hfamily : D.family s = D.family t) :
    s = t :=
  (D.callFacts hquiet hrun).exclusive.unique s t hfamily (guard_of_mayCount hquiet hrun hs)
    (guard_of_mayCount hquiet hrun ht)

omit [Fintype F] in
theorem no_waits (hquiet : Quiet w₀) (hrun : D.network.Run w₀ ls w) (ht : Waits key field ls w t)
    (hx : ∀ s, s ≠ t → storyAfter s (story s ls) x = story s ls)
    (hthreads : w'.threads = Function.update w.threads t th)
    (hdone : ¬ MayCount key field (storyAfter t (story t ls) x) (Phase.of th)) {s : T}
    (hs : D.family s = D.family t) : ¬ Waits key field (ls ++ [x]) w' s := by
  intro hwait
  by_cases hst : s = t
  · subst hst
    exact hdone ((Tale.this_thread hthreads).mp hwait)
  · exact hst (waits_unique hquiet hrun ht ((Tale.other_threads hx hthreads hst).mp hwait) hs)

theorem Round.raise (hquiet : Quiet w₀) (hrun : D.network.Run w₀ ls w)
    (h : Round D L key field ls w v) (ht : Waits key field ls w t)
    (hx : ∀ s, s ≠ t → storyAfter s (story s ls) x = story s ls)
    (hthreads : w'.threads = Function.update w.threads t th)
    (hdone : ¬ MayCount key field (storyAfter t (story t ls) x) (Phase.of th))
    (hvalue : Db.counter (w'.db.hashes key field) = some ((v + 1 : ℕ) : ℤ))
    (hstrays : w'.strays = w.strays) (hcount : isCounted key field ls x.2 = false) :
    Round D L key field (ls ++ [x]) w' (v + 1) := by
  have hsame : ∀ f, w'.strayCount (isIncrement key field) f =
      w.strayCount (isIncrement key field) f := fun _ => World.strayCount_congr hstrays
  refine h.next (D.family t) (Nat.le_succ v) hvalue ?_ ?_ ?_ ?_
  · rw [hstrays]
    exact h.unit
  · intro f hf
    exact weight_other hx hthreads hf (hsame f).le
  · have hnone : ∀ s, D.family s = D.family t → ¬ Waits key field (ls ++ [x]) w' s := fun s hs =>
      no_waits hquiet hrun ht hx hthreads hdone hs
    rw [weight_of_none hnone, weight_of_waits ht, hsame]
    omega
  · obtain ⟨owed, hall, hcard⟩ := h.covered
    refine ⟨insert t owed, ?_, ?_⟩
    · intro s hs
      by_cases hst : s = t
      · rw [hst]
        exact Finset.mem_insert_self t owed
      · exact Finset.mem_insert_of_mem (hall s ((Tale.other_threads hx hthreads hst).mp hs))
    · have hinsert := Finset.card_insert_le t owed
      rw [acquisitions_snoc, hcount]
      simp only [Bool.false_eq_true, if_false]
      omega

theorem Round.abandon (hquiet : Quiet w₀) (hrun : D.network.Run w₀ ls w)
    (h : Round D L key field ls w v) (ht : Waits key field ls w t)
    (hx : ∀ s, s ≠ t → storyAfter s (story s ls) x = story s ls)
    (hthreads : w'.threads = Function.update w.threads t th)
    (hdone : ¬ MayCount key field (storyAfter t (story t ls) x) (Phase.of th))
    (hdb : w'.db = w.db) (hcount : isCounted key field ls x.2 = false)
    (hstrays : w'.strays = (w.abandon (D.family t) t (.hincrby key field 1) .sent).strays)
    (howed : Credited key field (storyAfter t (story t ls) x) (Phase.of th) → Owed key field ls w t) :
    Round D L key field (ls ++ [x]) w' v := by
  have hself : w'.strayCount (isIncrement key field) (D.family t) =
      w.strayCount (isIncrement key field) (D.family t) + 1 := by
    rw [World.strayCount_congr hstrays, World.strayCount_abandon_sent]
    exact isIncrement_iff.mpr ⟨rfl, rfl⟩
  have hother : ∀ f, f ≠ D.family t → w'.strayCount (isIncrement key field) f =
      w.strayCount (isIncrement key field) f := by
    intro f hf
    rw [World.strayCount_congr hstrays, World.strayCount_abandon_ne hf]
  refine h.next (D.family t) le_rfl ?_ ?_ ?_ ?_ ?_
  · rw [hdb]
    exact h.value
  · intro f y hy n hn
    rw [hstrays] at hy
    rcases World.mem_abandon hy with hy | ⟨-, rfl, -⟩
    · exact h.unit f y hy n hn
    · cases hn
      rfl
  · intro f hf
    exact weight_other hx hthreads hf (hother f hf).le
  · have hnone : ∀ s, D.family s = D.family t → ¬ Waits key field (ls ++ [x]) w' s := fun s hs =>
      no_waits hquiet hrun ht hx hthreads hdone hs
    rw [weight_of_none hnone, weight_of_waits ht, hself]
  · exact h.covered.call hx hthreads hcount howed

omit [DecidableEq F] in
/-- A check that finds room: nobody else of the family may count, and the count is below the
limit. -/
theorem Round.check (h : Round D L key field ls w v)
    (hx : ∀ s, s ≠ t → storyAfter s (story s ls) x = story s ls)
    (hthreads : w'.threads = Function.update w.threads t th) (hroom : v < L)
    (hdb : w'.db = w.db) (hstrays : w'.strays = w.strays) (hlane : w.strays (D.family t) = [])
    (hcovered : Covered key field (ls ++ [x]) w' v) :
    Round D L key field (ls ++ [x]) w' v := by
  have hsame : ∀ f, w'.strayCount (isIncrement key field) f =
      w.strayCount (isIncrement key field) f := fun _ => World.strayCount_congr hstrays
  have halone : ∀ f, weight D key field (ls ++ [x]) w' f ≤ 1 := by
    intro f
    by_cases hf : f = D.family t
    · subst hf
      unfold weight
      rw [hsame]
      unfold World.strayCount
      rw [hlane, List.countP_nil]
      split <;> omega
    · exact (weight_other hx hthreads hf (hsame f).le).trans (h.alone f)
  refine ⟨?_, ?_, halone, ?_, hcovered⟩
  · rw [hdb]
    exact h.value
  · rw [hstrays]
    exact h.unit
  · have hsum : ∑ f, weight D key field (ls ++ [x]) w' f ≤ ∑ _f : F, 1 :=
      Finset.sum_le_sum fun f _ => halone f
    rw [Finset.sum_const, Finset.card_univ, smul_eq_mul, Nat.mul_one] at hsum
    omega

/-! ## Every step keeps the round -/

omit [DecidableEq T] [DecidableEq F] [Fintype F] in
theorem not_positive_of_malformed (h : Malformed c r) (hc : isIncrement key field c = true) :
    Story.isPositive r = false := by
  cases c with
  | hincrby k f n =>
      cases r with
      | error m => rfl
      | ok value =>
          cases value with
          | int m => exact absurd rfl (h m)
          | _ => rfl
  | _ => cases hc

omit [DecidableEq T] [Fintype F] in
theorem unit_abandon
    (h : ∀ f, ∀ x ∈ w.strays f, ∀ n, x.2 = Command.hincrby key field n → n = 1)
    (hc : isIncrement key field c = false) (lane : F) (wire : Wire Reply) :
    ∀ f, ∀ x ∈ (w.abandon lane t c wire).strays f, ∀ n, x.2 = .hincrby key field n → n = 1 := by
  intro f x hx n hn
  rcases World.mem_abandon hx with hx | ⟨-, rfl, -⟩
  · exact h f x hx n hn
  · rw [show c = .hincrby key field n from hn, isIncrement_iff.mpr ⟨rfl, rfl⟩] at hc
    cases hc

omit [DecidableEq T] [Fintype F] in
theorem unit_of_cons {lane : F} {cs : List (T × Command)}
    (h : ∀ f, ∀ x ∈ w.strays f, ∀ n, x.2 = Command.hincrby key field n → n = 1)
    (hstray : w.strays lane = (t, c) :: cs) :
    ∀ f, ∀ x ∈ Function.update w.strays lane cs f, ∀ n, x.2 = .hincrby key field n → n = 1 := by
  intro f x hx
  exact h f x (World.mem_of_tail hstray hx)

/-- What a round assumes of everybody: only acquisitions write the field, and the policies allow
at most `L` cases. -/
structure RoundRules (D : Deployment Index T F F) (L : ℕ) (key field : String) : Prop where
  lane : D.lane = D.family
  garbled : ∀ c r, D.garbled c r → Malformed c r
  limit : ∀ policy, D.policies policy → ∀ n, policy.caseLimit = some n → n ≤ L
  others : ∀ now db db', D.others now db db' → db'.hashes key field = db.hashes key field

omit [DecidableEq T] [DecidableEq F] [Fintype F] in
theorem permits_of_noted {s : Story} {o : AdmissionOp} {y : (admissionSig Index).Ans o}
    (hlawful : Lawful D.policies s) (hpre : (D.contract t).pre s (.inr o))
    (h : Permits key field (s.noted o y)) : Permits key field s := by
  cases o with
  | snapshot =>
      have hfree : s.guarded = false := hpre
      have hnone : (s.noted .snapshot y).count = none := by
        by_contra hcount
        rw [hlawful.guarded hcount] at hfree
        cases hfree
      exact absurd h (not_permits_of_count hnone)
  | tryLookup => cases y <;> exact h
  | dropLookup b => exact absurd h (not_permits_of_count rfl)
  | _ => exact h

omit [DecidableEq T] [DecidableEq F] [Fintype F] in
theorem counted_of_noted {s : Story} {o : AdmissionOp} {y : (admissionSig Index).Ans o} :
    (s.noted o y).counted = s.counted := by
  cases o with
  | tryLookup => cases y <;> rfl
  | _ => rfl

/-- A call that sends an increment has checked the count and not used it, and counts one. -/
theorem permits_of_increment {p : RedisAdmissionProvider} {s : Story} {n : ℤ} {call : Call}
    (h : Issues p s (.hincrby key field n) call) : n = 1 ∧ Permits key field s := by
  cases call with
  | tryAcquire scope =>
      obtain ⟨-, -, hn, count, limit, hcount, hlimit, hlt⟩ := h
      exact ⟨hn, count, limit, hcount, hlimit, hlt⟩
  | tryAcquireRequest scope path =>
      obtain ⟨-, -, hn, count, limit, hcount, hlimit, hlt⟩ := h
      exact ⟨hn, count, limit, hcount, hlimit, hlt⟩
  | _ => cases h

omit [DecidableEq F] [Fintype F] in
theorem Waits.of_thread
    (hth : w.threads t = th) : Waits key field ls w t ↔ MayCount key field (story t ls) (Phase.of th) := by
  unfold Waits
  rw [hth]

omit [DecidableEq F] [Fintype F] in
theorem Owed.of_thread
    (hth : w.threads t = th) : Owed key field ls w t ↔ Credited key field (story t ls) (Phase.of th) := by
  unfold Owed
  rw [hth]

omit [DecidableEq F] in
theorem Round.launch {p : Prog (redisSig (admissionSig Index)) CallResult} {mem : AdmissionMemory T F}
    (h : Round D L key field ls w v) : Round D L key field (ls ++ [(w.now, .launch t)])
      { w.setThread t (some ⟨p, .idle⟩) with mem := mem } v := by
  have hstart : storyAfter t (story t ls) (w.now, (.launch t : AdmissionLabel Index T)) = .start :=
    if_pos rfl
  refine h.call (fun s hs => if_neg hs.symm) rfl rfl (fun _ => le_rfl) h.unit ?_ ?_
  · rw [hstart, Phase.of_idle]
    exact fun hpermits => absurd hpermits (not_permits_of_count rfl)
  · refine h.covered.call (fun s hs => if_neg hs.symm) rfl rfl ?_
    rw [hstart, Phase.of_idle]
    intro hcredited
    cases hcredited

theorem Round.act {o : AdmissionOp} {y : (admissionSig Index).Ans o} {mem : AdmissionMemory T F}
    {k : (admissionSig Index).Ans o → Prog (redisSig (admissionSig Index)) CallResult}
    (hquiet : Quiet w₀) (hrun : D.network.Run w₀ ls w) (h : Round D L key field ls w v)
    (hth : w.threads t = some ⟨.op (.inr o) k, .idle⟩) :
    Round D L key field (ls ++ [(w.now, .act t o y)])
      { w.setThread t (some ⟨k y, .idle⟩) with mem := mem } v := by
  have hnoted : storyAfter t (story t ls) (w.now, (.act t o y : AdmissionLabel Index T)) =
      (story t ls).noted o y := if_pos rfl
  have hpre : (D.contract t).pre (story t ls) (.inr o) := (D.obeys hquiet hrun hth).1
  refine h.call (fun s hs => if_neg hs.symm) rfl rfl (fun _ => le_rfl) h.unit ?_ ?_
  · rw [hnoted, Phase.of_idle, Waits.of_thread hth]
    exact permits_of_noted (D.lawful hquiet hrun t) hpre
  · refine h.covered.call (fun s hs => if_neg hs.symm) rfl rfl ?_
    rw [hnoted, Phase.of_idle, Owed.of_thread hth]
    intro hcredited
    exact counted_of_noted.symm.trans hcredited

variable {k : Reply → Prog (redisSig (admissionSig Index)) CallResult}

omit [DecidableEq F] in
theorem Round.send (h : Round D L key field ls w v)
    (hth : w.threads t = some ⟨.op (.inl c) k, .idle⟩) :
    Round D L key field (ls ++ [(w.now, .send t c)])
      (w.setThread t (some ⟨.op (.inl c) k, .sent⟩)) v := by
  refine h.call (fun _ _ => rfl) rfl rfl (fun _ => le_rfl) h.unit ?_ ?_
  · rw [Waits.of_thread hth]
    exact fun hwait => hwait
  · refine h.covered.call (fun _ _ => rfl) rfl rfl ?_
    rw [Owed.of_thread hth]
    exact fun howed => howed

theorem Round.execIncrement (hquiet : Quiet w₀) (hrun : D.network.Run w₀ ls w)
    (h : Round D L key field ls w v)
    (hth : w.threads t = some ⟨.op (.inl (.hincrby key field 1)) k, .sent⟩)
    (hpermits : Permits key field (story t ls)) :
    ∃ v', Round D L key field
      (ls ++ [(w.now, .exec t (.hincrby key field 1) (w.db.exec w.now (.hincrby key field 1)).2)])
      { w.setThread t (some ⟨.op (.inl (.hincrby key field 1)) k,
          .answered (w.db.exec w.now (.hincrby key field 1)).2⟩) with
        db := (w.db.exec w.now (.hincrby key field 1)).1 } v' := by
  have hwait : Waits key field ls w t := (Waits.of_thread hth).mpr hpermits
  rcases exec_increment h.value with ⟨hvalue, -⟩ | ⟨hdb, hnegative⟩
  · exact ⟨v + 1, h.raise hquiet hrun hwait (fun _ _ => rfl) rfl (not_permits_of_count rfl) hvalue
      rfl rfl⟩
  · refine ⟨v, h.call (fun _ _ => rfl) rfl ?_ (fun _ => le_rfl) h.unit (fun _ => hwait) ?_⟩
    · exact congrFun (congrFun (congrArg Db.hashes hdb) key) field
    · refine h.covered.call (fun _ _ => rfl) rfl rfl ?_
      intro hcredited
      apply (Owed.of_thread hth).mpr
      rcases hcredited with hcounted | ⟨-, hpositive⟩
      · exact hcounted
      · rw [hnegative] at hpositive
        cases hpositive

/-- Any other command of a call is executed; the lookup of the field may permit an increment. -/
theorem Round.execOther (hquiet : Quiet w₀) (hrun : D.network.Run w₀ ls w)
    (hrules : RoundRules D L key field) (h : Round D L key field ls w v)
    (hth : w.threads t = some ⟨.op (.inl c) k, .sent⟩) (hlane : w.strays (D.family t) = [])
    (hc : isIncrement key field c = false) :
    Round D L key field (ls ++ [(w.now, .exec t c (w.db.exec w.now c).2)])
      { w.setThread t (some ⟨.op (.inl c) k, .answered (w.db.exec w.now c).2⟩) with
        db := (w.db.exec w.now c).1 } v := by
  have hcovered : Covered key field (ls ++ [(w.now, .exec t c (w.db.exec w.now c).2)])
      { w.setThread t (some ⟨.op (.inl c) k, .answered (w.db.exec w.now c).2⟩) with
        db := (w.db.exec w.now c).1 } v := by
    refine h.covered.call (fun _ _ => rfl) rfl rfl ?_
    intro hcredited
    apply (Owed.of_thread hth).mpr
    rcases hcredited with hcounted | ⟨hc', -⟩
    · exact hcounted
    · rw [hc] at hc'
      cases hc'
  by_cases hpermits : Permits key field ((story t ls).heard c (w.db.exec w.now c).2)
  · by_cases hbefore : Permits key field (story t ls)
    · refine h.call (fun _ _ => rfl) rfl (hashes_exec hc) (fun _ => le_rfl) h.unit (fun _ => ?_)
        hcovered
      exact (Waits.of_thread hth).mpr hbefore
    · have hroom : v < L ∧ (w.db.exec w.now c).1 = w.db := by
        obtain ⟨count, limit, hcount, hlimit, hlt⟩ := hpermits
        rw [Story.heard_limit] at hlimit
        cases c with
        | hget k' f =>
            obtain ⟨n, hn, heq⟩ := Option.map_eq_some_iff.mp hcount
            obtain ⟨rfl, hf⟩ := Prod.mk.inj heq
            obtain ⟨rfl, rfl⟩ := Prod.mk.inj hf
            obtain ⟨policy, hpolicy, hcase⟩ := (D.lawful hquiet hrun t).limit limit hlimit
            have hle : limit ≤ L := hrules.limit policy hpolicy limit hcase
            have hv : n = v := countIn_exec h.value hn
            exact ⟨by omega, rfl⟩
        | hincrby k' f n => cases hcount
        | _ => exact absurd ⟨count, limit, hcount, hlimit, hlt⟩ hbefore
      exact h.check (fun _ _ => rfl) rfl hroom.1 hroom.2 rfl hlane hcovered
  · exact h.call (fun _ _ => rfl) rfl (hashes_exec hc) (fun _ => le_rfl) h.unit
      (fun hwait => absurd hwait hpermits) hcovered

omit [DecidableEq F] in
theorem Round.deliver (h : Round D L key field ls w v)
    (hth : w.threads t = some ⟨.op (.inl c) k, .answered r⟩) (hr : Conveys c r r') :
    Round D L key field (ls ++ [(w.now, .deliver t c r')])
      (w.setThread t (some ⟨k r', .idle⟩)) v := by
  have hheard : storyAfter t (story t ls) (w.now, (.deliver t c r' : AdmissionLabel Index T)) =
      (story t ls).heard c r' := if_pos rfl
  refine h.call (fun s hs => if_neg hs.symm) rfl rfl (fun _ => le_rfl) h.unit ?_ ?_
  · rw [hheard, Phase.of_idle, Waits.of_thread hth]
    exact (permits_of_conveys hr).mp
  · refine h.covered.call (fun s hs => if_neg hs.symm) rfl rfl ?_
    rw [hheard, Phase.of_idle, Owed.of_thread hth]
    intro hcredited
    have hcounted := counted_of_heard hcredited
    rwa [isPositive_of_conveys hr] at hcounted

/-- A call stops waiting for a command: an unexecuted increment of its family becomes stray. -/
theorem Round.giveUp (hquiet : Quiet w₀) (hrun : D.network.Run w₀ ls w)
    (h : Round D L key field ls w v) {wire : Wire Reply}
    (hth : w.threads t = some ⟨.op (.inl c) k, wire⟩) (hpre : Issues (D.provider (D.family t))
      (story t ls) c (D.call t))
    (hx : ∀ s, s ≠ t → storyAfter s (story s ls) x = story s ls)
    (hthreads : w'.threads = Function.update w.threads t th)
    (hdb : w'.db = w.db)
    (hstrays : w'.strays = (w.abandon (D.family t) t c wire).strays)
    (hcount : isCounted key field ls x.2 = false)
    (hdone : isIncrement key field c = true →
      ¬ MayCount key field (storyAfter t (story t ls) x) (Phase.of th))
    (hwaits : MayCount key field (storyAfter t (story t ls) x) (Phase.of th) →
      Waits key field ls w t)
    (howed : Credited key field (storyAfter t (story t ls) x) (Phase.of th) → Owed key field ls w t) :
    Round D L key field (ls ++ [x]) w' v := by
  have hhashes : w'.db.hashes key field = w.db.hashes key field := by rw [hdb]
  have hcovered := h.covered.call hx hthreads hcount howed
  by_cases hsent : wire = .sent
  · subst hsent
    cases hc : isIncrement key field c with
    | true =>
        cases c with
        | hincrby k' f n =>
            obtain ⟨rfl, rfl⟩ := isIncrement_iff.mp hc
            obtain ⟨rfl, hpermits⟩ := permits_of_increment hpre
            exact h.abandon hquiet hrun ((Waits.of_thread hth).mpr hpermits) hx hthreads (hdone hc)
              hdb hcount hstrays howed
        | _ => cases hc
    | false =>
        refine h.call hx hthreads hhashes ?_ ?_ hwaits hcovered
        · intro f
          rw [World.strayCount_congr hstrays, World.strayCount_abandon hc]
        · rw [hstrays]
          exact unit_abandon h.unit hc _ _
  · have hsame : w'.strays = w.strays := by
      rw [hstrays]
      cases wire with
      | sent => exact absurd rfl hsent
      | _ => rfl
    refine h.call hx hthreads hhashes ?_ ?_ hwaits hcovered
    · intro f
      rw [World.strayCount_congr hsame]
    · rw [hsame]
      exact h.unit

theorem Round.fail (hquiet : Quiet w₀) (hrun : D.network.Run w₀ ls w)
    (hrules : RoundRules D L key field) (h : Round D L key field ls w v) {wire : Wire Reply}
    (hth : w.threads t = some ⟨.op (.inl c) k, wire⟩) (hwire : wire ≠ .idle)
    (hgarbled : D.garbled c r) :
    Round D L key field (ls ++ [(w.now, .fail t c r)])
      ((w.setThread t (some ⟨k r, .idle⟩)).abandon (D.lane t) t c wire) v := by
  have hmalformed := hrules.garbled c r hgarbled
  have hheard : storyAfter t (story t ls) (w.now, (.fail t c r : AdmissionLabel Index T)) =
      (story t ls).heard c r := if_pos rfl
  rw [congrFun hrules.lane t]
  refine h.giveUp hquiet hrun hth (D.obeys hquiet hrun hth).1 (fun s hs => if_neg hs.symm)
    (World.abandon_threads ..) (World.abandon_db ..) ?_ rfl ?_ ?_ ?_
  · cases wire <;> rfl
  · intro hc
    rw [hheard, Phase.of_idle]
    cases c with
    | hincrby k' f n => exact not_permits_of_count rfl
    | _ => cases hc
  · rw [hheard, Phase.of_idle, Waits.of_thread hth]
    intro hpermits
    obtain ⟨hbefore, hany⟩ := permits_of_malformed hmalformed hpermits
    cases wire with
    | idle => exact absurd rfl hwire
    | sent => exact hbefore
    | answered r₀ => exact hany r₀
  · rw [hheard, Phase.of_idle, Owed.of_thread hth]
    intro hcredited
    have hcounted : (story t ls).counted = some (key, field) := by
      rcases counted_of_heard hcredited with hcounted | ⟨hc, hpositive⟩
      · exact hcounted
      · rw [not_positive_of_malformed hmalformed hc] at hpositive
        cases hpositive
    cases wire with
    | idle => exact absurd rfl hwire
    | sent => exact hcounted
    | answered r₀ => exact Or.inl hcounted

theorem Round.cancel (hquiet : Quiet w₀) (hrun : D.network.Run w₀ ls w)
    (hrules : RoundRules D L key field) (h : Round D L key field ls w v) {wire : Wire Reply}
    {o : Command ⊕ AdmissionOp} {mem : AdmissionMemory T F} {kind : Unit}
    {k : (redisSig (admissionSig Index)).Ans o → Prog (redisSig (admissionSig Index)) CallResult}
    (hth : w.threads t = some ⟨.op o k, wire⟩) :
    Round D L key field (ls ++ [(w.now, .cancel t kind)])
      { (w.setThread t none).abandonOp (L := admissionSig Index) (D.lane t) t wire o with
        mem := mem } v := by
  have hstart : storyAfter t (story t ls) (w.now, (.cancel t kind : AdmissionLabel Index T)) =
      .start := if_pos rfl
  have hother : ∀ s, s ≠ t →
      storyAfter s (story s ls) (w.now, (.cancel t kind : AdmissionLabel Index T)) = story s ls :=
    fun s hs => if_neg hs.symm
  have howed : Credited key field
      (storyAfter t (story t ls) (w.now, (.cancel t kind : AdmissionLabel Index T)))
      (Phase.of (none : Option (Thread Command Reply (admissionSig Index) CallResult))) →
        Owed key field ls w t := by
    rw [hstart, Phase.of_none]
    intro hcredited
    cases hcredited
  rw [congrFun hrules.lane t]
  cases o with
  | inl c =>
      refine h.giveUp hquiet hrun hth (D.obeys hquiet hrun hth).1 hother
        (World.abandon_threads ..) (World.abandon_db ..) ?_ rfl (fun _ hwait => hwait)
        (fun hwait => hwait.elim) howed
      cases wire <;> rfl
  | inr o =>
      exact h.call hother rfl rfl (fun _ => le_rfl) h.unit (fun hwait => hwait.elim)
        (h.covered.call hother rfl rfl howed)

theorem Round.strayIncrement (h : Round D L key field ls w v) {lane : F} {cs : List (T × Command)}
    (hstray : w.strays lane = (t, .hincrby key field 1) :: cs) :
    ∃ v', Round D L key field
      (ls ++ [(w.now, .stray t (.hincrby key field 1) (w.db.exec w.now (.hincrby key field 1)).2)])
      { w with
        db := (w.db.exec w.now (.hincrby key field 1)).1
        strays := Function.update w.strays lane cs } v' := by
  have hunit := unit_of_cons h.unit hstray
  have hwaits : ∀ s, Waits key field
      (ls ++ [(w.now, .stray t (.hincrby key field 1) (w.db.exec w.now (.hincrby key field 1)).2)])
      { w with
        db := (w.db.exec w.now (.hincrby key field 1)).1
        strays := Function.update w.strays lane cs } s → Waits key field ls w s := by
    intro s hwait
    unfold Waits at hwait ⊢
    rwa [story_snoc] at hwait
  rcases exec_increment h.value with ⟨hvalue, -⟩ | ⟨hdb, -⟩
  · refine ⟨v + 1, h.next lane (Nat.le_succ v) hvalue hunit ?_ ?_ ?_⟩
    · intro f hf
      exact weight_le (World.strayCount_tail_le hstray rfl) fun s _ => hwaits s
    · rw [Nat.add_assoc, Nat.add_comm 1]
      apply Nat.add_le_add_left
      exact weight_add_le (World.strayCount_tail_lt hstray rfl (isIncrement_iff.mpr ⟨rfl, rfl⟩))
        fun s _ => hwaits s
    · obtain ⟨owed, hall, hcard⟩ := h.covered
      refine ⟨owed, ?_, ?_⟩
      · intro s hs
        apply hall s
        unfold Owed at hs ⊢
        rwa [story_snoc] at hs
      · rw [acquisitions_snoc]
        exact Nat.le_succ_of_le hcard
  · refine ⟨v, h.still (fun _ => rfl) rfl ?_ (fun _ => World.strayCount_tail_le hstray rfl) hunit rfl⟩
    exact congrFun (congrFun (congrArg Db.hashes hdb) key) field

omit [DecidableEq F] in
/-- A call returns; a ticket that has been counted is now also an outcome. -/
theorem Round.finish (h : Round D L key field ls w v) {a : CallResult} {mem : AdmissionMemory T F}
    (hth : w.threads t = some ⟨.ret a, .idle⟩) :
    Round D L key field (ls ++ [(w.now, .finish t a)])
      { w.setThread t none with mem := mem } v := by
  have hother : ∀ s, s ≠ t →
      storyAfter s (story s ls) (w.now, (.finish t a : AdmissionLabel Index T)) = story s ls :=
    fun s hs => if_neg hs.symm
  have hstart : storyAfter t (story t ls) (w.now, (.finish t a : AdmissionLabel Index T)) =
      .start := if_pos rfl
  refine h.call hother rfl rfl (fun _ => le_rfl) h.unit (fun hwait => hwait.elim) ?_
  cases hcounted : isCounted key field ls (.finish t a : AdmissionLabel Index T) with
  | false =>
      refine h.covered.call hother rfl hcounted ?_
      rw [hstart, Phase.of_none]
      intro hcredited
      cases hcredited
  | true =>
      have howed : Owed key field ls w t := by
        apply (Owed.of_thread hth).mpr
        rw [Phase.of_idle]
        unfold isCounted at hcounted
        split at hcounted
        · rename_i heq
          cases heq
          exact eq_of_beq hcounted
        · cases hcounted
      obtain ⟨owed, hall, hcard⟩ := h.covered
      refine ⟨owed.erase t, ?_, ?_⟩
      · intro s hs
        have hst : s ≠ t := by
          intro hst
          subst hst
          have hcredited := (Tale.this_thread (P := Credited key field) rfl).mp hs
          change Credited key field (storyAfter s (story s ls) _) _ at hcredited
          rw [hstart] at hcredited
          cases hcredited
        exact Finset.mem_erase.mpr
          ⟨hst, hall s ((Tale.other_threads (P := Credited key field) hother rfl hst).mp hs)⟩
      · rw [acquisitions_snoc, hcounted, if_pos rfl]
        have herase := Finset.card_erase_of_mem (hall t howed)
        have hpos := Finset.card_pos.mpr ⟨t, hall t howed⟩
        omega

theorem Round.step (hquiet : Quiet w₀) (hrun : D.network.Run w₀ ls w)
    (hrules : RoundRules D L key field) (h : Round D L key field ls w v)
    {l : AdmissionLabel Index T} (hstep : D.network.Step w l w') :
    ∃ v', Round D L key field (ls ++ [(w.now, l)]) w' v' := by
  cases hstep with
  | tick d => exact ⟨v, h.still (fun _ => rfl) rfl rfl (fun _ => le_rfl) h.unit rfl⟩
  | environment hothers =>
      exact ⟨v, h.still (fun _ => rfl) rfl (hrules.others _ _ _ hothers) (fun _ => le_rfl) h.unit rfl⟩
  | launch hidle hl => exact ⟨v, h.launch⟩
  | act hth hact => exact ⟨v, h.act hquiet hrun hth⟩
  | send hth => exact ⟨v, h.send hth⟩
  | @exec t c k hth hlane =>
      cases hc : isIncrement key field c with
      | true =>
          cases c with
          | hincrby k' f n =>
              obtain ⟨rfl, rfl⟩ := isIncrement_iff.mp hc
              obtain ⟨rfl, hpermits⟩ := permits_of_increment (D.obeys hquiet hrun hth).1
              exact h.execIncrement hquiet hrun hth hpermits
          | _ => cases hc
      | false =>
          have hlane' : w.strays (D.lane t) = [] := hlane
          rw [congrFun hrules.lane t] at hlane'
          exact ⟨v, h.execOther hquiet hrun hrules hth hlane' hc⟩
  | deliver hth hr => exact ⟨v, h.deliver hth hr⟩
  | fail hth hwire hgarbled => exact ⟨v, h.fail hquiet hrun hrules hth hwire hgarbled⟩
  | @stray lane t c cs hstray =>
      cases hc : isIncrement key field c with
      | true =>
          cases c with
          | hincrby k' f n =>
              obtain ⟨rfl, rfl⟩ := isIncrement_iff.mp hc
              obtain rfl : n = 1 := h.unit lane (t, .hincrby k' f n)
                (by rw [hstray]; exact List.mem_cons_self) n rfl
              exact h.strayIncrement hstray
          | _ => cases hc
      | false =>
          exact ⟨v, h.still (fun _ => rfl) rfl (hashes_exec hc)
            (fun _ => World.strayCount_tail_le hstray rfl) (unit_of_cons h.unit hstray) rfl⟩
  | lose hstray =>
      exact ⟨v, h.still (fun _ => rfl) rfl rfl (fun _ => World.strayCount_tail_le hstray rfl)
        (unit_of_cons h.unit hstray) rfl⟩
  | finish hth => exact ⟨v, h.finish hth⟩
  | cancel hth ho => exact ⟨v, h.cancel hquiet hrun hrules hth⟩

omit [DecidableEq F] [Fintype F] in
theorem weight_of_quiet (hquiet : Quiet w₀) {f : F} : weight D key field [] w₀ f = 0 := by
  rw [weight_of_none]
  · unfold World.strayCount
    rw [hquiet.strays f]
    rfl
  · intro t _ hwait
    exact (Waits.of_thread (hquiet.threads t)).mp hwait

omit [DecidableEq F] in
theorem Round.start (hquiet : Quiet w₀) (hzero : Db.counter (w₀.db.hashes key field) = some 0) :
    Round D L key field [] w₀ 0 where
  value := hzero
  unit f x hx := by
    rw [hquiet.strays f] at hx
    cases hx
  alone f := by
    rw [weight_of_quiet hquiet]
    exact Nat.zero_le 1
  bound := by
    rw [Finset.sum_eq_zero fun f _ => weight_of_quiet hquiet]
    exact Nat.zero_le _
  covered := by
    refine ⟨∅, ?_, le_rfl⟩
    intro t ht
    have hcredited := (Owed.of_thread (hquiet.threads t)).mp ht
    cases hcredited

theorem Deployment.round (hquiet : Quiet w₀) (hrules : RoundRules D L key field)
    (hzero : Db.counter (w₀.db.hashes key field) = some 0) (hrun : D.network.Run w₀ ls w) :
    ∃ v, Round D L key field ls w v := by
  induction hrun with
  | refl => exact ⟨0, .start hquiet hzero⟩
  | snoc hrun hstep ih =>
      obtain ⟨v, h⟩ := ih
      exact h.step hquiet hrun hrules hstep

end

end BreezeGateway
