import BreezeGateway.RedisAdmission.ProviderNetwork

/-!
# Bounded quota overshoot

Between the check of a count and the increment that follows it a family weighs one: it holds a
permit, or an increment of it is stray.  The count and all weights together never exceed the limit
by more than the number of families less one.
-/

namespace BreezeGateway

open Effects Effects.Network RedisAdmissionProvider

section

variable {Index T F : Type} [DecidableEq T] [DecidableEq F]

/-! ## Counting outcomes -/

/-- After the history `ls`, the label returns a ticket to a call that raised this field. -/
def isCounted (key field : String) (ls : AdmissionHistory Index T) :
    AdmissionLabel Index T → Bool
  | .finish t (.outcome (.ok (.acquired _))) => (story t ls).counted == some (key, field)
  | _ => false

def tallyAfter (key field : String) (acc : AdmissionHistory Index T × ℕ)
    (x : ℕ × AdmissionLabel Index T) : AdmissionHistory Index T × ℕ :=
  (acc.1 ++ [x], acc.2 + if isCounted key field acc.1 x.2 then 1 else 0)

/-- The number of `Acquired` outcomes counted on the field. -/
def acquisitions (key field : String) (ls : AdmissionHistory Index T) : ℕ :=
  (ls.foldl (tallyAfter key field) ([], 0)).2

omit [DecidableEq F] in
theorem tally_history (key field : String) (ls : AdmissionHistory Index T) :
    (ls.foldl (tallyAfter key field) ([], 0)).1 = ls := by
  induction ls using List.reverseRecOn with
  | nil => rfl
  | append_singleton ls x ih =>
      rw [List.foldl_append, List.foldl_cons, List.foldl_nil]
      simp only [tallyAfter]
      rw [ih]

theorem acquisitions_snoc (key field : String) (ls : AdmissionHistory Index T)
    (x : ℕ × AdmissionLabel Index T) :
    acquisitions key field (ls ++ [x]) =
      acquisitions key field ls + if isCounted key field ls x.2 then 1 else 0 := by
  unfold acquisitions
  rw [List.foldl_append, List.foldl_cons, List.foldl_nil]
  simp only [tallyAfter]
  rw [tally_history]

/-! ## Permits -/

section

variable (key field : String)

def isIncrement : Command → Bool
  | .hincrby k f _ => k == key && f == field
  | _ => false

/-- The last count read is below the limit and has not been used. -/
def Permits (s : Story) : Prop :=
  ∃ count limit, s.count = some (key, field, count) ∧ s.limit = some limit ∧ count < limit

/-- The increment of a call is still to come. -/
def MayCount (s : Story) : Phase Command Reply → Prop
  | .absent => False
  | .running => Permits key field s
  | .sent _ => Permits key field s
  | .answered c r => Permits key field (s.heard c r)

/-- The increment of a call has been executed. -/
def Credited (s : Story) : Phase Command Reply → Prop
  | .answered c r =>
      s.counted = some (key, field) ∨ isIncrement key field c = true ∧ Story.isPositive r = true
  | _ => s.counted = some (key, field)

variable {key field} {s : Story} {c : Command} {r r' : Reply}

theorem not_permits_of_count (h : s.count = none) : ¬ Permits key field s := by
  intro ⟨count, limit, hcount, _⟩
  rw [h] at hcount
  cases hcount

theorem permits_congr {s' : Story} (hcount : s'.count = s.count) (hlimit : s'.limit = s.limit) :
    Permits key field s' ↔ Permits key field s := by
  unfold Permits
  rw [hcount, hlimit]

theorem countIn_of_conveys (h : Conveys c r r') : Story.countIn r' = Story.countIn r := by
  rcases h with rfl | ⟨rfl, rfl⟩
  · rfl
  · rfl

theorem isPositive_of_conveys (h : Conveys c r r') : Story.isPositive r' = Story.isPositive r := by
  rcases h with rfl | ⟨rfl, rfl⟩
  · rfl
  · rfl

theorem permits_of_conveys (h : Conveys c r r') :
    Permits key field (s.heard c r') ↔ Permits key field (s.heard c r) := by
  have hin := countIn_of_conveys h
  apply permits_congr
  · cases c <;> simp [Story.heard, hin]
  · simp

theorem countIn_of_malformed {k f : String} (h : Malformed (.hget k f) r) :
    Story.countIn r = none := by
  unfold Malformed at h
  unfold Story.countIn
  split
  · exact absurd rfl h.1
  · rename_i bytes
    exact absurd rfl (h.2 bytes)
  · rfl

theorem permits_of_malformed (h : Malformed c r) (hp : Permits key field (s.heard c r)) :
    Permits key field s ∧ ∀ r', Permits key field (s.heard c r') := by
  cases c with
  | hget k f =>
      refine absurd hp (not_permits_of_count ?_)
      simp [Story.heard, countIn_of_malformed h]
  | hincrby k f n => exact absurd hp (not_permits_of_count rfl)
  | get k => exact ⟨hp, fun _ => hp⟩
  | set k v px => exact ⟨hp, fun _ => hp⟩
  | complete k v => exact ⟨hp, fun _ => hp⟩
  | renew k v px => exact ⟨hp, fun _ => hp⟩

theorem counted_of_heard (h : (s.heard c r).counted = some (key, field)) :
    s.counted = some (key, field) ∨ isIncrement key field c = true ∧ Story.isPositive r = true := by
  cases c with
  | hincrby k f n =>
      simp only [Story.heard] at h
      split at h
      · rename_i hpos
        obtain ⟨rfl, rfl⟩ := Prod.mk.inj (Option.some.inj h)
        exact Or.inr ⟨by simp [isIncrement], hpos⟩
      · exact Or.inl h
  | _ => exact Or.inl h

end

/-! ## What the stories promise about permits -/

variable {Lane : Type} {D : Deployment Index T F Lane} {w₀ w w' : AdmissionWorld Index T F Lane}
  {ls : AdmissionHistory Index T} {key field : String}

theorem guarded_of_hget {p : RedisAdmissionProvider} {s : Story} {k f : String} {call : Call}
    (h : Issues p s (.hget k f) call) : s.guarded = true := by
  cases call with
  | tryAcquire scope => exact h.1
  | tryAcquireRequest scope path => exact h.1
  | _ => cases h

/-- A count is read under the guard only, and the limit beside it is that of a policy in use. -/
structure Lawful (policies : CompiledPolicy Index → Prop) (s : Story) : Prop where
  guarded : s.count ≠ none → s.guarded = true
  limit : ∀ n, s.limit = some n → ∃ policy, policies policy ∧ policy.caseLimit = some n

omit [DecidableEq T] [DecidableEq F] in
theorem Lawful.start (policies : CompiledPolicy Index → Prop) : Lawful policies .start where
  guarded h := absurd rfl h
  limit n h := by cases h

omit [DecidableEq T] [DecidableEq F] in
theorem Lawful.heard {policies : CompiledPolicy Index → Prop} {p : RedisAdmissionProvider}
    {s : Story} {c : Command} {r : Reply} {call : Call} (h : Lawful policies s)
    (hpre : Issues p s c call) : Lawful policies (s.heard c r) := by
  refine ⟨?_, ?_⟩
  · intro hcount
    rw [Story.heard_guarded]
    cases c with
    | hget k f => exact guarded_of_hget hpre
    | hincrby k f n => exact absurd rfl hcount
    | _ => exact h.guarded hcount
  · intro n hn
    rw [Story.heard_limit] at hn
    exact h.limit n hn

theorem Lawful.noted {s : Story} {t : T} {o : AdmissionOp} {x : (admissionSig Index).Ans o}
    {now : ℕ} {mem mem' : AdmissionMemory T F} (h : Lawful D.policies s)
    (hpre : (D.contract t).pre s (.inr o)) (hact : D.act now t mem o x mem') :
    Lawful D.policies (s.noted o x) := by
  cases o with
  | isParticipating => exact h
  | snapshot =>
      refine ⟨h.guarded, ?_⟩
      intro n hn
      obtain ⟨policy, hpolicy, hcase⟩ := Option.bind_eq_some_iff.mp hn
      exact ⟨policy, hact.1 policy hpolicy, hcase⟩
  | tryLookup =>
      cases x with
      | ok u => exact ⟨fun _ => rfl, h.limit⟩
      | error e => exact h
  | dropLookup b => exact ⟨fun hcount => absurd rfl hcount, h.limit⟩
  | randomToken => exact ⟨h.guarded, h.limit⟩

theorem Deployment.lawful [DecidableEq Lane] (hquiet : Quiet w₀) (hrun : D.network.Run w₀ ls w)
    (t : T) : Lawful D.policies (story t ls) := by
  refine storyTale.always (Lawful.start D.policies) ?_ ?_ hrun
  · intro ls w o k x mem hrun hth hact h
    exact h.noted (D.obeys hquiet hrun hth).1 hact
  · intro ls w c k wire r hrun hth h
    exact h.heard (D.obeys hquiet hrun hth).1

theorem guard_of_mayCount [DecidableEq Lane] (hquiet : Quiet w₀) (hrun : D.network.Run w₀ ls w)
    {t : T} (h : MayCount key field (story t ls) (Phase.of (w.threads t))) :
    w.mem.guard t = true := by
  have hlawful := D.lawful hquiet hrun t
  have hguard := (D.callFacts hquiet hrun).guard t
  have hpermits : ∀ s, Permits key field s → s.count ≠ none := by
    intro s hs hnone
    exact not_permits_of_count hnone hs
  rw [hguard]
  cases hth : w.threads t with
  | none =>
      rw [hth] at h
      exact h.elim
  | some th =>
      obtain ⟨p, wire⟩ := th
      rw [hth] at h
      cases p with
      | ret a => exact hlawful.guarded (hpermits _ h)
      | op o k =>
          cases o with
          | inr l => exact hlawful.guarded (hpermits _ h)
          | inl c =>
              have hpre : Issues _ (story t ls) c _ := (D.obeys hquiet hrun hth).1
              cases wire with
              | idle => exact hlawful.guarded (hpermits _ h)
              | sent => exact hlawful.guarded (hpermits _ h)
              | answered r =>
                  have hheard := (hlawful.heard hpre).guarded (hpermits _ h)
                  rwa [Story.heard_guarded] at hheard

end

/-! ## The weights of the families -/

section

variable {Index T F : Type} [DecidableEq T] [DecidableEq F] {D : Deployment Index T F F}
  {w₀ w w' : AdmissionWorld Index T F F} {ls ls' : AdmissionHistory Index T} {key field : String}
  {L v v' : ℕ}

/-- The increment of the call of `t` is still to come. -/
def Waits (key field : String) (ls : AdmissionHistory Index T) (w : AdmissionWorld Index T F F)
    (t : T) : Prop :=
  MayCount key field (story t ls) (Phase.of (w.threads t))

/-- The increment of the call of `t` has been executed, and its outcome is still to come. -/
def Owed (key field : String) (ls : AdmissionHistory Index T) (w : AdmissionWorld Index T F F)
    (t : T) : Prop :=
  Credited key field (story t ls) (Phase.of (w.threads t))

open Classical in
/-- By how much the family `f` may still raise the field without another check. -/
noncomputable def weight (D : Deployment Index T F F) (key field : String)
    (ls : AdmissionHistory Index T) (w : AdmissionWorld Index T F F) (f : F) : ℕ :=
  w.strayCount (isIncrement key field) f + if ∃ t, D.family t = f ∧ Waits key field ls w t then 1 else 0

omit [DecidableEq F] in
theorem weight_add_le {f : F} {n : ℕ}
    (hstrays : w'.strayCount (isIncrement key field) f + n ≤ w.strayCount (isIncrement key field) f)
    (hwaits : ∀ t, D.family t = f → Waits key field ls' w' t → Waits key field ls w t) :
    weight D key field ls' w' f + n ≤ weight D key field ls w f := by
  classical
  refine add_indicator_le hstrays ?_
  intro ⟨t, ht, hwait⟩
  exact ⟨t, ht, hwaits t ht hwait⟩

omit [DecidableEq F] in
theorem weight_le {f : F} (hstrays : w'.strayCount (isIncrement key field) f ≤ w.strayCount (isIncrement key field) f)
    (hwaits : ∀ t, D.family t = f → Waits key field ls' w' t → Waits key field ls w t) :
    weight D key field ls' w' f ≤ weight D key field ls w f :=
  weight_add_le (n := 0) hstrays hwaits

omit [DecidableEq F] in
theorem weight_of_none {f : F} (h : ∀ t, D.family t = f → ¬ Waits key field ls w t) :
    weight D key field ls w f = w.strayCount (isIncrement key field) f := by
  unfold weight
  rw [if_neg, Nat.add_zero]
  intro ⟨t, ht, hwait⟩
  exact h t ht hwait

omit [DecidableEq F] in
theorem weight_of_waits {t : T} (h : Waits key field ls w t) :
    weight D key field ls w (D.family t) = w.strayCount (isIncrement key field) (D.family t) + 1 := by
  unfold weight
  rw [if_pos ⟨t, rfl, h⟩]

/-- The outcomes still owed fit between the outcomes counted and the count. -/
def Covered (key field : String) (ls : AdmissionHistory Index T) (w : AdmissionWorld Index T F F)
    (v : ℕ) : Prop :=
  ∃ owed : Finset T, (∀ t, Owed key field ls w t → t ∈ owed) ∧
    acquisitions key field ls + owed.card ≤ v

/-- A round in progress with the count `v`. -/
structure Round [Fintype F] (D : Deployment Index T F F) (L : ℕ) (key field : String)
    (ls : AdmissionHistory Index T) (w : AdmissionWorld Index T F F) (v : ℕ) : Prop where
  value : Db.counter (w.db.hashes key field) = some (v : ℤ)
  unit : ∀ f, ∀ x ∈ w.strays f, ∀ n, x.2 = .hincrby key field n → n = 1
  alone : ∀ f, weight D key field ls w f ≤ 1
  bound : v + ∑ f, weight D key field ls w f ≤ L + Fintype.card F - 1
  covered : Covered key field ls w v

theorem Round.next [Fintype F] (h : Round D L key field ls w v) (f : F) (hle : v ≤ v')
    (hvalue : Db.counter (w'.db.hashes key field) = some (v' : ℤ))
    (hunit : ∀ f, ∀ x ∈ w'.strays f, ∀ n, x.2 = .hincrby key field n → n = 1)
    (hothers : ∀ f', f' ≠ f → weight D key field ls' w' f' ≤ weight D key field ls w f')
    (hself : v' + weight D key field ls' w' f ≤ v + weight D key field ls w f)
    (hcovered : Covered key field ls' w' v') : Round D L key field ls' w' v' where
  value := hvalue
  unit := hunit
  alone f' := by
    by_cases hf : f' = f
    · subst hf
      have halone := h.alone f'
      omega
    · exact (hothers f' hf).trans (h.alone f')
  bound := by
    have hrest : ∑ f' ∈ Finset.univ.erase f, weight D key field ls' w' f' ≤
        ∑ f' ∈ Finset.univ.erase f, weight D key field ls w f' :=
      Finset.sum_le_sum fun f' hf' => hothers f' (Finset.ne_of_mem_erase hf')
    have hsum := Finset.add_sum_erase Finset.univ (weight D key field ls w) (Finset.mem_univ f)
    have hsum' := Finset.add_sum_erase Finset.univ (weight D key field ls' w') (Finset.mem_univ f)
    have hbound := h.bound
    omega
  covered := hcovered

omit [DecidableEq F] in
theorem Round.quiet [Fintype F] (h : Round D L key field ls w v)
    (hdb : w'.db.hashes key field = w.db.hashes key field)
    (hstrays : ∀ f, w'.strayCount (isIncrement key field) f ≤ w.strayCount (isIncrement key field) f)
    (hunit : ∀ f, ∀ x ∈ w'.strays f, ∀ n, x.2 = .hincrby key field n → n = 1)
    (hwaits : ∀ t, Waits key field ls' w' t → Waits key field ls w t)
    (hcovered : Covered key field ls' w' v) : Round D L key field ls' w' v where
  value := by
    rw [hdb]
    exact h.value
  unit := hunit
  alone f := (weight_le (hstrays f) fun t _ => hwaits t).trans (h.alone f)
  bound := by
    have hsum : ∑ f, weight D key field ls' w' f ≤ ∑ f, weight D key field ls w f :=
      Finset.sum_le_sum fun f _ => weight_le (hstrays f) fun t _ => hwaits t
    have hbound := h.bound
    omega
  covered := hcovered

/-! ## Steps of one call -/

omit [DecidableEq F] in
theorem Covered.call {t : T} {x : ℕ × AdmissionLabel Index T}
    {th : Option (Thread Command Reply (admissionSig Index) CallResult)}
    (h : Covered key field ls w v)
    (hx : ∀ s, s ≠ t → storyAfter s (story s ls) x = story s ls)
    (hthreads : w'.threads = Function.update w.threads t th)
    (hcount : isCounted key field ls x.2 = false)
    (howed : Credited key field (storyAfter t (story t ls) x) (Phase.of th) →
      Owed key field ls w t) : Covered key field (ls ++ [x]) w' v := by
  obtain ⟨owed, hall, hcard⟩ := h
  refine ⟨owed, ?_, ?_⟩
  · intro s hs
    by_cases hst : s = t
    · subst hst
      exact hall s (howed ((Tale.this_thread hthreads).mp hs))
    · exact hall s ((Tale.other_threads hx hthreads hst).mp hs)
  · rw [acquisitions_snoc, hcount]
    exact hcard

omit [DecidableEq F] in
theorem Round.call [Fintype F] {t : T} {x : ℕ × AdmissionLabel Index T}
    {th : Option (Thread Command Reply (admissionSig Index) CallResult)}
    (h : Round D L key field ls w v)
    (hx : ∀ s, s ≠ t → storyAfter s (story s ls) x = story s ls)
    (hthreads : w'.threads = Function.update w.threads t th)
    (hdb : w'.db.hashes key field = w.db.hashes key field)
    (hstrays : ∀ f, w'.strayCount (isIncrement key field) f ≤ w.strayCount (isIncrement key field) f)
    (hunit : ∀ f, ∀ x ∈ w'.strays f, ∀ n, x.2 = .hincrby key field n → n = 1)
    (hwaits : MayCount key field (storyAfter t (story t ls) x) (Phase.of th) →
      Waits key field ls w t)
    (hcovered : Covered key field (ls ++ [x]) w' v) : Round D L key field (ls ++ [x]) w' v := by
  refine h.quiet hdb hstrays hunit ?_ hcovered
  intro s hs
  by_cases hst : s = t
  · subst hst
    exact hwaits ((Tale.this_thread hthreads).mp hs)
  · exact (Tale.other_threads hx hthreads hst).mp hs

omit [DecidableEq F] in
theorem Round.still [Fintype F] {x : ℕ × AdmissionLabel Index T}
    (h : Round D L key field ls w v) (hx : ∀ s, storyAfter s (story s ls) x = story s ls)
    (hthreads : w'.threads = w.threads)
    (hdb : w'.db.hashes key field = w.db.hashes key field)
    (hstrays : ∀ f, w'.strayCount (isIncrement key field) f ≤ w.strayCount (isIncrement key field) f)
    (hunit : ∀ f, ∀ x ∈ w'.strays f, ∀ n, x.2 = .hincrby key field n → n = 1)
    (hcount : isCounted key field ls x.2 = false) : Round D L key field (ls ++ [x]) w' v := by
  refine h.quiet hdb hstrays hunit ?_ ?_
  · intro s hs
    unfold Waits at hs ⊢
    rwa [story_snoc, hx s, hthreads] at hs
  · obtain ⟨owed, hall, hcard⟩ := h.covered
    refine ⟨owed, ?_, ?_⟩
    · intro s hs
      apply hall s
      unfold Owed at hs ⊢
      rwa [story_snoc, hx s, hthreads] at hs
    · rw [acquisitions_snoc, hcount]
      exact hcard

end

end BreezeGateway
