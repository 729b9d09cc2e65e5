import BreezeGateway.RedisAdmission.Participation
import BreezeGateway.RedisAdmission.Undisturbed

/-!
# Passes that nobody disturbs

What one pass of the lease task does when Redis answers it and no other gateway comes between: it
keeps the slot it holds, gives up a slot outside the limit, and takes a slot it finds free.
Gateways that take their turns one after the other fill the slots.
-/

namespace BreezeGateway

open Effects Effects.Network Lease

section

variable {G : Type} [DecidableEq G] {keyPrefix : String} {gateways : G → GatewayTask}
  {others : ℕ → Db → Db → Prop} {t : G} {mem : G → LeaseState} {s : LeaseState} {n : ℕ} {db : Db}
  {limit : ℕ}

/-- Every answer of a local operation will do. -/
abbrev anyAnswer : (o : LeaseOp) → leaseSig.Ans o → Prop := fun _ _ => True

/-- The contract of gateway `t` when it is undisturbed. -/
abbrev lone (keyPrefix : String) (gateways : G → GatewayTask) (others : ℕ → Db → Db → Prop)
    (t : G) :=
  solo (leaseNetwork keyPrefix gateways others) t anyAnswer

/-- The moment at which gateway `t` is in state `s`. -/
abbrev momentOf (mem : G → LeaseState) (t : G) (s : LeaseState) (n : ℕ) (db : Db) :
    Moment Db (G → LeaseState) := ⟨n, db, Function.update mem t s⟩

theorem lone_now {Q : Moment Db (G → LeaseState) → Except AdmissionError ℕ → Prop}
    (h : ∀ τ n', n ≤ τ → τ ≤ n' → Q (momentOf mem t s n' db) (.ok τ)) :
    now.run.Meets (lone keyPrefix gateways others t) (momentOf mem t s n db) Q := by
  refine meets_perform trivial ?_
  rintro τ ⟨n', db', mem'⟩ ⟨_, hle, hle', -, ⟨s', ⟨rfl, rfl⟩, hmem⟩, hdb⟩
  obtain rfl : db' = db := hdb
  obtain rfl : mem' = _ := hmem
  simpa using h τ n' hle hle'

theorem lone_random {Q : Moment Db (G → LeaseState) → Except AdmissionError ℕ → Prop}
    (h : ∀ r n', n ≤ n' → Q (momentOf mem t s n' db) (.ok r)) :
    random.run.Meets (lone keyPrefix gateways others t) (momentOf mem t s n db) Q := by
  refine meets_perform trivial ?_
  rintro r ⟨n', db', mem'⟩ ⟨τ, hle, hle', -, ⟨s', rfl, hmem⟩, hdb⟩
  obtain rfl : db' = db := hdb
  obtain rfl : mem' = _ := hmem
  simpa using h r n' (hle.trans hle')

theorem lone_ownedSlot {Q : Moment Db (G → LeaseState) → Except AdmissionError (Option ℕ) → Prop}
    (h : ∀ n', n ≤ n' → Q (momentOf mem t s n' db) (.ok s.ownedSlot)) :
    ownedSlot.run.Meets (lone keyPrefix gateways others t) (momentOf mem t s n db) Q := by
  refine meets_perform trivial ?_
  rintro owned ⟨n', db', mem'⟩ ⟨τ, hle, hle', -, ⟨s', ⟨howned, rfl⟩, hmem⟩, hdb⟩
  obtain rfl : db' = db := hdb
  obtain rfl : mem' = _ := hmem
  obtain rfl : owned = s.ownedSlot := by simpa using howned
  simpa using h n' (hle.trans hle')

theorem lone_setOwnedSlot {slot : Option ℕ}
    {Q : Moment Db (G → LeaseState) → Except AdmissionError Unit → Prop}
    (h : ∀ n', n ≤ n' → Q (momentOf mem t { s with ownedSlot := slot } n' db) (.ok ())) :
    (setOwnedSlot slot).run.Meets (lone keyPrefix gateways others t) (momentOf mem t s n db) Q := by
  refine meets_perform trivial ?_
  rintro x ⟨n', db', mem'⟩ ⟨τ, hle, hle', -, ⟨s', rfl, hmem⟩, hdb⟩
  obtain rfl : db' = db := hdb
  obtain rfl : mem' = _ := hmem
  cases x
  simpa using h n' (hle.trans hle')

theorem lone_setValidUntil {deadline : Option ℕ}
    {Q : Moment Db (G → LeaseState) → Except AdmissionError Unit → Prop}
    (h : ∀ n', n ≤ n' → Q (momentOf mem t { s with validUntil := deadline } n' db) (.ok ())) :
    (Task.perform (L := leaseSig) (.setValidUntil deadline)).run.Meets
      (lone keyPrefix gateways others t) (momentOf mem t s n db) Q := by
  refine meets_perform trivial ?_
  rintro x ⟨n', db', mem'⟩ ⟨τ, hle, hle', -, ⟨s', rfl, hmem⟩, hdb⟩
  obtain rfl : db' = db := hdb
  obtain rfl : mem' = _ := hmem
  cases x
  simpa using h n' (hle.trans hle')

/-! ## The loop over the slots -/

variable (keyPrefix gateways t) in
/-- It has `slot` since `sent`, and wrote no other key. -/
structure Claims (mem : G → LeaseState) (s : LeaseState) (n : ℕ) (db : Db) (slot sent : ℕ)
    (m : Moment Db (G → LeaseState)) : Prop where
  since : n ≤ sent
  mem : m.mem = Function.update mem t
    { s with ownedSlot := some slot, validUntil := some (sent + (gateways t).config.leaseTtl) }
  until_ : m.db.strings.Until (slotKey keyPrefix slot) (utf8 (gateways t).token)
    (sent + (gateways t).config.leaseTtl)
  frame : ∀ key, key ≠ slotKey keyPrefix slot → m.db.strings key = db.strings key

theorem read_eq_none_of_le {key : String} {now later : ℕ} (h : db.strings.read now key = none)
    (hle : now ≤ later) : db.strings.read later key = none := by
  rw [Option.eq_none_iff_forall_ne_some] at h ⊢
  intro v hv
  exact h v (Store.read_of_le hv hle)

theorem until_of_putIfAbsent {key : String} {value : Bytes} {now d : ℕ}
    (h : (db.strings.putIfAbsent now key value d).2 = true) :
    (db.strings.putIfAbsent now key value d).1.Until key value d := by
  rw [(Store.putIfAbsent_true h).2]
  exact Store.until_put _ _ _ _

/-- The loop ends with a slot that it finds free; it finds none only if all were taken. -/
theorem lone_elect {slots : List ℕ} (howned : s.ownedSlot = none) :
    (elect keyPrefix (gateways t).token (gateways t).config slots).run.Meets
      (lone keyPrefix gateways others t) (momentOf mem t s n db) fun m r => r = .ok () ∧ n ≤ m.now ∧
        ((∃ slot ∈ slots, ∃ sent found, n ≤ found ∧ found ≤ m.now ∧
          db.strings.read found (slotKey keyPrefix slot) = none ∧
          Claims keyPrefix gateways t mem s n db slot sent m) ∨
        ((∀ slot ∈ slots, db.strings.read n (slotKey keyPrefix slot) ≠ none) ∧
          m.mem = Function.update mem t s ∧ m.db = db)) := by
  induction slots generalizing n with
  | nil => exact ⟨rfl, le_rfl, Or.inr ⟨by simp, rfl, rfl⟩⟩
  | cons slot rest ih =>
      unfold elect
      rw [meets_bind_ok]
      refine lone_now ?_
      intro sent n₁ hsent hn₁
      dsimp only
      rw [meets_bind_ok]
      refine lone_setOwnedSlot ?_
      intro n₂ hn₂
      dsimp only
      rw [meets_bind_ok]
      refine solo_reserve rfl rfl ?_
      intro found n₃ hfound hn₃
      have hle : n ≤ found := hsent.trans (hn₁.trans (hn₂.trans hfound))
      cases hput : (db.strings.putIfAbsent found (slotKey keyPrefix slot) (utf8 (gateways t).token)
          (found + millis (asMillis (gateways t).config.leaseTtl))).2 with
      | true =>
          simp only [if_true]
          refine lone_setValidUntil ?_
          intro n₄ hn₄
          refine ⟨rfl, hle.trans (hn₃.trans hn₄), Or.inl ⟨slot, List.mem_cons_self, sent, found,
            hle, hn₃.trans hn₄, (Store.putIfAbsent_true hput).1, hsent, rfl, ?_, ?_⟩⟩
          · rw [GatewayLeaseConfig.millis_leaseTtl (gateways t).valid] at hput
            have huntil := until_of_putIfAbsent hput
            simp only [Db.exec, GatewayLeaseConfig.millis_leaseTtl (gateways t).valid]
            exact huntil.mono (by omega)
          · intro key hkey
            exact strings_exec_of_ne hkey _ _
      | false =>
          simp only [Bool.false_eq_true, if_false]
          obtain ⟨htaken, hsame⟩ := Store.putIfAbsent_false hput
          have hdb : (db.exec found (.set (slotKey keyPrefix slot) (utf8 (gateways t).token)
              (asMillis (gateways t).config.leaseTtl))).1 = db := by
            simp only [Db.exec, hsame]
          rw [hdb, meets_bind_ok]
          refine lone_setOwnedSlot ?_
          intro n₄ hn₄
          have hs : { { s with ownedSlot := some slot } with ownedSlot := none } = s := by
            cases s
            simp_all
          rw [hs]
          refine (ih (n := n₄)).mono ?_
          have hn : n ≤ n₄ := hle.trans (hn₃.trans hn₄)
          rintro m r ⟨hr, hm, hresult⟩
          refine ⟨hr, hn.trans hm, ?_⟩
          rcases hresult with ⟨j, hj, sent', found', hle', hm', hfree, hclaims⟩ | ⟨hall, hmem, hdb⟩
          · exact Or.inl ⟨j, List.mem_cons_of_mem _ hj, sent', found', hn.trans hle', hm', hfree,
              hn.trans hclaims.since, hclaims.mem, hclaims.until_, hclaims.frame⟩
          · refine Or.inr ⟨?_, hmem, hdb⟩
            intro j hj hfree
            rcases List.mem_cons.mp hj with rfl | hj
            · exact htaken (read_eq_none_of_le hfree hle)
            · exact hall j hj (read_eq_none_of_le hfree hn)

/-! ## The whole pass -/

/-- What `read_limit` makes of the key `max-gateways`. -/
def limitIn? : Option Bytes → Option ℕ
  | none => some 0
  | some bytes => parseDigits usizeMax bytes

theorem lone_readLimit {key : String}
    {Q : Moment Db (G → LeaseState) → Except AdmissionError ℕ → Prop}
    (hlimit : ∀ τ, n ≤ τ → limitIn? (db.strings.read τ key) = some limit)
    (h : ∀ n', n ≤ n' → Q (momentOf mem t s n' db) (.ok limit)) :
    (readLimit key).run.Meets (lone keyPrefix gateways others t) (momentOf mem t s n db) Q := by
  unfold readLimit
  rw [meets_bind_ok]
  refine solo_get rfl rfl ?_
  intro τ n' hle hle'
  have hread := hlimit τ hle
  cases hkey : db.strings.read τ key with
  | none =>
      rw [hkey] at hread
      obtain rfl := Option.some.inj hread
      exact h n' (hle.trans hle')
  | some bytes =>
      rw [hkey] at hread
      simp only [limitIn?] at hread
      simp only [Option.elim_some, hread]
      exact h n' (hle.trans hle')

variable (keyPrefix gateways t) in
/-- How an undisturbed pass ends that starts at `n` with state `s` and reads `limit`. -/
inductive Passed (mem : G → LeaseState) (s : LeaseState) (n : ℕ) (db : Db) (limit : ℕ)
    (m : Moment Db (G → LeaseState)) : Prop where
  | kept {slot sent : ℕ} (howned : s.ownedSlot = some slot) (hslot : slot < limit)
      (hheld : ∃ τ, n ≤ τ ∧ τ ≤ m.now ∧
        db.strings.read τ (slotKey keyPrefix slot) = some (utf8 (gateways t).token))
      (h : Claims keyPrefix gateways t mem s n db slot sent m) : Passed mem s n db limit m
  | lost {slot : ℕ} (howned : s.ownedSlot = some slot) (hslot : slot < limit)
      (hlost : ∃ τ, n ≤ τ ∧ τ ≤ m.now ∧
        db.strings.read τ (slotKey keyPrefix slot) ≠ some (utf8 (gateways t).token))
      (hmem : m.mem = Function.update mem t { s with validUntil := none, ownedSlot := none })
      (hdb : m.db = db) : Passed mem s n db limit m
  | elected {slot sent : ℕ} (howned : ∀ k, s.ownedSlot = some k → limit ≤ k) (hslot : slot < limit)
      (hfree : ∃ τ, n ≤ τ ∧ τ ≤ m.now ∧ db.strings.read τ (slotKey keyPrefix slot) = none)
      (since : n ≤ sent)
      (hmem : m.mem = Function.update mem t { s with
        ownedSlot := some slot, validUntil := some (sent + (gateways t).config.leaseTtl) })
      (huntil : m.db.strings.Until (slotKey keyPrefix slot) (utf8 (gateways t).token)
        (sent + (gateways t).config.leaseTtl))
      (frame : ∀ key, (∀ k, s.ownedSlot = some k → key ≠ slotKey keyPrefix k) →
        key ≠ slotKey keyPrefix slot → m.db.strings key = db.strings key) : Passed mem s n db limit m
  | standby (howned : ∀ k, s.ownedSlot = some k → limit ≤ k)
      (htaken : ∀ slot < limit, db.strings.read n (slotKey keyPrefix slot) ≠ none)
      (hmem : m.mem = Function.update mem t { s with validUntil := none, ownedSlot := none })
      (frame : ∀ key, (∀ k, s.ownedSlot = some k → key ≠ slotKey keyPrefix k) →
        m.db.strings key = db.strings key) : Passed mem s n db limit m

theorem mem_slots {slot first : ℕ} (h : slot < limit) :
    slot ∈ List.range' first (limit - first) ++ List.range first := by
  rw [List.mem_append, List.mem_range'_1, List.mem_range]
  omega

/-- The part after the release, for a gateway without a slot. -/
theorem lone_standby (howned : s.ownedSlot = none) (hvalid : s.validUntil = none) :
    (renewOrElect keyPrefix (gateways t).token (gateways t).config limit).run.Meets
      (lone keyPrefix gateways others t) (momentOf mem t s n db) fun m r => r = .ok () ∧ n ≤ m.now ∧
        Passed keyPrefix gateways t mem s n db limit m := by
  have hnone : ∀ k, s.ownedSlot = some k → limit ≤ k := by
    intro k hk
    rw [howned] at hk
    cases hk
  have hs : { s with validUntil := none, ownedSlot := none } = s := by
    cases s
    simp_all
  unfold renewOrElect
  by_cases hzero : limit = 0
  · rw [if_pos hzero]
    refine lone_setValidUntil ?_
    intro n' hn'
    refine ⟨rfl, hn', .standby hnone ?_ ?_ fun _ _ => rfl⟩
    · intro slot hslot
      omega
    · rw [hs]
      cases s
      simp_all
  · rw [if_neg hzero, meets_bind_ok]
    refine lone_ownedSlot ?_
    intro n₁ hn₁
    simp only [howned]
    rw [meets_bind_ok]
    refine lone_random ?_
    intro first n₂ hn₂
    refine (lone_elect howned).mono ?_
    have hn : n ≤ n₂ := hn₁.trans hn₂
    rintro m r ⟨hr, hm, hresult⟩
    refine ⟨hr, hn.trans hm, ?_⟩
    rcases hresult with ⟨slot, hslot, sent, found, hfound, hm', hfree, hclaims⟩ | ⟨hall, hmem, hdb⟩
    · have hlt := lt_of_mem_slots hslot (Nat.mod_lt first (Nat.pos_of_ne_zero hzero))
      exact .elected hnone hlt ⟨found, hn.trans hfound, hm', hfree⟩ (hn.trans hclaims.since)
        hclaims.mem hclaims.until_ fun key _ hkey => hclaims.frame key hkey
    · refine .standby hnone ?_ ?_ ?_
      · intro slot hslot hfree
        exact hall slot (mem_slots hslot) (read_eq_none_of_le hfree hn)
      · rw [hs]
        exact hmem
      · intro key _
        rw [hdb]

/-- The part after the release, for a gateway with a slot within the limit. -/
theorem lone_holder {slot : ℕ} (howned : s.ownedSlot = some slot) (hslot : slot < limit) :
    (renewOrElect keyPrefix (gateways t).token (gateways t).config limit).run.Meets
      (lone keyPrefix gateways others t) (momentOf mem t s n db) fun m r => r = .ok () ∧ n ≤ m.now ∧
        Passed keyPrefix gateways t mem s n db limit m := by
  have httl := GatewayLeaseConfig.millis_leaseTtl (gateways t).valid
  unfold renewOrElect
  rw [if_neg (Nat.ne_of_gt (Nat.zero_lt_of_lt hslot)), meets_bind_ok]
  refine lone_ownedSlot ?_
  intro n₁ hn₁
  simp only [howned]
  rw [meets_bind_ok]
  refine lone_now ?_
  intro sent n₂ hsent hn₂
  dsimp only
  rw [meets_bind_ok]
  refine solo_transition rfl rfl (fun _ => rfl) ?_
  intro found n₃ hfound hn₃
  have hle : n ≤ found := hn₁.trans (hsent.trans (hn₂.trans hfound))
  rw [httl]
  cases hextend : (db.strings.extendIf found (slotKey keyPrefix slot) (utf8 (gateways t).token)
      (found + (gateways t).config.leaseTtl)).2 with
  | true =>
      obtain ⟨hread, hput⟩ := Store.extendIf_true hextend
      simp only [if_true]
      refine lone_setValidUntil ?_
      intro n₄ hn₄
      refine ⟨rfl, hle.trans (hn₃.trans hn₄), .kept howned hslot
        ⟨found, hle, hn₃.trans hn₄, hread⟩ ⟨hn₁.trans hsent, ?_, ?_, ?_⟩⟩
      · rw [← howned]
      · simp only [Db.exec, httl, hput]
        exact (Store.until_put _ _ _ _).mono (by omega)
      · intro key hkey
        exact strings_exec_of_ne hkey _ _
  | false =>
      obtain ⟨hread, hsame⟩ := Store.extendIf_false hextend
      have hdb : (db.exec found (.renew (slotKey keyPrefix slot) (utf8 (gateways t).token)
          (asMillis (gateways t).config.leaseTtl))).1 = db := by
        simp only [Db.exec, httl, hsame]
      simp only [Bool.false_eq_true, if_false]
      rw [hdb, meets_bind_ok]
      refine lone_setValidUntil ?_
      intro n₄ hn₄
      refine lone_setOwnedSlot ?_
      intro n₅ hn₅
      exact ⟨rfl, hle.trans (hn₃.trans (hn₄.trans hn₅)), .lost howned hslot
        ⟨found, hle, hn₃.trans (hn₄.trans hn₅), hread⟩ rfl rfl⟩

theorem Passed.earlier {n₁ : ℕ} {m : Moment Db (G → LeaseState)} (hn : n ≤ n₁)
    (h : Passed keyPrefix gateways t mem s n₁ db limit m) :
    Passed keyPrefix gateways t mem s n db limit m := by
  cases h with
  | kept howned hslot hheld h =>
      obtain ⟨τ, hle, hle', hread⟩ := hheld
      exact .kept howned hslot ⟨τ, hn.trans hle, hle', hread⟩
        ⟨hn.trans h.since, h.mem, h.until_, h.frame⟩
  | lost howned hslot hlost hmem hdb =>
      obtain ⟨τ, hle, hle', hread⟩ := hlost
      exact .lost howned hslot ⟨τ, hn.trans hle, hle', hread⟩ hmem hdb
  | elected howned hslot hfree since hmem huntil frame =>
      obtain ⟨τ, hle, hle', hread⟩ := hfree
      exact .elected howned hslot ⟨τ, hn.trans hle, hle', hread⟩ (hn.trans since) hmem huntil frame
  | standby howned htaken hmem frame =>
      refine .standby howned ?_ hmem frame
      intro slot hslot hfree
      exact htaken slot hslot (read_eq_none_of_le hfree hn)

/-- The pass of a gateway whose slot is outside the limit is the pass of one without a slot, on
what the release has left. -/
theorem Passed.of_released {slot n₁ : ℕ} {db₁ : Db} {m : Moment Db (G → LeaseState)}
    (howned : s.ownedSlot = some slot) (hslot : limit ≤ slot) (hn : n ≤ n₁)
    (hframe : ∀ key, key ≠ slotKey keyPrefix slot → db₁.strings key = db.strings key)
    (h : Passed keyPrefix gateways t mem { s with validUntil := none, ownedSlot := none } n₁ db₁
      limit m) : Passed keyPrefix gateways t mem s n db limit m := by
  have hout : ∀ k, s.ownedSlot = some k → limit ≤ k := by
    intro k hk
    rw [howned] at hk
    obtain rfl := Option.some.inj hk
    exact hslot
  have hread : ∀ j, j < limit → ∀ τ,
      db₁.strings.read τ (slotKey keyPrefix j) = db.strings.read τ (slotKey keyPrefix j) := by
    intro j hj τ
    have hne : slotKey keyPrefix j ≠ slotKey keyPrefix slot := by
      intro hc
      have := slotKey_inj.mp hc
      omega
    unfold Store.read
    rw [hframe _ hne]
  cases h with
  | kept howned' => cases howned'
  | lost howned' => cases howned'
  | @elected j sent _ hj hfree since hmem huntil frame =>
      obtain ⟨τ, hle, hle', hfree⟩ := hfree
      refine .elected hout hj ⟨τ, hn.trans hle, hle', ?_⟩ (hn.trans since) hmem huntil ?_
      · rwa [← hread j hj]
      · intro key hkey hne
        rw [frame key (fun k hk => by cases hk) hne, hframe key (hkey slot howned)]
  | standby _ htaken hmem frame =>
      refine .standby hout ?_ hmem ?_
      · intro j hj hfree
        apply htaken j hj
        rw [hread j hj]
        exact read_eq_none_of_le hfree hn
      · intro key hkey
        rw [frame key (fun k hk => by cases hk), hframe key (hkey slot howned)]

theorem lone_release {slot : ℕ} (howned : s.ownedSlot = some slot) (hslot : limit ≤ slot)
    {Q : Moment Db (G → LeaseState) → Except AdmissionError Unit → Prop}
    (h : ∀ db₁ n', n ≤ n' →
      (∀ key, key ≠ slotKey keyPrefix slot → db₁.strings key = db.strings key) →
      Q (momentOf mem t { s with validUntil := none, ownedSlot := none } n' db₁) (.ok ())) :
    (releaseOutside keyPrefix (gateways t).token limit s.ownedSlot).run.Meets
      (lone keyPrefix gateways others t) (momentOf mem t s n db) Q := by
  rw [howned]
  simp only [releaseOutside, ge_iff_le, hslot, if_true]
  rw [meets_bind_ok]
  refine lone_setValidUntil ?_
  intro n₁ hn₁
  dsimp only
  rw [meets_bind_ok]
  refine solo_transition rfl rfl (fun _ => rfl) ?_
  intro found n₂ hfound hn₂
  refine lone_setOwnedSlot ?_
  intro n₃ hn₃
  refine h _ n₃ (hn₁.trans (hfound.trans (hn₂.trans hn₃))) ?_
  intro key hkey
  exact strings_exec_of_ne hkey _ _

theorem lone_refresh (hcoherent : s.ownedSlot = none → s.validUntil = none)
    (hlimit : ∀ τ, n ≤ τ →
      limitIn? (db.strings.read τ (maxGatewaysKey keyPrefix)) = some limit) :
    (refresh keyPrefix (gateways t).token (gateways t).config).run.Meets
      (lone keyPrefix gateways others t) (momentOf mem t s n db) fun m r => r = .ok () ∧ n ≤ m.now ∧
        Passed keyPrefix gateways t mem s n db limit m := by
  unfold refresh
  rw [meets_bind_ok]
  refine lone_readLimit hlimit ?_
  intro n₁ hn₁
  dsimp only
  rw [meets_bind_ok]
  refine lone_ownedSlot ?_
  intro n₂ hn₂
  have hn : n ≤ n₂ := hn₁.trans hn₂
  dsimp only
  rw [meets_bind_ok]
  have hlater : ∀ {m} {r : Except AdmissionError Unit},
      r = .ok () ∧ n₂ ≤ m.now ∧ Passed keyPrefix gateways t mem s n₂ db limit m →
      r = .ok () ∧ n ≤ m.now ∧ Passed keyPrefix gateways t mem s n db limit m :=
    fun ⟨hr, hm, hpassed⟩ => ⟨hr, hn.trans hm, hpassed.earlier hn⟩
  cases howned : s.ownedSlot with
  | none =>
      exact (lone_standby howned (hcoherent howned)).mono fun m r h => hlater h
  | some slot =>
      rcases Nat.lt_or_ge slot limit with hslot | hslot
      · simp only [releaseOutside, ge_iff_le, Nat.not_le.mpr hslot, if_false]
        exact (lone_holder howned hslot).mono fun m r h => hlater h
      · rw [← howned]
        refine lone_release howned hslot ?_
        intro db₁ n₃ hn₃ hframe
        refine (lone_standby rfl rfl).mono ?_
        rintro m r ⟨hr, hm, hpassed⟩
        exact hlater ⟨hr, hn₃.trans hm, hpassed.of_released howned hslot hn₃ hframe⟩

theorem lone_iterate (hcoherent : s.ownedSlot = none → s.validUntil = none)
    (hlimit : ∀ τ, n ≤ τ →
      limitIn? (db.strings.read τ (maxGatewaysKey keyPrefix)) = some limit) :
    (iterate keyPrefix (gateways t).token (gateways t).config).Meets
      (lone keyPrefix gateways others t) (momentOf mem t s n db) fun m _ => n ≤ m.now ∧
        Passed keyPrefix gateways t mem s n db limit m := by
  unfold iterate
  rw [Prog.meets_bind]
  refine (lone_refresh hcoherent hlimit).mono ?_
  rintro m r ⟨rfl, hm, hpassed⟩
  exact ⟨hm, hpassed⟩

/-! ## Turns of the network -/

variable {w₀ w w' : LeaseWorld G} {ls ls' : LeaseHistory G}

theorem lone_pass (hcoherent : (w.mem t).ownedSlot = none → (w.mem t).validUntil = none)
    (hlimit : ∀ τ, w.now ≤ τ →
      limitIn? (w.db.strings.read τ (maxGatewaysKey keyPrefix)) = some limit)
    (hrun : (leaseNetwork keyPrefix gateways others).Run w ls w') (hturn : Turn t anyAnswer () ls) :
    w.now ≤ w'.now ∧ Passed keyPrefix gateways t w.mem (w.mem t) w.now w.db limit
      ⟨w'.now, w'.db, w'.mem⟩ := by
  obtain ⟨p, mem, -, ⟨-, rfl, rfl⟩, hle, -, -, hmeets⟩ := hrun.turn hturn
  refine ⟨hle, ?_⟩
  obtain ⟨mem', hpassed, hmem⟩ := hmeets
    (fun m _ => Passed keyPrefix gateways t w.mem (w.mem t) w.now w.db limit m) fun now hnow => by
      have hlater : ∀ τ, now ≤ τ →
          limitIn? (w.db.strings.read τ (maxGatewaysKey keyPrefix)) = some limit :=
        fun τ hτ => hlimit τ (hnow.trans hτ)
      have hmoment : momentOf w.mem t (w.mem t) now w.db = ⟨now, w.db, w.mem⟩ := by
        simp only [momentOf, Function.update_eq_self]
      rw [← hmoment]
      exact (lone_iterate hcoherent hlater).mono fun m _ h => h.2.earlier hnow
  rw [hmem]
  exact hpassed

theorem read_between {key : String} {n₁ n₂ τ : ℕ}
    (hstable : db.strings.read n₂ key = db.strings.read n₁ key) (h₁ : n₁ ≤ τ) (h₂ : τ ≤ n₂) :
    db.strings.read τ key = db.strings.read n₁ key := by
  cases hread : db.strings.read n₁ key with
  | none => exact read_eq_none_of_le hread h₁
  | some v =>
      rw [hread] at hstable
      exact Store.read_of_le hstable h₂

/-- If no slot key expires in the meantime, the gateway is eligible after the pass exactly if it had
a slot within the limit, or was free to be elected and some slot was free. -/
theorem Passed.eligible_iff {m : Moment Db (G → LeaseState)}
    (h : Passed keyPrefix gateways t mem s n db limit m)
    (hsoon : m.now < n + (gateways t).config.leaseTtl)
    (hstable : ∀ slot < limit, db.strings.read m.now (slotKey keyPrefix slot) =
      db.strings.read n (slotKey keyPrefix slot)) :
    (m.mem t).isValid m.now = true ↔
      (∃ slot < limit, s.ownedSlot = some slot ∧
        db.strings.read n (slotKey keyPrefix slot) = some (utf8 (gateways t).token)) ∨
      ((∀ k, s.ownedSlot = some k → limit ≤ k) ∧
        ∃ slot < limit, db.strings.read n (slotKey keyPrefix slot) = none) := by
  cases h with
  | kept howned hslot hheld h =>
      obtain ⟨τ, hle, hle', hread⟩ := hheld
      rw [read_between (hstable _ hslot) hle hle'] at hread
      constructor
      · intro _
        exact Or.inl ⟨_, hslot, howned, hread⟩
      · intro _
        have hsince := h.since
        rw [h.mem, Function.update_self, LeaseState.isValid_iff]
        exact ⟨_, rfl, by omega⟩
  | @lost slot howned hslot hlost hmem hdb =>
      obtain ⟨τ, hle, hle', hread⟩ := hlost
      rw [read_between (hstable _ hslot) hle hle'] at hread
      constructor
      · intro hvalid
        rw [hmem, Function.update_self, LeaseState.isValid_iff] at hvalid
        obtain ⟨d, hd, -⟩ := hvalid
        cases hd
      · rintro (⟨k, -, hk, htoken⟩ | ⟨hout, -⟩)
        · rw [howned] at hk
          obtain rfl := Option.some.inj hk
          exact absurd htoken hread
        · exact absurd (hout _ howned) (Nat.not_le.mpr hslot)
  | elected howned hslot hfree since hmem =>
      obtain ⟨τ, hle, hle', hread⟩ := hfree
      rw [read_between (hstable _ hslot) hle hle'] at hread
      constructor
      · intro _
        exact Or.inr ⟨howned, _, hslot, hread⟩
      · intro _
        rw [hmem, Function.update_self, LeaseState.isValid_iff]
        exact ⟨_, rfl, by omega⟩
  | standby howned htaken hmem =>
      constructor
      · intro hvalid
        rw [hmem, Function.update_self, LeaseState.isValid_iff] at hvalid
        obtain ⟨d, hd, -⟩ := hvalid
        cases hd
      · rintro (⟨k, hk, hown, -⟩ | ⟨-, k, hk, hread⟩)
        · exact absurd (howned k hown) (Nat.not_le.mpr hk)
        · exact absurd hread (htaken k hk)

theorem Passed.holds {m : Moment Db (G → LeaseState)}
    (h : Passed keyPrefix gateways t mem s n db limit m) (hvalid : (m.mem t).isValid m.now = true) :
    ∃ slot < limit, ∃ deadline, (m.mem t).ownedSlot = some slot ∧
      (m.mem t).validUntil = some deadline ∧ m.now < deadline ∧
      m.db.strings.Until (slotKey keyPrefix slot) (utf8 (gateways t).token) deadline := by
  obtain ⟨deadline, hdeadline, hnow⟩ := LeaseState.isValid_iff.mp hvalid
  cases h with
  | @kept slot sent howned hslot hheld h =>
      rw [h.mem, Function.update_self] at hdeadline ⊢
      obtain rfl := Option.some.inj hdeadline
      exact ⟨slot, hslot, _, rfl, rfl, hnow, h.until_⟩
  | @elected slot sent howned hslot hfree since hmem huntil =>
      rw [hmem, Function.update_self] at hdeadline ⊢
      obtain rfl := Option.some.inj hdeadline
      exact ⟨slot, hslot, _, rfl, rfl, hnow, huntil⟩
  | lost howned hslot hlost hmem =>
      rw [hmem, Function.update_self] at hdeadline
      cases hdeadline
  | standby howned htaken hmem =>
      rw [hmem, Function.update_self] at hdeadline
      cases hdeadline

theorem Passed.mem_of_ne {m : Moment Db (G → LeaseState)}
    (h : Passed keyPrefix gateways t mem s n db limit m) {u : G} (hu : u ≠ t) : m.mem u = mem u := by
  cases h with
  | kept howned hslot hheld h => rw [h.mem, Function.update_of_ne hu]
  | lost howned hslot hlost hmem => rw [hmem, Function.update_of_ne hu]
  | elected howned hslot hfree since hmem => rw [hmem, Function.update_of_ne hu]
  | standby howned htaken hmem => rw [hmem, Function.update_of_ne hu]

theorem Passed.strings_of_ne {m : Moment Db (G → LeaseState)} {key : String}
    (h : Passed keyPrefix gateways t mem s n db limit m) (hkey : ∀ slot, key ≠ slotKey keyPrefix slot) :
    m.db.strings key = db.strings key := by
  cases h with
  | kept howned hslot hheld h => exact h.frame key (hkey _)
  | lost howned hslot hlost hmem hdb => rw [hdb]
  | elected howned hslot hfree since hmem huntil frame =>
      exact frame key (fun k _ => hkey k) (hkey _)
  | standby howned htaken hmem frame => exact frame key fun k _ => hkey k

theorem Passed.dropped {m : Moment Db (G → LeaseState)}
    (h : Passed keyPrefix gateways t mem s n db limit m) : (m.mem t).dropped = s.dropped := by
  cases h with
  | kept howned hslot hheld h => rw [h.mem, Function.update_self]
  | lost howned hslot hlost hmem => rw [hmem, Function.update_self]
  | elected howned hslot hfree since hmem => rw [hmem, Function.update_self]
  | standby howned htaken hmem => rw [hmem, Function.update_self]

theorem coherent_of_run (htokens : Function.Injective fun t => (gateways t).token)
    (hothers : ∀ now db db', others now db db' → tokensUnforged keyPrefix gateways now db db')
    (hstart : LeaseStart keyPrefix gateways w₀)
    (hrun : (leaseNetwork keyPrefix gateways others).Run w₀ ls w) (t : G)
    (h : (w.mem t).ownedSlot = none) : (w.mem t).validUntil = none := by
  have hsound := leaseNetwork_sound False htokens
    fun now db db' t (h : others now db db') => (hothers now db db' h).undisturbed t
  obtain ⟨g, hI, -⟩ := hrun.guarantee (fun _ => firstView) hsound hstart.tracked
    (keeps_of_quiet hstart.threads _)
  have hfacts := (hI t).good.facts
  rw [hfacts.valid]
  apply hfacts.unowned
  rw [← hfacts.owned, h]

theorem maxGatewaysKey_ne (slot : ℕ) : maxGatewaysKey keyPrefix ≠ slotKey keyPrefix slot := by
  intro h
  have hroles : KeyRole.maxGateways.key ⟨keyPrefix, "", 0⟩ =
      (KeyRole.gateway slot).key ⟨keyPrefix, "", 0⟩ := h
  rw [KeyRole.key_eq (by simp), KeyRole.key_eq (by simp)] at hroles
  cases KeyRole.suffix_injective ((String.append_right_inj _).mp hroles)

/-! Two gateways and one slot. -/

def duoTask (t : Bool) : GatewayTask :=
  { soloTask with token := if t then "gw:0" else "gw:1" }

theorem duoTask_injective : Function.Injective fun t => (duoTask t).token := by decide

def duoStart : LeaseWorld Bool where
  now := 0
  db := ⟨fun key => if key = "p:max-gateways" then some ⟨utf8 "1", none⟩ else none, fun _ _ => none⟩
  mem _ := ⟨none, none, false⟩
  threads _ := none
  strays _ := []

theorem duoStart_slot (τ slot : ℕ) : duoStart.db.strings.read τ (slotKey "p" slot) = none := by
  have hne : slotKey "p" slot ≠ maxGatewaysKey "p" := (maxGatewaysKey_ne slot).symm
  have hmax : maxGatewaysKey "p" = "p:max-gateways" := rfl
  rw [hmax] at hne
  unfold Store.read
  simp only [duoStart, hne, if_false]

theorem duoStart_limit (τ : ℕ) :
    limitIn? (duoStart.db.strings.read τ (maxGatewaysKey "p")) = some 1 := by
  have hread : duoStart.db.strings.read τ (maxGatewaysKey "p") = some (utf8 "1") := rfl
  rw [hread]
  decide

theorem duoStart_start : LeaseStart "p" duoTask duoStart where
  threads _ := rfl
  strays _ := rfl
  owned _ := rfl
  valid _ := rfl
  fresh t slot hread := by
    rw [duoStart_slot] at hread
    cases hread

variable (keyPrefix gateways others) in
theorem exists_pass (hidle : w.threads t = none) (hlane : w.strays t = [])
    (hdropped : (w.mem t).dropped = false) :
    ∃ ls w', (leaseNetwork keyPrefix gateways others).Run w ls w' ∧ Turn t anyAnswer () ls ∧
      Quick ls ∧ w'.now = w.now := by
  have hact : ∀ now mem o, ∃ x mem', anyAnswer o x ∧
      (leaseNetwork keyPrefix gateways others).act now t mem o x mem' := by
    intro now mem o
    cases o with
    | now => exact ⟨now, _, trivial, _, ⟨rfl, rfl⟩, rfl⟩
    | random => exact ⟨(0 : ℕ), _, trivial, _, rfl, rfl⟩
    | setValidUntil d => exact ⟨(), _, trivial, _, rfl, rfl⟩
    | ownedSlot => exact ⟨_, _, trivial, _, ⟨rfl, rfl⟩, rfl⟩
    | setOwnedSlot slot => exact ⟨(), _, trivial, _, rfl, rfl⟩
  obtain ⟨ls, w', y, hrun, hturn, hquick, hnow⟩ :=
    exists_turn (N := leaseNetwork keyPrefix gateways others) hact (fun c r => ⟨r, Or.inl rfl⟩)
      hidle hlane ⟨hdropped, rfl, rfl⟩
  exact ⟨ls, w', hrun, hturn, hquick, hnow⟩

/-- Whatever has happened, a gateway that takes an undisturbed turn is eligible after it exactly if
it held a slot within the limit, or had none there and a slot was free.  It then holds its key. -/
theorem undisturbed_pass (htokens : Function.Injective fun t => (gateways t).token)
    (hothers : ∀ now db db', others now db db' → tokensUnforged keyPrefix gateways now db db')
    (hstart : LeaseStart keyPrefix gateways w₀)
    (hrun : (leaseNetwork keyPrefix gateways others).Run w₀ ls w)
    (hpass : (leaseNetwork keyPrefix gateways others).Run w ls' w')
    (hturn : Turn t anyAnswer () ls')
    (hlimit : ∀ τ, w.now ≤ τ →
      limitIn? (w.db.strings.read τ (maxGatewaysKey keyPrefix)) = some limit)
    (hsoon : w'.now < w.now + (gateways t).config.leaseTtl)
    (hstable : ∀ slot < limit, w.db.strings.read w'.now (slotKey keyPrefix slot) =
      w.db.strings.read w.now (slotKey keyPrefix slot)) :
    ((w'.mem t).isValid w'.now = true ↔
      (∃ slot < limit, (w.mem t).ownedSlot = some slot ∧ StoredAt keyPrefix gateways w t slot) ∨
      ((∀ k, (w.mem t).ownedSlot = some k → limit ≤ k) ∧
        ∃ slot < limit, w.db.strings.read w.now (slotKey keyPrefix slot) = none)) ∧
    ((w'.mem t).isValid w'.now = true → ∃ slot < limit, (w'.mem t).ownedSlot = some slot ∧
      StoredAt keyPrefix gateways w' t slot) := by
  obtain ⟨-, hpassed⟩ := lone_pass (coherent_of_run htokens hothers hstart hrun t) hlimit hpass hturn
  refine ⟨hpassed.eligible_iff hsoon hstable, ?_⟩
  intro hvalid
  obtain ⟨slot, hslot, deadline, howned, -, hnow, huntil⟩ := hpassed.holds hvalid
  exact ⟨slot, hslot, howned, huntil.read hnow⟩

/-- The first of two gateways gets the slot. -/
theorem undisturbed_pass_duo :
    ∃ ls w, (leaseNetwork "p" duoTask (tokensUnforged "p" duoTask)).Run duoStart ls w ∧
      Turn true anyAnswer () ls ∧ (w.mem true).isValid w.now = true ∧
      ∃ slot < 1, (w.mem true).ownedSlot = some slot ∧ StoredAt "p" duoTask w true slot := by
  obtain ⟨ls, w, hrun, hturn, -, hnow⟩ := exists_pass "p" duoTask (tokensUnforged "p" duoTask)
    (w := duoStart) (t := true) rfl rfl rfl
  obtain ⟨hiff, hholds⟩ := undisturbed_pass duoTask_injective (fun _ _ _ h => h)
    duoStart_start .refl hrun hturn (fun τ _ => duoStart_limit τ) (by rw [hnow]; decide)
    (fun slot _ => by simp only [duoStart_slot])
  have hvalid := hiff.mpr (Or.inr ⟨(fun k hk => by cases hk), 0, Nat.one_pos, duoStart_slot _ 0⟩)
  exact ⟨ls, w, hrun, hturn, hvalid, hholds hvalid⟩

/-! ## A full house -/

variable (keyPrefix gateways) in
/-- After the turns of `ts` the first of them have the slots, and the other slots are free. -/
structure House (w₀ : LeaseWorld G) (limit : ℕ) (ts : List G) (w : LeaseWorld G) : Prop where
  now : w₀.now ≤ w.now
  max : w.db.strings (maxGatewaysKey keyPrefix) = w₀.db.strings (maxGatewaysKey keyPrefix)
  idle : ∀ t, t ∉ ts.take limit → (w.mem t).ownedSlot = none ∧ (w.mem t).validUntil = none
  seated : ∀ t ∈ ts.take limit, ∃ slot < limit, ∃ deadline, (w.mem t).ownedSlot = some slot ∧
    (w.mem t).validUntil = some deadline ∧ w₀.now + (gateways t).config.leaseTtl ≤ deadline ∧
    w.db.strings.Until (slotKey keyPrefix slot) (utf8 (gateways t).token) deadline
  free : ∀ slot < limit, (∀ t ∈ ts.take limit, (w.mem t).ownedSlot ≠ some slot) →
    w.db.strings.read w.now (slotKey keyPrefix slot) = none

variable {ts : List G}

omit [DecidableEq G] in
/-- Nobody shares a slot. -/
theorem House.slot_injective (htokens : Function.Injective fun t => (gateways t).token)
    (h : House keyPrefix gateways w₀ limit ts w)
    (hsoon : ∀ t ∈ ts, w.now < w₀.now + (gateways t).config.leaseTtl) {t u : G}
    (ht : t ∈ ts.take limit)
    (hu : u ∈ ts.take limit) (hsame : (w.mem t).ownedSlot = (w.mem u).ownedSlot) : t = u := by
  obtain ⟨i, -, d, hi, -, hd, hiuntil⟩ := h.seated t ht
  obtain ⟨j, -, e, hj, -, he, hjuntil⟩ := h.seated u hu
  obtain rfl : i = j := by
    rw [hi, hj] at hsame
    exact Option.some.inj hsame
  have hread := hiuntil.read ((hsoon t (List.mem_of_mem_take ht)).trans_le hd)
  rw [hjuntil.read ((hsoon u (List.mem_of_mem_take hu)).trans_le he)] at hread
  exact (htokens (utf8_injective (Option.some.inj hread))).symm

theorem House.length_of_taken (h : House keyPrefix gateways w₀ limit ts w)
    (htaken : ∀ slot < limit, w.db.strings.read w.now (slotKey keyPrefix slot) ≠ none) :
    limit ≤ ts.length := by
  have hsub : Finset.range limit ⊆
      (ts.take limit).toFinset.image fun t => ((w.mem t).ownedSlot).getD 0 := by
    intro slot hslot
    have hlt := Finset.mem_range.mp hslot
    have howner : ∃ t ∈ ts.take limit, (w.mem t).ownedSlot = some slot := by
      by_contra hnone
      apply htaken slot hlt
      apply h.free slot hlt
      intro t ht hown
      exact hnone ⟨t, ht, hown⟩
    obtain ⟨t, ht, hown⟩ := howner
    apply Finset.mem_image.mpr
    exact ⟨t, List.mem_toFinset.mpr ht, by rw [hown, Option.getD_some]⟩
  have hcard := Finset.card_le_card hsub
  rw [Finset.card_range] at hcard
  calc limit ≤ _ := hcard
    _ ≤ (ts.take limit).toFinset.card := Finset.card_image_le
    _ ≤ (ts.take limit).length := List.toFinset_card_le _
    _ ≤ ts.length := List.length_take_le' _ _

theorem House.seated_of_length (htokens : Function.Injective fun t => (gateways t).token)
    (h : House keyPrefix gateways w₀ limit ts w) (hnodup : ts.Nodup)
    (hsoon : ∀ t ∈ ts, w.now < w₀.now + (gateways t).config.leaseTtl) (hlength : limit ≤ ts.length)
    {slot : ℕ} (hslot : slot < limit) :
    ∃ t ∈ ts.take limit, (w.mem t).ownedSlot = some slot := by
  have hinto : Set.MapsTo (fun t => ((w.mem t).ownedSlot).getD 0) (ts.take limit).toFinset
      (Finset.range limit) := by
    intro t ht
    obtain ⟨k, hk, -, hown, -⟩ := h.seated t (List.mem_toFinset.mp ht)
    simpa [hown] using hk
  have hinj : Set.InjOn (fun t => ((w.mem t).ownedSlot).getD 0) (ts.take limit).toFinset := by
    intro t ht u hu hsame
    have ht := List.mem_toFinset.mp ht
    have hu := List.mem_toFinset.mp hu
    apply h.slot_injective htokens hsoon ht hu
    obtain ⟨i, -, -, hi, -⟩ := h.seated t ht
    obtain ⟨j, -, -, hj, -⟩ := h.seated u hu
    simp only [hi, hj, Option.getD_some] at hsame
    rw [hi, hj, hsame]
  have hcard : (Finset.range limit).card ≤ (ts.take limit).toFinset.card := by
    rw [List.toFinset_card_of_nodup (hnodup.sublist (List.take_sublist _ _)), List.length_take,
      Finset.card_range]
    omega
  obtain ⟨t, ht, hown⟩ := Finset.surjOn_of_injOn_of_card_le _ hinto hinj hcard
    (Finset.mem_coe.mpr (Finset.mem_range.mpr hslot))
  have ht := List.mem_toFinset.mp ht
  obtain ⟨k, -, -, hk, -⟩ := h.seated t ht
  simp only [hk, Option.getD_some] at hown
  exact ⟨t, ht, by rw [hk, hown]⟩

omit [DecidableEq G] in
theorem House.wait {later : ℕ} (h : House keyPrefix gateways w₀ limit ts w) (hle : w.now ≤ later) :
    House keyPrefix gateways w₀ limit ts { w with now := later } where
  now := h.now.trans hle
  max := h.max
  idle := h.idle
  seated := h.seated
  free slot hslot hnone := read_eq_none_of_le (h.free slot hslot hnone) hle

/-- The next gateway takes a free slot if there is one, and none otherwise. -/
theorem House.turn (htokens : Function.Injective fun t => (gateways t).token)
    (h : House keyPrefix gateways w₀ limit ts w) (hnodup : (ts ++ [t]).Nodup) (hle : w.now ≤ w'.now)
    (hsoon : ∀ u ∈ ts ++ [t], w'.now < w₀.now + (gateways u).config.leaseTtl)
    (hpassed : Passed keyPrefix gateways t w.mem (w.mem t) w.now w.db limit
      ⟨w'.now, w'.db, w'.mem⟩) : House keyPrefix gateways w₀ limit (ts ++ [t]) w' := by
  obtain ⟨hts, -, hdisjoint⟩ := List.nodup_append.mp hnodup
  have ht : t ∉ ts := fun hmem => hdisjoint t hmem t (List.mem_singleton.mpr rfl) rfl
  have hsoon' : ∀ u ∈ ts, w'.now < w₀.now + (gateways u).config.leaseTtl :=
    fun u hu => hsoon u (List.mem_append_left _ hu)
  obtain ⟨howned, hvalid⟩ := h.idle t fun hmem => ht (List.mem_of_mem_take hmem)
  have hnone : ∀ key k, (w.mem t).ownedSlot = some k → key ≠ slotKey keyPrefix k := by
    intro key k hk
    rw [howned] at hk
    cases hk
  have hkept : ∀ u ∈ ts.take limit, u ≠ t := by
    rintro u hu rfl
    exact ht (List.mem_of_mem_take hu)
  cases hpassed with
  | kept hown =>
      rw [howned] at hown
      cases hown
  | lost hown =>
      rw [howned] at hown
      cases hown
  | @elected slot sent _ hslot hfree since hmem huntil frame =>
      obtain ⟨τ, hτ, hτ', hfree⟩ := hfree
      have hheld : ∀ u ∈ ts.take limit, (w.mem u).ownedSlot ≠ some slot := by
        intro u hu hown
        obtain ⟨k, -, d, hk, -, hd, hku⟩ := h.seated u hu
        rw [hown] at hk
        obtain rfl := Option.some.inj hk
        rw [hku.read (hτ'.trans_lt ((hsoon' u (List.mem_of_mem_take hu)).trans_le hd))] at hfree
        cases hfree
      have hlength : ts.length < limit := by
        by_contra hfull
        obtain ⟨u, hu, hown⟩ :=
          h.seated_of_length htokens hts (fun u hu => hle.trans_lt (hsoon' u hu))
            (Nat.not_lt.mp hfull) hslot
        exact hheld u hu hown
      have htake : ts.take limit = ts := List.take_of_length_le hlength.le
      have htake' : (ts ++ [t]).take limit = ts ++ [t] := by
        apply List.take_of_length_le
        rw [List.length_append, List.length_singleton]
        exact hlength
      have hframe : ∀ key, key ≠ slotKey keyPrefix slot → w'.db.strings key = w.db.strings key :=
        fun key hkey => frame key (hnone key) hkey
      have hsame : ∀ u, u ≠ t → w'.mem u = w.mem u := by
        intro u hu
        rw [show w'.mem = _ from hmem, Function.update_of_ne hu]
      have hself : w'.mem t = { w.mem t with
          ownedSlot := some slot, validUntil := some (sent + (gateways t).config.leaseTtl) } := by
        rw [show w'.mem = _ from hmem, Function.update_self]
      refine ⟨h.now.trans hle, ?_, ?_, ?_, ?_⟩
      · rw [hframe _ (maxGatewaysKey_ne slot), h.max]
      · intro u hu
        rw [htake', List.mem_append, List.mem_singleton, not_or] at hu
        rw [hsame u hu.2]
        apply h.idle
        rw [htake]
        exact hu.1
      · intro u hu
        rw [htake', List.mem_append, List.mem_singleton] at hu
        rcases hu with hu | rfl
        · rw [← htake] at hu
          obtain ⟨k, hk, d, hown, hd, hle', hku⟩ := h.seated u hu
          have hne : slotKey keyPrefix k ≠ slotKey keyPrefix slot := by
            intro hc
            rw [slotKey_inj.mp hc] at hown
            exact hheld u hu hown
          rw [hsame u (hkept u hu)]
          refine ⟨k, hk, d, hown, hd, hle', ?_⟩
          unfold Store.Until at hku ⊢
          rwa [hframe _ hne]
        · rw [hself]
          refine ⟨slot, hslot, _, rfl, rfl, ?_, huntil⟩
          have := h.now
          omega
      · intro k hk hunowned
        rw [htake'] at hunowned
        have hne : slotKey keyPrefix k ≠ slotKey keyPrefix slot := by
          intro hc
          apply hunowned t (List.mem_append_right _ (List.mem_singleton.mpr rfl))
          rw [hself, slotKey_inj.mp hc]
        have hold : w.db.strings.read w.now (slotKey keyPrefix k) = none := by
          apply h.free k hk
          intro u hu
          rw [← hsame u (hkept u hu)]
          exact hunowned u (List.mem_append_left _ (List.mem_of_mem_take hu))
        unfold Store.read
        rw [hframe _ hne]
        exact read_eq_none_of_le hold hle
  | standby _ htaken hmem frame =>
      have hlength := h.length_of_taken htaken
      have htake : (ts ++ [t]).take limit = ts.take limit := List.take_append_of_le_length hlength
      have hframe : ∀ key, w'.db.strings key = w.db.strings key := fun key => frame key (hnone key)
      have hsame : ∀ u, w'.mem u = w.mem u := by
        intro u
        rw [show w'.mem = _ from hmem]
        by_cases hu : u = t
        · subst hu
          rw [Function.update_self]
          generalize w.mem u = m at howned hvalid ⊢
          cases m
          simp_all
        · rw [Function.update_of_ne hu]
      refine ⟨h.now.trans hle, ?_, ?_, ?_, ?_⟩
      · rw [hframe, h.max]
      · intro u hu
        rw [htake] at hu
        rw [hsame]
        exact h.idle u hu
      · intro u hu
        rw [htake] at hu
        obtain ⟨k, hk, d, hown, hd, hle', hku⟩ := h.seated u hu
        rw [hsame]
        refine ⟨k, hk, d, hown, hd, hle', ?_⟩
        unfold Store.Until at hku ⊢
        rwa [hframe]
      · intro k hk hunowned
        rw [htake] at hunowned
        have hold : w.db.strings.read w.now (slotKey keyPrefix k) = none := by
          apply h.free k hk
          intro u hu
          rw [← hsame u]
          exact hunowned u hu
        unfold Store.read
        rw [hframe]
        exact read_eq_none_of_le hold hle

theorem House.run (htokens : Function.Injective fun t => (gateways t).token)
    (hlimit : ∀ τ, w₀.now ≤ τ →
      limitIn? (w₀.db.strings.read τ (maxGatewaysKey keyPrefix)) = some limit)
    (h : House keyPrefix gateways w₀ limit [] w₀)
    (hturns : Turns anyAnswer () ts ls)
    (hrun : (leaseNetwork keyPrefix gateways others).Run w₀ ls w) (hnodup : ts.Nodup)
    (hsoon : ∀ t ∈ ts, w.now < w₀.now + (gateways t).config.leaseTtl) :
    House keyPrefix gateways w₀ limit ts w := by
  induction hturns generalizing w with
  | nil =>
      obtain rfl := hrun.eq_of_nil
      exact h
  | @wait ts ls σ d hturns ih =>
      obtain ⟨v, v', hv, -, hstep, hdone⟩ := hrun.step_of_append
      obtain rfl := hdone.eq_of_nil
      cases hstep with
      | tick =>
          have hle : v.now ≤ v.now + d := Nat.le_add_right _ d
          exact (ih hv hnodup fun t ht => hle.trans_lt (hsoon t ht)).wait hle
  | @turn ts t ls ls' hturns hturn ih =>
      obtain ⟨v, hv, hrest⟩ := hrun.split
      have hle := hrest.now_le
      have hhouse := ih hv (List.nodup_append.mp hnodup).1 fun u hu =>
        hle.trans_lt (hsoon u (List.mem_append_left _ hu))
      have ht : t ∉ ts.take limit := fun hmem =>
        (List.nodup_append.mp hnodup).2.2 t (List.mem_of_mem_take hmem) t
          (List.mem_singleton.mpr rfl) rfl
      have hsame : ∀ τ, v.db.strings.read τ (maxGatewaysKey keyPrefix) =
          w₀.db.strings.read τ (maxGatewaysKey keyPrefix) := by
        intro τ
        unfold Store.read
        rw [hhouse.max]
      have hlimit' : ∀ τ, v.now ≤ τ →
          limitIn? (v.db.strings.read τ (maxGatewaysKey keyPrefix)) = some limit := by
        intro τ hτ
        rw [hsame]
        exact hlimit τ (hhouse.now.trans hτ)
      obtain ⟨-, hpassed⟩ := lone_pass (fun _ => (hhouse.idle t ht).2) hlimit' hrest hturn
      exact hhouse.turn htokens hnodup hle hsoon hpassed

/-- Gateways that take their turns one after the other on free slots: the first `limit` of them
become eligible, each with a slot of its own, and the others stand by. -/
theorem full_house (htokens : Function.Injective fun t => (gateways t).token)
    (hstart : LeaseStart keyPrefix gateways w₀)
    (hfree : ∀ slot < limit, w₀.db.strings.read w₀.now (slotKey keyPrefix slot) = none)
    (hlimit : ∀ τ, w₀.now ≤ τ →
      limitIn? (w₀.db.strings.read τ (maxGatewaysKey keyPrefix)) = some limit)
    (hrun : (leaseNetwork keyPrefix gateways others).Run w₀ ls w) (hturns : Turns anyAnswer () ts ls)
    (hnodup : ts.Nodup) (hsoon : ∀ t ∈ ts, w.now < w₀.now + (gateways t).config.leaseTtl) :
    (∀ t, (w.mem t).isValid w.now = true ↔ t ∈ ts.take limit) ∧
    (∀ t ∈ ts.take limit, ∃ slot < limit, (w.mem t).ownedSlot = some slot ∧
      StoredAt keyPrefix gateways w t slot) ∧
    ∀ t ∈ ts.take limit, ∀ u ∈ ts.take limit, (w.mem t).ownedSlot = (w.mem u).ownedSlot → t = u := by
  have hempty : House keyPrefix gateways w₀ limit [] w₀ :=
    ⟨le_rfl, rfl, fun t _ => ⟨hstart.owned t, hstart.valid t⟩, by simp,
      fun slot hslot _ => hfree slot hslot⟩
  have hhouse := hempty.run htokens hlimit hturns hrun hnodup hsoon
  refine ⟨?_, ?_, ?_⟩
  · intro t
    rw [LeaseState.isValid_iff]
    constructor
    · rintro ⟨d, hd, -⟩
      by_contra ht
      rw [(hhouse.idle t ht).2] at hd
      cases hd
    · intro ht
      obtain ⟨-, -, d, -, hd, hle, -⟩ := hhouse.seated t ht
      exact ⟨d, hd, (hsoon t (List.mem_of_mem_take ht)).trans_le hle⟩
  · intro t ht
    obtain ⟨slot, hslot, d, hown, -, hle, huntil⟩ := hhouse.seated t ht
    exact ⟨slot, hslot, hown, huntil.read ((hsoon t (List.mem_of_mem_take ht)).trans_le hle)⟩
  · intro t ht u hu hsame
    exact hhouse.slot_injective htokens hsoon ht hu hsame

/-- The second stands by. -/
theorem full_house_duo :
    ∃ ls w, (leaseNetwork "p" duoTask (slotsUntouched "p")).Run duoStart ls w ∧
      Turns anyAnswer () [true, false] ls ∧
      ∀ t, (w.mem t).isValid w.now = true ↔ t ∈ [true, false].take 1 := by
  obtain ⟨ls, v, hrun, hturn, -, hnow⟩ := exists_pass "p" duoTask (slotsUntouched "p")
    (w := duoStart) (t := true) rfl rfl rfl
  obtain ⟨-, hpassed⟩ := lone_pass (fun _ => rfl) (fun τ _ => duoStart_limit τ) hrun hturn
  obtain ⟨-, -, -, -, -, hthreads, hstrays, -⟩ := hrun.turn hturn
  have hdropped : (v.mem false).dropped = false := by
    have hsame : v.mem false = duoStart.mem false := hpassed.mem_of_ne (by decide)
    rw [hsame]
    rfl
  obtain ⟨ls', w, hrun', hturn', -, hnow'⟩ := exists_pass "p" duoTask (slotsUntouched "p")
    (w := v) (t := false) (by rw [hthreads]; rfl) (by rw [hstrays]; rfl) hdropped
  have hturns : Turns anyAnswer () [true, false] (ls ++ ls') := by
    simpa using (Turns.nil.turn hturn).turn hturn'
  have hall := full_house duoTask_injective duoStart_start (fun slot _ => duoStart_slot _ slot)
    (fun τ _ => duoStart_limit τ) (hrun.trans hrun') hturns (by decide) (by
      intro t _
      rw [hnow', hnow]
      cases t <;> decide)
  exact ⟨_, w, hrun.trans hrun', hturns, hall.1⟩

end

end BreezeGateway
