import BreezeGateway.RedisAdmission.Election

/-!
# Gateways that disappear

A gateway whose task has been dropped and whose last command has arrived leaves its slot to the
others when its lease runs out, whatever they do meanwhile; who takes an undisturbed turn then and
has no slot takes over.
-/

namespace BreezeGateway

open Effects Effects.Network Lease

section

variable {G : Type} [DecidableEq G] {keyPrefix : String} {gateways : G → GatewayTask}
  {others : ℕ → Db → Db → Prop} {w₀ w w' w'' : LeaseWorld G} {ls ls' ls'' : LeaseHistory G}
  {l : Label Command Reply leaseSig G LeaseEnd Unit} {t u : G} {key : String} {slot limit : ℕ}

omit [DecidableEq G] in
theorem slotsUntouched.unforged {now : ℕ} {db db' : Db} (h : slotsUntouched keyPrefix now db db') :
    tokensUnforged keyPrefix gateways now db db' := by
  intro t slot hread
  unfold Store.read at hread ⊢
  rwa [h slot] at hread

/-- The task of `t` has ended for good, and nothing of it is in flight. -/
structure Gone (t : G) (w : LeaseWorld G) : Prop where
  dropped : (w.mem t).dropped = true
  thread : w.threads t = none
  strays : w.strays t = []

theorem Gone.step (h : Gone t w) (hstep : (leaseNetwork keyPrefix gateways others).Step w l w') :
    Gone t w' := by
  have hne : ∀ {s th}, w.threads s = some th → t ≠ s := by
    rintro s th hth rfl
    rw [h.thread] at hth
    cases hth
  cases hstep with
  | tick d => exact ⟨h.dropped, h.thread, h.strays⟩
  | environment henv => exact ⟨h.dropped, h.thread, h.strays⟩
  | @launch s p mem hidle hlaunch =>
      obtain ⟨hdropped, rfl, -⟩ := hlaunch
      have hs : t ≠ s := by
        rintro rfl
        rw [h.dropped] at hdropped
        cases hdropped
      exact ⟨h.dropped, (Function.update_of_ne hs ..).trans h.thread, h.strays⟩
  | act hth hact =>
      obtain ⟨m', -, rfl⟩ := hact
      refine ⟨?_, (Function.update_of_ne (hne hth) ..).trans h.thread, h.strays⟩
      exact (congrArg LeaseState.dropped (Function.update_of_ne (hne hth) ..)).trans h.dropped
  | send hth => exact ⟨h.dropped, (Function.update_of_ne (hne hth) ..).trans h.thread, h.strays⟩
  | exec hth hlane =>
      exact ⟨h.dropped, (Function.update_of_ne (hne hth) ..).trans h.thread, h.strays⟩
  | deliver hth hconveys =>
      exact ⟨h.dropped, (Function.update_of_ne (hne hth) ..).trans h.thread, h.strays⟩
  | fail hth hwire hgarbled =>
      refine ⟨?_, ?_, ?_⟩
      · rw [World.abandon_mem]
        exact h.dropped
      · rw [World.abandon_threads]
        exact (Function.update_of_ne (hne hth) ..).trans h.thread
      · exact (World.abandon_strays_ne _ _ _ _ _ (hne hth)).trans h.strays
  | @stray lane s c cs hlane =>
      have hs : t ≠ lane := by
        rintro rfl
        rw [h.strays] at hlane
        cases hlane
      exact ⟨h.dropped, h.thread, (Function.update_of_ne hs ..).trans h.strays⟩
  | @lose lane s c cs hlane =>
      have hs : t ≠ lane := by
        rintro rfl
        rw [h.strays] at hlane
        cases hlane
      exact ⟨h.dropped, h.thread, (Function.update_of_ne hs ..).trans h.strays⟩
  | finish hth => exact ⟨h.dropped, (Function.update_of_ne (hne hth) ..).trans h.thread, h.strays⟩
  | @cancel s o k wire kind hth ho =>
      refine ⟨?_, ?_, ?_⟩
      · exact (congrArg LeaseState.dropped (Function.update_of_ne (hne hth) ..)).trans h.dropped
      · rw [World.abandonOp_threads]
        exact (Function.update_of_ne (hne hth) ..).trans h.thread
      · cases o with
        | inl c => exact (World.abandon_strays_ne _ _ _ _ _ (hne hth)).trans h.strays
        | inr o => exact h.strays

theorem Gone.run (h : Gone t w) (hrun : (leaseNetwork keyPrefix gateways others).Run w ls w') :
    Gone t w' := by
  induction hrun with
  | refl => exact h
  | snoc hrun hstep ih => exact ih.step hstep

/-- A command that Redis executes is one of a task that is not gone. -/
theorem aims_of_executed (htokens : Function.Injective fun t => (gateways t).token)
    (hothers : ∀ now db db', others now db db' → tokensUnforged keyPrefix gateways now db db')
    (hstart : LeaseStart keyPrefix gateways w₀)
    (hrun : (leaseNetwork keyPrefix gateways others).Run w₀ ls w)
    (hstep : (leaseNetwork keyPrefix gateways others).Step w l w') {c : Command} {r : Reply}
    (h : executed l = some (c, r)) :
    ∃ s owned, Aims keyPrefix (gateways s) owned c ∧ ¬ Gone s w := by
  have hsound := leaseNetwork_sound False htokens
    fun now db db' t (h : others now db db') => (hothers now db db' h).undisturbed t
  obtain ⟨g, hI, hK⟩ := hrun.guarantee (fun _ => firstView) hsound hstart.tracked
    (keeps_of_quiet hstart.threads _)
  cases hstep with
  | @exec s c' k hth hlane =>
      obtain ⟨rfl, -⟩ := Prod.mk.inj (Option.some.inj h)
      refine ⟨s, (g s).owned, (hK s _ hth).1.1, ?_⟩
      intro hgone
      rw [hgone.thread] at hth
      cases hth
  | @stray s s' c' cs hlane =>
      obtain ⟨rfl, -⟩ := Prod.mk.inj (Option.some.inj h)
      refine ⟨s, (g s).owned, (hI s).good.facts.aims c' (by simp [hlane]), ?_⟩
      intro hgone
      rw [hgone.strays] at hlane
      cases hlane
  | _ => cases h

omit [DecidableEq G] in
theorem grants_of_aims {c : Command} {op : LockOp Bytes} {value : Bytes} {ttl : ℕ} {owned : Option ℕ}
    (haims : Aims keyPrefix (gateways t) owned c) (hop : lockOp key c = some op)
    (hgrants : op.Grants value ttl) :
    value = utf8 (gateways t).token ∧ ttl = (gateways t).config.leaseTtl := by
  obtain rfl := key_of_lockOp hop
  cases c with
  | set k v px =>
      obtain ⟨i, -, -, rfl, rfl⟩ := haims
      obtain rfl : LockOp.acquire _ _ = op := Option.some.inj (lockOp_set.symm.trans hop)
      cases hgrants
      exact ⟨rfl, millis_px⟩
  | renew k v px =>
      obtain ⟨i, -, -, rfl, rfl⟩ := haims
      obtain rfl : LockOp.renew _ _ = op := Option.some.inj (lockOp_renew.symm.trans hop)
      cases hgrants
      exact ⟨rfl, millis_px⟩
  | complete k v =>
      obtain rfl : LockOp.release _ = op := Option.some.inj (lockOp_complete.symm.trans hop)
      cases hgrants
  | get k =>
      obtain rfl : LockOp.look = op := Option.some.inj (lockOp_get.symm.trans hop)
      cases hgrants
  | hget k field => cases hop
  | hincrby k field n => cases hop

/-- A lease of `t` was given to it while it was there, and for its own time. -/
theorem granted_before (htokens : Function.Injective fun t => (gateways t).token)
    (hothers : ∀ now db db', others now db db' → tokensUnforged keyPrefix gateways now db db')
    (hstart : LeaseStart keyPrefix gateways w₀)
    (hrun : (leaseNetwork keyPrefix gateways others).Run w₀ ls w) (hgone : Gone t w)
    (hrun' : (leaseNetwork keyPrefix gateways others).Run w ls' w')
    {τ ttl : ℕ} {op : LockOp Bytes} {answer : LockAnswer Bytes}
    (hmem : (τ, op, answer) ∈ lockHistory key (ls ++ ls'))
    (hgrants : op.Grants (utf8 (gateways t).token) ttl) :
    τ ≤ w.now ∧ ttl = (gateways t).config.leaseTtl := by
  obtain ⟨⟨σ, l⟩, hx, hevent⟩ := List.mem_filterMap.mp hmem
  obtain ⟨c, r, hexecuted, hop, -⟩ := lockEvent_eq_some hevent
  obtain rfl : σ = τ := by
    obtain ⟨e, -, hmap⟩ := Option.bind_eq_some_iff.mp hevent
    obtain ⟨op', -, heq⟩ := Option.map_eq_some_iff.mp hmap
    exact congrArg Prod.fst heq
  have hof : ∀ {a v v'}, (leaseNetwork keyPrefix gateways others).Run w₀ a v →
      (leaseNetwork keyPrefix gateways others).Step v l v' →
      ttl = (gateways t).config.leaseTtl ∧ ¬ Gone t v := by
    intro a v v' hv hstep
    obtain ⟨s, owned, haims, hthere⟩ :=
      aims_of_executed htokens hothers hstart hv hstep hexecuted
    obtain ⟨htoken, httl⟩ := grants_of_aims haims hop hgrants
    obtain rfl : t = s := htokens (utf8_injective htoken)
    exact ⟨httl, hthere⟩
  rcases List.mem_append.mp hx with hx | hx
  · obtain ⟨a, b, rfl⟩ := List.append_of_mem hx
    obtain ⟨v, v', hv, rfl, hstep, hrest⟩ := hrun.step_of_append
    exact ⟨hstep.now_le.trans hrest.now_le, (hof hv hstep).1⟩
  · obtain ⟨a, b, rfl⟩ := List.append_of_mem hx
    obtain ⟨v, v', hv, -, hstep, -⟩ := hrun'.step_of_append
    exact absurd (hgone.run hv) (hof (hrun.trans hv) hstep).2

/-- When its lease has run out, no slot carries the token of a gateway that is gone. -/
theorem gone_slot_lapses (htokens : Function.Injective fun t => (gateways t).token)
    (hstart : LeaseStart keyPrefix gateways w₀)
    (hrun : (leaseNetwork keyPrefix gateways (slotsUntouched keyPrefix)).Run w₀ ls w)
    (hgone : Gone t w)
    (hrun' : (leaseNetwork keyPrefix gateways (slotsUntouched keyPrefix)).Run w ls' w')
    (hlater : w.now + (gateways t).config.leaseTtl ≤ w'.now) (slot : ℕ) :
    ¬ StoredAt keyPrefix gateways w' t slot := by
  intro hread
  have hall := hrun.trans hrun'
  rcases (lock_read rfl (fun now db db' (h : slotsUntouched _ now db db') => h slot) hall _).mp hread with
    ⟨τ, op, ttl, ⟨a, b, hhistory, -⟩, hgrants, hlt⟩ | ⟨-, hread₀⟩
  · have hmem : (τ, op, .done true) ∈ lockHistory (slotKey keyPrefix slot) (ls ++ ls') := by
      rw [hhistory]
      simp
    obtain ⟨hτ, rfl⟩ := granted_before htokens (fun _ _ _ h => slotsUntouched.unforged h) hstart hrun
      hgone hrun' hmem hgrants
    omega
  · exact hstart.fresh t slot (Store.read_of_le hread₀ hall.now_le)

/-! ## Taking over -/

theorem owned_of_stored (htokens : Function.Injective fun t => (gateways t).token)
    (hothers : ∀ now db db', others now db db' → tokensUnforged keyPrefix gateways now db db')
    (hstart : LeaseStart keyPrefix gateways w₀)
    (hrun : (leaseNetwork keyPrefix gateways others).Run w₀ ls w)
    (hstored : StoredAt keyPrefix gateways w t slot) : (w.mem t).ownedSlot = some slot := by
  have hsound := leaseNetwork_sound False htokens
    fun now db db' t (h : others now db db') => (hothers now db db' h).undisturbed t
  obtain ⟨g, hI, -⟩ := hrun.guarantee (fun _ => firstView) hsound hstart.tracked
    (keeps_of_quiet hstart.threads _)
  rw [(hI t).good.facts.owned]
  exact (hI t).good.facts.stored slot hstored

/-- A slot that was free at the start carries the token of a gateway or nothing. -/
theorem free_of_unstored (htokens : Function.Injective fun t => (gateways t).token)
    (hstart : LeaseStart keyPrefix gateways w₀)
    (hfree : w₀.db.strings.read w₀.now (slotKey keyPrefix slot) = none)
    (hrun : (leaseNetwork keyPrefix gateways (slotsUntouched keyPrefix)).Run w₀ ls w)
    (hunstored : ∀ t, ¬ StoredAt keyPrefix gateways w t slot) :
    w.db.strings.read w.now (slotKey keyPrefix slot) = none := by
  rw [Option.eq_none_iff_forall_ne_some]
  intro value hread
  rcases (lock_read rfl (fun now db db' (h : slotsUntouched _ now db db') => h slot) hrun _).mp hread
    with ⟨τ, op, ttl, ⟨a, b, hhistory, -⟩, hgrants, -⟩ | ⟨-, hread₀⟩
  · have hmem : (τ, op, LockAnswer.done true) ∈ lockHistory (slotKey keyPrefix slot) ls := by
      rw [hhistory]
      simp
    obtain ⟨⟨σ, l⟩, hx, hevent⟩ := List.mem_filterMap.mp hmem
    obtain ⟨c, r, hexecuted, hop, -⟩ := lockEvent_eq_some hevent
    obtain ⟨a, b, rfl⟩ := List.append_of_mem hx
    obtain ⟨v, v', hv, -, hstep, -⟩ := hrun.step_of_append
    obtain ⟨s, owned, haims, -⟩ := aims_of_executed htokens
      (fun _ _ _ h => slotsUntouched.unforged h) hstart hv hstep hexecuted
    obtain ⟨rfl, -⟩ := grants_of_aims haims hop hgrants
    exact hunstored s hread
  · rw [read_eq_none_of_le hfree hrun.now_le] at hread₀
    cases hread₀

theorem Passed.takes_over {mem : G → LeaseState} {s : LeaseState} {n : ℕ} {db : Db}
    {m : Moment Db (G → LeaseState)} (h : Passed keyPrefix gateways t mem s n db limit m)
    (howned : s.ownedSlot = none) (hslot : slot < limit)
    (hfree : db.strings.read n (slotKey keyPrefix slot) = none)
    (hsoon : m.now < n + (gateways t).config.leaseTtl) : (m.mem t).isValid m.now = true := by
  cases h with
  | kept hown =>
      rw [howned] at hown
      cases hown
  | lost hown =>
      rw [howned] at hown
      cases hown
  | elected _ _ _ since hmem =>
      rw [hmem, Function.update_self, LeaseState.isValid_iff]
      exact ⟨_, rfl, by omega⟩
  | standby _ htaken => exact absurd hfree (htaken slot hslot)

theorem exists_drop (hidle : w.threads t = none) (hstrays : w.strays t = [])
    (hdropped : (w.mem t).dropped = false) :
    ∃ ls w', (leaseNetwork keyPrefix gateways others).Run w ls w' ∧ Gone t w' ∧ w'.now = w.now ∧
      w'.db = w.db ∧ w'.strays = w.strays ∧ ∀ u, u ≠ t → w'.mem u = w.mem u ∧
        w'.threads u = w.threads u := by
  obtain ⟨k, hiterate⟩ : ∃ k, iterate keyPrefix (gateways t).token (gateways t).config =
      .op (.inl (.get (maxGatewaysKey keyPrefix))) k := ⟨_, rfl⟩
  have h₁ := (Run.refl (N := leaseNetwork keyPrefix gateways others)).snoc
    (.launch hidle ⟨hdropped, rfl, rfl⟩)
  have hth : Function.update w.threads t
      (some ⟨iterate keyPrefix (gateways t).token (gateways t).config, .idle⟩) t =
        some ⟨.op (.inl (.get (maxGatewaysKey keyPrefix))) k, .idle⟩ := by
    rw [Function.update_self, hiterate]
  have h₂ := h₁.snoc
    (show (leaseNetwork keyPrefix gateways others).Step _ (.cancel t .abort) _ from
      .cancel hth trivial)
  refine ⟨_, _, h₂, ⟨?_, ?_, hstrays⟩, rfl, rfl, rfl, ?_⟩
  · change (Function.update w.mem t (leaseCancel (w.mem t) .abort) t).dropped = true
    rw [Function.update_self]
    rfl
  · exact Function.update_self ..
  · intro u hu
    refine ⟨Function.update_of_ne hu .., ?_⟩
    exact (Function.update_of_ne hu ..).trans (Function.update_of_ne hu ..)

end

end BreezeGateway
