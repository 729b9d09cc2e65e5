import BreezeGateway.RedisAdmission.LeaseInvariant

/-!
# Gateway participation

An eligible gateway holds its slot key in Redis, so a slot has at most one eligible gateway.
Whatever others write, the token of a gateway is never stored under two slot keys.
-/

namespace BreezeGateway

open Effects Effects.Network Lease

section

variable {G : Type} [DecidableEq G] {keyPrefix : String} {gateways : G → GatewayTask}
  {Strict : Prop} {others : ℕ → Db → Db → Prop}

/-- The gateways before their first pass, with tokens that no slot key carries. -/
structure LeaseStart (keyPrefix : String) (gateways : G → GatewayTask) (w : LeaseWorld G) : Prop where
  threads : ∀ t, w.threads t = none
  strays : ∀ t, w.strays t = []
  owned : ∀ t, (w.mem t).ownedSlot = none
  valid : ∀ t, (w.mem t).validUntil = none
  fresh : ∀ t slot, w.db.strings.read w.now (slotKey keyPrefix slot) ≠ some (utf8 (gateways t).token)

def firstView : View := ⟨0, none, none, .unknown, 0⟩

omit [DecidableEq G] in
theorem LeaseStart.leaves_alone {w : LeaseWorld G} (h : LeaseStart keyPrefix gateways w) (t : G) :
    Good keyPrefix (gateways t) Strict w.now w.db.strings (w.mem t) ((w.strays t).map Prod.snd)
      (Phase.of (w.threads t)) firstView := by
  rw [h.threads t, h.strays t]
  refine ⟨⟨Nat.zero_le _, h.owned t, h.valid t, ?_, fun slot hr => absurd hr (h.fresh t slot),
    fun _ => rfl, fun hne => absurd rfl hne, ?_, ?_⟩, trivial⟩
  · intro c hc
    simp [inFlight] at hc
  · intro d hd
    cases hd
  · intro _ d hd
    cases hd

theorem LeaseStart.tracked {w : LeaseWorld G} (h : LeaseStart keyPrefix gateways w) (t : G) :
    Tracked keyPrefix gateways Strict [] w t firstView := by
  refine ⟨h.leaves_alone t, le_rfl, ?_, ?_, fun _ _ => rfl⟩
  · intro slot hslot
    cases hslot
  · intro key hkey
    cases hkey

/-- What every step of any gateway, of Redis and of everybody else preserves. -/
theorem leaseNetwork_sound (Strict : Prop)
    (htokens : Function.Injective fun t => (gateways t).token)
    (hothers : ∀ now db db' t, others now db db' →
      Undisturbed keyPrefix (gateways t) Strict now now db.strings db'.strings) :
    Sound (leaseNetwork keyPrefix gateways others)
      (fun t => leaseContract keyPrefix (gateways t)) (fun _ _ _ => True)
      (fun ls w g => ∀ t, Tracked keyPrefix gateways Strict ls w t (g t)) where
  tick d hI t := (hI t).other rfl (.tick d) rfl rfl rfl
  environment hI h t := (hI t).other rfl (hothers _ _ _ t h) rfl rfl rfl
  launch {ls w g t p mem} hI hidle h := by
    obtain ⟨-, rfl, rfl⟩ := h
    obtain ⟨hgood, hrec⟩ := hI t
    rw [hidle] at hgood hrec
    obtain ⟨hsettled, hgood'⟩ := hgood.launch
    refine ⟨(g t).launched, meets_iterate hsettled, tracked_update ?_ fun s hs => ?_⟩
    · exact .intro hgood' hrec.launch rfl rfl (Function.update_self ..) (Phase.of_idle _)
    · exact (hI s).other rfl (.tick 0) rfl rfl (Function.update_of_ne hs ..)
  act {ls w g t l k x mem} hI hth hpre h := by
    obtain ⟨m', ha, rfl⟩ := h
    obtain ⟨hgood, hrec⟩ := hI t
    rw [hth, Phase.of_idle] at hgood hrec
    obtain ⟨v', hpost, hgood'⟩ := hgood.act hpre ha
    refine ⟨v', hpost, tracked_update ?_ fun s hs => ?_⟩
    · exact .intro hgood' (hrec.act hpre hpost) (Function.update_self ..) rfl
        (Function.update_self ..) (Phase.of_idle _)
    · exact (hI s).other rfl (.tick 0) (Function.update_of_ne hs ..) rfl
        (Function.update_of_ne hs ..)
  send {ls w g t c k} hI hth hpre := by
    obtain ⟨hgood, hrec⟩ := hI t
    rw [hth, Phase.of_idle] at hgood hrec
    rw [← Function.update_eq_self t g]
    refine tracked_update ?_ fun s hs => ?_
    · exact .intro (hgood.send hpre) (hrec.send hpre.1) rfl rfl (Function.update_self ..) rfl
    · exact (hI s).other (if_neg hs.symm) (.tick 0) rfl rfl (Function.update_of_ne hs ..)
  exec {ls w g t c k} hI hth hpre hlane := by
    obtain ⟨hgood, hrec⟩ := hI t
    rw [hth, Phase.of_sent] at hgood hrec
    have hnone : w.strays t = [] := hlane
    rw [hnone] at hgood
    rw [← Function.update_eq_self t g]
    refine tracked_update ?_ fun s hs => ?_
    · have hmap : (w.strays t).map Prod.snd = [] := by rw [hnone, List.map_nil]
      exact .intro (hgood.exec hpre) (hrec.move rfl rfl rfl hrec.settled) rfl hmap
        (Function.update_self ..) rfl
    · have hne : (gateways t).token ≠ (gateways s).token := fun hc => hs (htokens hc).symm
      exact (hI s).other rfl (undisturbed_exec hpre.1 hne) rfl rfl (Function.update_of_ne hs ..)
  deliver {ls w g t c k r r'} hI hth hpre hc := by
    obtain ⟨hgood, hrec⟩ := hI t
    rw [hth, Phase.of_answered] at hgood hrec
    obtain ⟨grip, hafter, hgood'⟩ := hgood.deliver hc
    refine ⟨_, post_heard hafter, tracked_update ?_ fun s hs => ?_⟩
    · exact .intro hgood' (hrec.deliver hafter) rfl rfl (Function.update_self ..) (Phase.of_idle _)
    · exact (hI s).other (if_neg hs.symm) (.tick 0) rfl rfl (Function.update_of_ne hs ..)
  fail {ls w g t c k wire r} hI hth hwire hpre hc := by
    obtain ⟨hgood, hrec⟩ := hI t
    have hafter := gripAfter_failure (gateways t) (g t) hc
    refine ⟨_, post_heard hafter, tracked_update ?_ fun s hs => ?_⟩
    · cases wire with
      | idle => exact absurd rfl hwire
      | sent =>
          rw [hth, Phase.of_sent] at hgood hrec
          have hmap : ((Function.update w.strays t (w.strays t ++ [(t, c)])) t).map Prod.snd =
              (w.strays t).map Prod.snd ++ [c] := by
            rw [Function.update_self, List.map_append, List.map_singleton]
          exact .intro hgood.fail_sent (hrec.fail rfl) rfl hmap (Function.update_self ..)
            (Phase.of_idle _)
      | answered r =>
          rw [hth, Phase.of_answered] at hgood hrec
          exact .intro hgood.fail_answered (hrec.fail rfl) rfl rfl (Function.update_self ..)
            (Phase.of_idle _)
    · refine (hI s).other rfl ?_ (by simp) ?_ (by simp [hs])
      · simpa using Undisturbed.tick 0
      · exact World.abandon_strays_ne _ _ _ _ _ hs
  stray {ls w g lane t c cs} hI hlane s := by
    have haims : Aims keyPrefix (gateways lane) (g lane).owned c :=
      (hI lane).good.facts.aims c (by simp [hlane])
    by_cases hs : s = lane
    · subst hs
      obtain ⟨hgood, hrec⟩ := hI s
      rw [hlane] at hgood
      exact .intro (Good.stray hgood) (hrec.other rfl) rfl
        (congrArg (List.map Prod.snd) (Function.update_self ..)) rfl rfl
    · have hne : (gateways lane).token ≠ (gateways s).token := fun hc => hs (htokens hc).symm
      exact (hI s).other rfl (undisturbed_exec haims hne) rfl (Function.update_of_ne hs ..) rfl
  lose {ls w g lane t c cs} hI hlane s := by
    by_cases hs : s = lane
    · subst hs
      obtain ⟨hgood, hrec⟩ := hI s
      rw [hlane] at hgood
      exact .intro (Good.lose hgood) (hrec.other rfl) rfl
        (congrArg (List.map Prod.snd) (Function.update_self ..)) rfl rfl
    · exact (hI s).other rfl (.tick 0) rfl (Function.update_of_ne hs ..) rfl
  finish {ls w g t a} hI hth _ := by
    obtain ⟨hgood, hrec⟩ := hI t
    rw [hth, Phase.of_idle] at hgood hrec
    refine ⟨g t, tracked_update ?_ fun s hs => ?_⟩
    · exact .intro hgood.finish (hrec.move rfl rfl rfl hrec.settled) rfl rfl
        (Function.update_self ..) rfl
    · exact (hI s).other rfl (.tick 0) rfl rfl (Function.update_of_ne hs ..)
  cancel {ls w g t o k wire} kind hI hth ho _ := by
    obtain ⟨hgood, hrec⟩ := hI t
    cases o with
    | inr l => exact ho.elim
    | inl c =>
        refine ⟨(g t).cancelled kind, ?_⟩
        cases wire with
        | sent =>
            rw [hth, Phase.of_sent] at hgood
            have hmap : ((Function.update w.strays t (w.strays t ++ [(t, c)])) t).map Prod.snd =
                (w.strays t).map Prod.snd ++ [c] := by
              rw [Function.update_self, List.map_append, List.map_singleton]
            refine tracked_update ?_ fun s hs => ?_
            · exact .intro (hgood.cancel kind fun c hc => hc) (hrec.cancel kind)
                (Function.update_self ..) hmap (Function.update_self ..) rfl
            · exact (hI s).other rfl (.tick 0) (Function.update_of_ne hs ..)
                (Function.update_of_ne hs ..) (Function.update_of_ne hs ..)
        | idle =>
            refine tracked_update ?_ fun s hs => ?_
            · exact .intro (hgood.cancel kind fun c hc => List.mem_append_left _ hc)
                (hrec.cancel kind) (Function.update_self ..) rfl (Function.update_self ..) rfl
            · exact (hI s).other rfl (.tick 0) (Function.update_of_ne hs ..) rfl
                (Function.update_of_ne hs ..)
        | answered r =>
            refine tracked_update ?_ fun s hs => ?_
            · exact .intro (hgood.cancel kind fun c hc => List.mem_append_left _ hc)
                (hrec.cancel kind) (Function.update_self ..) rfl (Function.update_self ..) rfl
            · exact (hI s).other rfl (.tick 0) (Function.update_of_ne hs ..) rfl
                (Function.update_of_ne hs ..)

/-! ## Exclusive slots -/

def slotsUntouched (keyPrefix : String) (_ : ℕ) (db db' : Db) : Prop :=
  ∀ slot, db'.strings (slotKey keyPrefix slot) = db.strings (slotKey keyPrefix slot)

theorem slotsUntouched.undisturbed {now : ℕ} {db db' : Db}
    (h : slotsUntouched keyPrefix now db db') (task : GatewayTask) :
    Undisturbed keyPrefix task Strict now now db.strings db'.strings where
  le := le_rfl
  read slot hr := by
    unfold Store.read at hr ⊢
    rwa [h slot] at hr
  kept _ slot d _ hu := by
    unfold Store.Until at hu ⊢
    rwa [h slot]

theorem LeaseState.isValid_iff {m : LeaseState} {now : ℕ} :
    m.isValid now = true ↔ ∃ deadline, m.validUntil = some deadline ∧ now < deadline := by
  unfold LeaseState.isValid
  cases m.validUntil with
  | none => simp
  | some d => simp

theorem Tracked.of_valid {ls : LeaseHistory G} {w : LeaseWorld G} {t : G} {v : View}
    (h : Tracked keyPrefix gateways True ls w t v) (hvalid : (w.mem t).isValid w.now = true) :
    ∃ slot deadline, (w.mem t).ownedSlot = some slot ∧ (w.mem t).validUntil = some deadline ∧
      w.now < deadline ∧ slot < largestLimit ls ∧
      w.db.strings.Until (slotKey keyPrefix slot) (utf8 (gateways t).token) deadline := by
  obtain ⟨deadline, hdeadline, hnow⟩ := LeaseState.isValid_iff.mp hvalid
  have hf := h.good.facts
  have hv : v.valid = some deadline := by rw [← hf.valid, hdeadline]
  obtain ⟨slot, hslot, huntil⟩ := hf.leased trivial deadline hv hnow
  have howned : (w.mem t).ownedSlot = some slot := by rw [hf.owned, hslot]
  exact ⟨slot, deadline, howned, hdeadline, hnow,
    (h.record.below slot hslot).trans_le h.record.limit, huntil⟩

/-- In every state an eligible gateway holds its slot key up to its local deadline, no slot has
two eligible gateways, and there are at most as many as the largest limit ever read. -/
theorem participation_exclusive (htokens : Function.Injective fun t => (gateways t).token)
    {w₀ w : LeaseWorld G} {ls : LeaseHistory G} (hstart : LeaseStart keyPrefix gateways w₀)
    (hrun : (leaseNetwork keyPrefix gateways (slotsUntouched keyPrefix)).Run w₀ ls w) :
    (∀ t, (w.mem t).isValid w.now = true →
      ∃ slot deadline, (w.mem t).ownedSlot = some slot ∧ (w.mem t).validUntil = some deadline ∧
        w.db.strings.read w.now (slotKey keyPrefix slot) = some (utf8 (gateways t).token) ∧
        w.db.strings.Until (slotKey keyPrefix slot) (utf8 (gateways t).token) deadline) ∧
    (∀ t u, (w.mem t).isValid w.now = true → (w.mem u).isValid w.now = true →
      (w.mem t).ownedSlot = (w.mem u).ownedSlot → t = u) ∧
    ∀ eligible : Finset G, (∀ t ∈ eligible, (w.mem t).isValid w.now = true) →
      eligible.card ≤ largestLimit ls := by
  have hsound := leaseNetwork_sound True htokens
    fun _ _ _ t (h : slotsUntouched keyPrefix _ _ _) => h.undisturbed (gateways t)
  obtain ⟨g, hI, -⟩ := hrun.guarantee (fun _ => firstView) hsound hstart.tracked
    (keeps_of_quiet hstart.threads _)
  have hunique : ∀ t u, (w.mem t).isValid w.now = true → (w.mem u).isValid w.now = true →
      (w.mem t).ownedSlot = (w.mem u).ownedSlot → t = u := by
    intro t u ht hu hsame
    obtain ⟨i, d, hi, -, hd, -, htoken⟩ := (hI t).of_valid ht
    obtain ⟨j, d', hj, -, hd', -, hutoken⟩ := (hI u).of_valid hu
    obtain rfl : i = j := by
      rw [hi, hj] at hsame
      exact Option.some.inj hsame
    have hread := htoken.read hd
    rw [hutoken.read hd'] at hread
    exact (htokens (utf8_injective (Option.some.inj hread))).symm
  refine ⟨fun t ht => ?_, hunique, fun eligible heligible => ?_⟩
  · obtain ⟨slot, deadline, howned, hdeadline, hnow, -, huntil⟩ := (hI t).of_valid ht
    exact ⟨slot, deadline, howned, hdeadline, huntil.read hnow, huntil⟩
  · have hbelow : ∀ t ∈ eligible, ((w.mem t).ownedSlot.getD 0) ∈ Finset.range (largestLimit ls) := by
      intro t ht
      obtain ⟨slot, -, howned, -, -, hlt, -⟩ := (hI t).of_valid (heligible t ht)
      rw [howned]
      exact Finset.mem_range.mpr hlt
    have hinj : Set.InjOn (fun t => (w.mem t).ownedSlot.getD 0) eligible := by
      intro t ht u hu hsame
      obtain ⟨i, -, hi, -⟩ := (hI t).of_valid (heligible t ht)
      obtain ⟨j, -, hj, -⟩ := (hI u).of_valid (heligible u hu)
      simp only [hi, hj, Option.getD_some] at hsame
      exact hunique t u (heligible t ht) (heligible u hu) (by rw [hi, hj, hsame])
    have hcard := Finset.card_le_card_of_injOn _ hbelow hinj
    rwa [Finset.card_range] at hcard

/-! A gateway alone with one slot. -/

def soloTask : GatewayTask := ⟨"gw:0", GatewayLeaseConfig.new "gw", by decide⟩

def soloStart : LeaseWorld Unit where
  now := 0
  db := ⟨fun key => if key = "p:max-gateways" then some ⟨utf8 "1", none⟩ else none, fun _ _ => none⟩
  mem _ := ⟨none, none, false⟩
  threads _ := none
  strays _ := []

theorem soloStart_start : LeaseStart "p" (fun _ => soloTask) soloStart where
  threads _ := rfl
  strays _ := rfl
  owned _ := rfl
  valid _ := rfl
  fresh t slot hread := by
    obtain ⟨e, he, -, hv⟩ := Store.read_eq_some.mp hread
    simp only [soloStart] at he
    split at he
    · obtain rfl := Option.some.inj he
      revert hv
      decide
    · cases he

/-- It reads the limit, claims slot 0 and becomes eligible. -/
theorem soloElection (others : ℕ → Db → Db → Prop) :
    ∃ ls w, (leaseNetwork "p" (fun _ => soloTask) others).Run soloStart ls w ∧
      (w.mem ()).isValid w.now = true := by
  have h₀ : (leaseNetwork "p" (fun _ => soloTask) others).Run soloStart [] soloStart := .refl
  have h₁ := h₀.snoc (.launch (t := ()) rfl ⟨rfl, rfl, rfl⟩)
  have h₂ := (h₁.snoc (.send (t := ()) rfl)).snoc (.exec (t := ()) rfl rfl)
  have h₃ := h₂.snoc (.deliver (t := ()) rfl (Or.inl rfl))
  have h₄ := h₃.snoc (.act (t := ()) (x := none) rfl ⟨_, ⟨rfl, rfl⟩, rfl⟩)
  have h₅ := h₄.snoc (.act (t := ()) (x := none) rfl ⟨_, ⟨rfl, rfl⟩, rfl⟩)
  have h₆ := h₅.snoc (.act (t := ()) (x := (0 : ℕ)) rfl ⟨_, rfl, rfl⟩)
  have h₇ := h₆.snoc (.act (t := ()) (x := (0 : ℕ)) rfl ⟨_, ⟨rfl, rfl⟩, rfl⟩)
  have h₈ := h₇.snoc (.act (t := ()) (x := ()) rfl ⟨_, rfl, rfl⟩)
  have h₉ := (h₈.snoc (.send (t := ()) rfl)).snoc (.exec (t := ()) rfl rfl)
  have h₁₀ := h₉.snoc (.deliver (t := ()) rfl (Or.inl rfl))
  have h₁₁ := h₁₀.snoc (.act (t := ()) (x := ()) rfl ⟨_, rfl, rfl⟩)
  exact ⟨_, _, h₁₁, rfl⟩

/-- It holds its slot key until its deadline. -/
theorem participation_exclusive_solo :
    ∃ ls w, (leaseNetwork "p" (fun _ => soloTask) (slotsUntouched "p")).Run soloStart ls w ∧
      (w.mem ()).isValid w.now = true ∧
      ∃ slot deadline, (w.mem ()).ownedSlot = some slot ∧ (w.mem ()).validUntil = some deadline ∧
        w.db.strings.read w.now (slotKey "p" slot) = some (utf8 "gw:0") ∧
        w.db.strings.Until (slotKey "p" slot) (utf8 "gw:0") deadline := by
  obtain ⟨ls, w, hrun, hvalid⟩ := soloElection (slotsUntouched "p")
  have hall := participation_exclusive (fun _ _ _ => rfl) soloStart_start hrun
  exact ⟨ls, w, hrun, hvalid, hall.1 () hvalid⟩

/-! ## One slot for each gateway -/

/-- Others may write anything but the token of a gateway into a slot key. -/
def tokensUnforged (keyPrefix : String) (gateways : G → GatewayTask) (now : ℕ) (db db' : Db) :
    Prop :=
  ∀ t slot, db'.strings.read now (slotKey keyPrefix slot) = some (utf8 (gateways t).token) →
    db.strings.read now (slotKey keyPrefix slot) = some (utf8 (gateways t).token)

omit [DecidableEq G] in
theorem tokensUnforged.undisturbed {now : ℕ} {db db' : Db}
    (h : tokensUnforged keyPrefix gateways now db db') (t : G) :
    Undisturbed keyPrefix (gateways t) False now now db.strings db'.strings where
  le := le_rfl
  read slot hr := h t slot hr
  kept hS := hS.elim

/-- The token of `t` is stored under the key of `slot`. -/
def StoredAt (keyPrefix : String) (gateways : G → GatewayTask) (w : LeaseWorld G) (t : G)
    (slot : ℕ) : Prop :=
  w.db.strings.read w.now (slotKey keyPrefix slot) = some (utf8 (gateways t).token)

/-- In every state the token of a gateway is stored under the remembered slot at most.  A command
on a slot key follows one that is unsettled only on the same key, and a `SET` follows none. -/
theorem one_slot_per_gateway (htokens : Function.Injective fun t => (gateways t).token)
    {w₀ w : LeaseWorld G} {ls : LeaseHistory G} (hstart : LeaseStart keyPrefix gateways w₀)
    (hrun : (leaseNetwork keyPrefix gateways (tokensUnforged keyPrefix gateways)).Run w₀ ls w)
    (t : G) :
    (∀ i j, StoredAt keyPrefix gateways w t i → StoredAt keyPrefix gateways w t j → i = j) ∧
    ((w.mem t).ownedSlot = none → ∀ i, ¬ StoredAt keyPrefix gateways w t i) ∧
    (∀ slot, (w.mem t).ownedSlot = some slot →
      ∀ i, StoredAt keyPrefix gateways w t i → i = slot) ∧
    ∀ c w', (leaseNetwork keyPrefix gateways (tokensUnforged keyPrefix gateways)).Step w
        (.send t c) w' →
      (∀ key key', slotKeyOf c = some key → unsettled t ls = some key' → key' = key) ∧
      (isSet c = true → unsettled t ls = none ∧ (∀ x ∈ w.strays t, slotKeyOf x.2 = none) ∧
        ∀ i, ¬ StoredAt keyPrefix gateways w t i) := by
  have hsound := leaseNetwork_sound False htokens
    fun _ _ _ t (h : tokensUnforged keyPrefix gateways _ _ _) => h.undisturbed t
  obtain ⟨g, hI, hK⟩ := hrun.guarantee (fun _ => firstView) hsound hstart.tracked
    (keeps_of_quiet hstart.threads _)
  obtain ⟨hgood, hrec⟩ := hI t
  have hstored : ∀ i, StoredAt keyPrefix gateways w t i → (w.mem t).ownedSlot = some i := by
    intro i hi
    rw [hgood.facts.owned]
    exact hgood.facts.stored i hi
  refine ⟨fun i j hi hj => ?_, fun hnone i hi => ?_, fun slot hslot i hi => ?_, fun c w' hstep => ?_⟩
  · have hij := hstored i hi
    rw [hstored j hj] at hij
    exact (Option.some.inj hij).symm
  · have hi' := hstored i hi
    rw [hnone] at hi'
    cases hi'
  · have hi' := hstored i hi
    rw [hslot] at hi'
    exact (Option.some.inj hi').symm
  · cases hstep with
    | send hth =>
        obtain ⟨haims, hset, -⟩ := (hK t _ hth).1
        have hphase := hgood.phase
        rw [hth, Phase.of_idle] at hrec hphase
        refine ⟨fun key key' hkey hkey' => ?_, fun hc => ?_⟩
        · obtain ⟨i, hi, rfl⟩ := slotKeyOf_of_aims haims hkey
          obtain ⟨j, hj, rfl⟩ := hrec.key key' hkey'
          rw [hi] at hj
          rw [Option.some.inj hj]
        · have hclear := (hset hc).2
          simp only [PhaseFact, hclear, GripFact] at hphase
          refine ⟨hrec.settled hclear (by simp [Phase.command]), fun x hx => ?_, hphase.2⟩
          have hget := hphase.1 x.2 (List.mem_map_of_mem hx)
          cases hx2 : x.2 <;> simp_all [isGet, slotKeyOf]

/-- After the election the token of the gateway alone is stored once. -/
theorem one_slot_per_gateway_solo :
    ∃ ls w, (leaseNetwork "p" (fun _ => soloTask)
        (tokensUnforged "p" fun _ : Unit => soloTask)).Run soloStart ls w ∧
      (w.mem ()).isValid w.now = true ∧
      ∀ i j, StoredAt "p" (fun _ => soloTask) w () i → StoredAt "p" (fun _ => soloTask) w () j →
        i = j := by
  obtain ⟨ls, w, hrun, hvalid⟩ := soloElection (tokensUnforged "p" fun _ : Unit => soloTask)
  have hall := one_slot_per_gateway (fun _ _ _ => rfl) soloStart_start hrun ()
  exact ⟨ls, w, hrun, hvalid, hall.1⟩

end

end BreezeGateway
