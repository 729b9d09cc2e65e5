import BreezeGateway.RedisAdmission.ForwardedTicket
import BreezeGateway.RedisAdmission.Undisturbed

/-!
# Admissions that nobody disturbs

What one call of `try_acquire` or `try_acquire_request` does when Redis answers it and nobody comes
between: it gets a ticket exactly if everything is there that it needs, and changes Redis only then.
-/

namespace BreezeGateway

open Effects Effects.Network RedisAdmissionProvider

/-! ## Texts of a ticket -/

def Sayable (s : String) : Prop :=
  trimIsEmpty s = false ∧ isAscii s = true ∧ (utf8 s).all isValueByte = true

theorem exists_fromStr_iff {s : String} :
    (∃ v, HeaderValue.fromStr s = some v) ↔ (utf8 s).all isValueByte = true := by
  unfold HeaderValue.fromStr HeaderValue.fromBytes
  split
  · rename_i h
    exact iff_of_true ⟨_, rfl⟩ h
  · rename_i h
    refine iff_of_false ?_ h
    rintro ⟨v, hv⟩
    cases hv

theorem exists_ticket_iff {scope token : String} :
    (∃ ticket, AdmissionTicket.new scope token = .ok ticket) ↔ Sayable scope ∧ Sayable token := by
  constructor
  · rintro ⟨ticket, hnew⟩
    obtain ⟨hscope, htoken, hs, ht⟩ := AdmissionTicket.new_values hnew
    unfold AdmissionTicket.new at hnew
    split at hnew
    · cases hnew
    · rename_i hcheck
      simp only [Bool.or_eq_true, not_or, Bool.not_eq_true] at hcheck
      exact ⟨⟨hcheck.1.1.1, hscope, exists_fromStr_iff.mp ⟨_, hs⟩⟩,
        hcheck.1.1.2, htoken, exists_fromStr_iff.mp ⟨_, ht⟩⟩
  · rintro ⟨⟨hscope, hscopeAscii, hs⟩, htoken, htokenAscii, ht⟩
    obtain ⟨v, hv⟩ := exists_fromStr_iff.mpr hs
    obtain ⟨v', hv'⟩ := exists_fromStr_iff.mpr ht
    have hcheck : (trimIsEmpty scope || trimIsEmpty token || !isAscii scope || !isAscii token) =
        false := by
      rw [hscope, htoken, hscopeAscii, htokenAscii]
      rfl
    unfold AdmissionTicket.new
    rw [dif_neg (by rw [hcheck]; exact Bool.false_ne_true)]
    split
    · rename_i hnone
      rw [hv] at hnone
      cases hnone
    · split
      · rename_i hnone
        rw [hv'] at hnone
        cases hnone
      · exact ⟨_, rfl⟩

theorem sayable_acquisitionToken (random : Fin (2 ^ 128) × Fin (2 ^ 128)) :
    Sayable (acquisitionToken random) := by
  have hdigits : ∀ c ∈ (acquisitionToken random).toList, ∃ d < 16, c = d.digitChar := by
    intro c hc
    unfold acquisitionToken at hc
    rw [String.toList_append, List.mem_append] at hc
    exact hc.elim mem_hex32 mem_hex32
  have hascii : isAscii (acquisitionToken random) = true := by
    apply List.all_eq_true.mpr
    intro c hc
    obtain ⟨d, hd, rfl⟩ := hdigits c hc
    interval_cases d <;> decide
  refine ⟨?_, hascii, ?_⟩
  · have hblank := hex32_not_blank random.1
    unfold trimIsEmpty at hblank ⊢
    unfold acquisitionToken
    rw [String.toList_append, List.all_append, hblank, Bool.false_and]
  · rw [utf8_of_isAscii hascii, List.all_map, List.all_eq_true]
    intro c hc
    obtain ⟨d, hd, rfl⟩ := hdigits c hc
    interval_cases d <;> decide

/-! ## What an admission needs -/

/-- An admission of `scope` that starts at `start`. -/
structure Trial (Index : Type) where
  lib : Libraries Index
  provider : RedisAdmissionProvider
  scope : String
  /-- The counted path and its limit. -/
  quota : Option (String × ℕ)
  eligible : Bool
  discovery : Discovery
  start : ℕ
  db : Db

inductive AdmissionNeed where
  | participation
  | keys
  | discovery
  | recorder
  | room
  | scope
  | slot
  | counter
deriving DecidableEq

namespace Trial

variable {Index : Type} (A : Trial Index)

def slotKey : String := A.provider.key A.scope

def field (api : String) : Option Field := A.db.hashes A.provider.countsKey api

/-- The recorder is registered with an origin that a ticket can carry. -/
def Registers (τ : ℕ) (origin : Uri) : Prop :=
  (∃ bytes, A.db.strings.read τ A.provider.recorderUrlKey = some bytes ∧
    registrationOrigin A.lib bytes = .ok origin) ∧ origin.isHttpOrigin = true

def Met (τ : ℕ) : AdmissionNeed → Prop
  | .participation => A.eligible = true
  | .keys => A.slotKey ≠ A.provider.recorderUrlKey
  | .discovery => ∃ d, A.discovery.tryLookup τ = .ok d
  | .recorder => ∃ origin, A.Registers τ origin
  | .room => ∀ api limit, A.quota = some (api, limit) →
      ∃ v count, Db.fieldReply (A.field api) = .ok v ∧ countOf v = .ok count ∧ count < limit
  | .scope => Sayable A.scope
  | .slot => A.db.strings.read τ A.slotKey = none
  | .counter => ∀ api limit, A.quota = some (api, limit) →
      ∃ n, Db.counter (A.field api) = some n ∧ 0 < n + 1 ∧ n + 1 ≤ 2 ^ 63 - 1

/-- What Redis holds after an admission at time `τ` with this token. -/
def entered (τ : ℕ) (token : String) : Db :=
  let db := (A.db.exec τ (.set A.slotKey (utf8 token) A.provider.ttlMs)).1
  A.quota.elim db fun q => (db.exec τ (.hincrby A.provider.countsKey q.1 1)).1

variable {Mem : Type}

structure Won (m : Moment Db Mem) (ticket : AdmissionTicket) : Prop where
  scope : ticket.scope = A.scope
  origin : ∃ τ origin, A.start ≤ τ ∧ τ ≤ m.now ∧ A.Registers τ origin ∧ ticket.origin = some origin
  slot : ∃ τ, A.start ≤ τ ∧ τ ≤ m.now ∧ A.Met τ .slot ∧ m.db = A.entered τ ticket.token
  others : ∀ τ need, need ∈ [AdmissionNeed.keys, .room, .scope, .counter] → A.Met τ need

/-- Something was missing; the slot stays taken only if the count could not be raised. -/
structure Lacks (m : Moment Db Mem) (need : AdmissionNeed) : Prop where
  unmet : ∃ τ, A.start ≤ τ ∧ τ ≤ m.now ∧ ¬ A.Met τ need
  db : need ≠ .counter → m.db = A.db

/-- How the part under the guard of the lookup ends. -/
inductive Looked (m : Moment Db Mem) : Except AdmissionError (AcquireOutcome × Bool) → Prop where
  | acquired {ticket : AdmissionTicket} (h : A.Won m ticket) : Looked m (.ok (.acquired ticket, true))
  | missed {r : Except AdmissionError (AcquireOutcome × Bool)} (need : AdmissionNeed)
      (hr : ∀ ticket b, r ≠ .ok (.acquired ticket, b)) (h : A.Lacks m need) : Looked m r

/-- How the admission ends. -/
inductive Ended (m : Moment Db Mem) : Except AdmissionError AcquireOutcome → Prop where
  | acquired {ticket : AdmissionTicket} (hmet : ∀ need, ∃ τ, A.start ≤ τ ∧ τ ≤ m.now ∧ A.Met τ need)
      (h : A.Won m ticket) : Ended m (.ok (.acquired ticket))
  | missed {r : Except AdmissionError AcquireOutcome} (need : AdmissionNeed)
      (hr : ∀ ticket, r ≠ .ok (.acquired ticket)) (h : A.Lacks m need) : Ended m r

end Trial

/-! ## Steps of an undisturbed admission -/

/-- Participation and the policy stay as they are. -/
def Constantly {Index : Type} (eligible : Bool) (policy : Option (CompiledPolicy Index)) :
    (o : AdmissionOp) → (admissionSig Index).Ans o → Prop
  | .isParticipating, x => x = eligible
  | .snapshot, x => x = policy
  | _, _ => True

section

variable {Index T F Lane : Type} [DecidableEq T] [DecidableEq F] {D : Deployment Index T F Lane} {t : T}
  {eligible : Bool} {policy : Option (CompiledPolicy Index)} {n : ℕ} {db : Db}
  {mem : AdmissionMemory T F}

/-- The contract of the call `t` when it is undisturbed. -/
abbrev loneCall (D : Deployment Index T F Lane) (t : T) (eligible : Bool)
    (policy : Option (CompiledPolicy Index)) :=
  solo D.network t (Constantly eligible policy)

theorem lone_isParticipating {Q : Moment Db (AdmissionMemory T F) → Except AdmissionError Bool → Prop}
    (h : ∀ n', n ≤ n' → Q ⟨n', db, mem⟩ (.ok eligible)) :
    (isParticipating : AdmissionTask Index Bool).run.Meets (loneCall D t eligible policy) ⟨n, db, mem⟩
      Q := by
  refine meets_perform trivial ?_
  rintro x ⟨n', db', mem'⟩ ⟨τ, hle, hle', hx, hmem, hdb⟩
  obtain rfl : db' = db := hdb
  obtain rfl : mem' = mem := hmem
  obtain rfl : x = eligible := hx
  exact h n' (hle.trans hle')

theorem lone_snapshot
    {Q : Moment Db (AdmissionMemory T F) → Except AdmissionError (Option (CompiledPolicy Index)) → Prop}
    (h : ∀ n', n ≤ n' → Q ⟨n', db, mem⟩ (.ok policy)) :
    (snapshot : AdmissionTask Index (Option (CompiledPolicy Index))).run.Meets
      (loneCall D t eligible policy) ⟨n, db, mem⟩ Q := by
  refine meets_perform trivial ?_
  rintro x ⟨n', db', mem'⟩ ⟨τ, hle, hle', hx, ⟨-, hmem⟩, hdb⟩
  obtain rfl : db' = db := hdb
  obtain rfl : mem' = mem := hmem
  obtain rfl : x = policy := hx
  exact h n' (hle.trans hle')

theorem lone_tryLookup
    {Q : Moment Db (AdmissionMemory T F) → Except AdmissionError (Except LookupUnavailable Unit) → Prop}
    (hok : ∀ τ n' d, n ≤ τ → τ ≤ n' → (mem.discovery (D.family t)).tryLookup τ = .ok d →
      Q ⟨n', db, mem.hold (D.family t) t d⟩ (.ok (.ok ())))
    (herr : ∀ τ n' e, n ≤ τ → τ ≤ n' → (mem.discovery (D.family t)).tryLookup τ = .error e →
      Q ⟨n', db, mem⟩ (.ok (.error e))) :
    (tryLookup : AdmissionTask Index (Except LookupUnavailable Unit)).run.Meets
      (loneCall D t eligible policy) ⟨n, db, mem⟩ Q := by
  refine meets_perform trivial ?_
  rintro x ⟨n', db', mem'⟩ ⟨τ, hle, hle', -, hact, hdb⟩
  obtain rfl : db' = db := hdb
  change D.act τ t mem .tryLookup x mem' at hact
  cases htry : (mem.discovery (D.family t)).tryLookup τ with
  | ok d =>
      simp only [Deployment.act, htry] at hact
      obtain ⟨rfl, rfl⟩ := hact
      exact hok τ n' d hle hle' htry
  | error e =>
      simp only [Deployment.act, htry] at hact
      obtain ⟨rfl, rfl⟩ := hact
      exact herr τ n' e hle hle' htry

theorem lone_randomToken
    {Q : Moment Db (AdmissionMemory T F) → Except AdmissionError (Fin (2 ^ 128) × Fin (2 ^ 128)) → Prop}
    (h : ∀ random n' mem', n ≤ n' → Q ⟨n', db, mem'⟩ (.ok random)) :
    (randomToken : AdmissionTask Index (Fin (2 ^ 128) × Fin (2 ^ 128))).run.Meets
      (loneCall D t eligible policy) ⟨n, db, mem⟩ Q := by
  refine meets_perform trivial ?_
  rintro x ⟨n', db', mem'⟩ ⟨τ, hle, hle', -, -, hdb⟩
  obtain rfl : db' = db := hdb
  exact h x n' mem' (hle.trans hle')

theorem lone_dropLookup {available : Bool}
    {Q : Moment Db (AdmissionMemory T F) → Except AdmissionError Unit → Prop}
    (h : ∀ τ n', n ≤ τ → τ ≤ n' → Q ⟨n', db, mem.release (D.family t) t τ available⟩ (.ok ())) :
    (dropLookup available : AdmissionTask Index Unit).run.Meets (loneCall D t eligible policy)
      ⟨n, db, mem⟩ Q := by
  refine meets_perform trivial ?_
  rintro x ⟨n', db', mem'⟩ ⟨τ, hle, hle', -, hmem, hdb⟩
  obtain rfl : db' = db := hdb
  obtain rfl : mem' = _ := hmem
  cases x
  exact h τ n' hle hle'

variable {A : Trial Index}

theorem lone_exhausted :
    (exhausted A.provider A.quota : AdmissionTask Index Bool).run.Meets (loneCall D t eligible policy)
      ⟨n, A.db, mem⟩ fun m r => n ≤ m.now ∧ m.db = A.db ∧
        ((r = .ok false ∧ ∀ τ, A.Met τ .room) ∨ (r ≠ .ok false ∧ ∀ τ, ¬ A.Met τ .room)) := by
  unfold exhausted
  cases hquota : A.quota with
  | none =>
      refine ⟨le_rfl, rfl, Or.inl ⟨rfl, ?_⟩⟩
      intro τ api limit hsome
      rw [hquota] at hsome
      cases hsome
  | some q =>
      obtain ⟨api, limit⟩ := q
      dsimp only
      rw [meets_bind_ok]
      obtain ⟨v, hv, hokay⟩ : ∃ v, Db.fieldReply (A.field api) = .ok v ∧ v ≠ .okay := by
        unfold Db.fieldReply
        split <;> exact ⟨_, rfl, by simp⟩
      have hreply : ∀ now, (A.db.exec now (.hget A.provider.countsKey api)).2 = .ok v := fun _ => hv
      refine solo_exec rfl rfl ?_ ?_
      · intro now hc
        rw [hreply] at hc
        exact hokay (Except.ok.inj hc)
      · intro now n' hle hle'
        rw [hreply]
        dsimp only [Except.mapError]
        rw [meets_bind_ok, meets_ofResult]
        have hroom : ∀ τ, A.Met τ .room ↔ ∃ count, countOf v = .ok count ∧ count < limit := by
          intro τ
          simp only [Trial.Met, hquota]
          constructor
          · intro h
            obtain ⟨v', count, hv', hcount, hlt⟩ := h api limit rfl
            rw [hv] at hv'
            obtain rfl := Except.ok.inj hv'
            exact ⟨count, hcount, hlt⟩
          · rintro ⟨count, hcount, hlt⟩ api' limit' hsame
            obtain ⟨rfl, rfl⟩ := Prod.mk.inj (Option.some.inj hsame)
            exact ⟨v, count, hv, hcount, hlt⟩
        cases hcount : countOf v with
        | error e =>
            refine ⟨hle.trans hle', rfl, Or.inr ⟨by simp, ?_⟩⟩
            intro τ hmet
            obtain ⟨count, hcount', -⟩ := (hroom τ).mp hmet
            rw [hcount] at hcount'
            cases hcount'
        | ok count =>
            refine ⟨hle.trans hle', rfl, ?_⟩
            rcases Nat.lt_or_ge count limit with hlt | hge
            · left
              refine ⟨?_, fun τ => (hroom τ).mpr ⟨count, hcount, hlt⟩⟩
              rw [decide_eq_false (Nat.not_le.mpr hlt)]
            · right
              refine ⟨?_, ?_⟩
              · rw [decide_eq_true hge]
                simp
              · intro τ hmet
                obtain ⟨count', hcount', hlt⟩ := (hroom τ).mp hmet
                rw [hcount] at hcount'
                obtain rfl := Except.ok.inj hcount'
                omega

/-- The count is raised if it can be, after the slot has been taken at `τ`. -/
theorem lone_countAdmission (τ : ℕ) (token : String) :
    (countAdmission A.provider A.quota : AdmissionTask Index Unit).run.Meets
      (loneCall D t eligible policy)
      ⟨n, (A.db.exec τ (.set A.slotKey (utf8 token) A.provider.ttlMs)).1, mem⟩ fun m r => n ≤ m.now ∧
        ((r = .ok () ∧ m.db = A.entered τ token ∧ ∀ τ, A.Met τ .counter) ∨
          (r ≠ .ok () ∧ ∀ τ, ¬ A.Met τ .counter)) := by
  unfold countAdmission
  cases hquota : A.quota with
  | none =>
      refine ⟨le_rfl, Or.inl ⟨rfl, ?_, ?_⟩⟩
      · simp only [Trial.entered, hquota, Option.elim_none]
      · intro τ api limit hsome
        rw [hquota] at hsome
        cases hsome
  | some q =>
      obtain ⟨api, limit⟩ := q
      generalize hdb : (A.db.exec τ (.set A.slotKey (utf8 token) A.provider.ttlMs)).1 = db
      have hfield : db.hashes A.provider.countsKey api = A.field api := by
        rw [← hdb]
        rfl
      have hentered : A.entered τ token = (db.exec τ (.hincrby A.provider.countsKey api 1)).1 := by
        simp only [Trial.entered, hquota, Option.elim_some, hdb]
      have hcounter : ∀ τ, A.Met τ .counter ↔ ∃ n, Db.counter (A.field api) = some n ∧ 0 < n + 1 ∧
          n + 1 ≤ 2 ^ 63 - 1 := by
        intro τ
        simp only [Trial.Met, hquota]
        constructor
        · intro h
          exact h api limit rfl
        · rintro h api' limit' hsame
          obtain ⟨rfl, rfl⟩ := Prod.mk.inj (Option.some.inj hsame)
          exact h
      dsimp only
      rw [meets_bind_ok]
      refine solo_exec rfl rfl ?_ ?_
      · intro now hc
        simp only [Db.exec] at hc
        split at hc
        · cases hc
        · split at hc <;> cases hc
      · intro now n' hle hle'
        rw [hentered]
        cases hold : Db.counter (A.field api) with
        | none =>
            have hexec : ∀ now, db.exec now (.hincrby A.provider.countsKey api 1) =
                (db, .error "ERR hash value is not an integer") := by
              intro now
              simp only [Db.exec, hfield, hold]
            rw [hexec]
            refine ⟨hle.trans hle', Or.inr ⟨by simp, ?_⟩⟩
            intro τ hmet
            obtain ⟨k, hk, -⟩ := (hcounter τ).mp hmet
            rw [hold] at hk
            cases hk
        | some old =>
            by_cases hfits : old + 1 ≤ 2 ^ 63 - 1
            · have hexec : ∀ now, db.exec now (.hincrby A.provider.countsKey api 1) =
                  (db.setField A.provider.countsKey api (.int (old + 1)), .ok (.int (old + 1))) := by
                intro now
                simp only [Db.exec, hfield, hold, if_pos hfits]
              rw [hexec, hexec]
              dsimp only [Except.mapError]
              split
              · rename_i hpos
                refine ⟨hle.trans hle', Or.inl ⟨rfl, rfl, ?_⟩⟩
                intro τ
                exact (hcounter τ).mpr ⟨old, hold, hpos, hfits⟩
              · rename_i hpos
                refine ⟨hle.trans hle', Or.inr ⟨by simp, ?_⟩⟩
                intro τ hmet
                obtain ⟨k, hk, hkpos, -⟩ := (hcounter τ).mp hmet
                rw [hold] at hk
                obtain rfl := Option.some.inj hk
                exact hpos hkpos
            · have hexec : ∀ now, db.exec now (.hincrby A.provider.countsKey api 1) =
                  (db, .error "ERR increment or decrement would overflow") := by
                intro now
                simp only [Db.exec, hfield, hold, if_neg hfits]
              rw [hexec]
              refine ⟨hle.trans hle', Or.inr ⟨by simp, ?_⟩⟩
              intro τ hmet
              obtain ⟨k, hk, -, hkfits⟩ := (hcounter τ).mp hmet
              rw [hold] at hk
              obtain rfl := Option.some.inj hk
              exact hfits hkfits

theorem lone_claimSlot {origin : Uri} {bytes : Bytes} {found : ℕ} (heligible : eligible = true)
    (hkeys : A.slotKey ≠ A.provider.recorderUrlKey) (hfound : A.start ≤ found) (hn : found ≤ n)
    (hread : A.db.strings.read found A.provider.recorderUrlKey = some bytes)
    (horigin : registrationOrigin A.lib bytes = .ok origin) (hroom : ∀ τ, A.Met τ .room) :
    (claimSlot A.provider A.scope A.quota origin : AdmissionTask Index (AcquireOutcome × Bool)).run.Meets
      (loneCall D t eligible policy) ⟨n, A.db, mem⟩ fun m r => n ≤ m.now ∧ A.Looked m r := by
  unfold claimSlot
  rw [meets_bind_ok]
  refine lone_randomToken ?_
  intro random n₁ mem₁ hn₁
  dsimp only
  rw [meets_bind_ok, meets_ofResult]
  have hstart : A.start ≤ n₁ := hfound.trans (hn.trans hn₁)
  cases hmade : (AdmissionTicket.new A.scope (acquisitionToken random) >>= (·.withOrigin origin)) with
  | error e =>
      refine ⟨hn₁, ?_⟩
      by_cases hscope : Sayable A.scope
      · refine .missed .recorder (by simp) ⟨⟨found, hfound, hn.trans hn₁, ?_⟩, fun _ => rfl⟩
        rintro ⟨origin', ⟨bytes', hread', horigin'⟩, hhttp⟩
        rw [hread] at hread'
        obtain rfl := Option.some.inj hread'
        rw [horigin] at horigin'
        obtain rfl := Except.ok.inj horigin'
        obtain ⟨ticket, hnew⟩ := exists_ticket_iff.mpr ⟨hscope, sayable_acquisitionToken random⟩
        have hwith : ticket.withOrigin origin = .error e := by
          rw [hnew] at hmade
          exact hmade
        unfold AdmissionTicket.withOrigin at hwith
        rw [dif_pos hhttp] at hwith
        cases hwith
      · exact .missed .scope (by simp) ⟨⟨found, hfound, hn.trans hn₁, hscope⟩, fun _ => rfl⟩
  | ok ticket =>
      obtain ⟨ticket₀, hnew, hwith⟩ := except_bind_ok hmade
      have hscope : ticket.scope = A.scope := by
        rw [(AdmissionTicket.of_withOrigin hwith).1, (AdmissionTicket.of_new hnew).1]
      have hsayable : Sayable A.scope := (exists_ticket_iff.mp ⟨ticket₀, hnew⟩).1
      obtain ⟨horiginTicket, hhttp⟩ : ticket.origin = some origin ∧ origin.isHttpOrigin = true := by
        unfold AdmissionTicket.withOrigin at hwith
        split at hwith
        · rename_i hhttp
          obtain rfl := Except.ok.inj hwith
          exact ⟨rfl, hhttp⟩
        · cases hwith
      dsimp only
      rw [meets_bind_ok]
      refine solo_reserve rfl rfl ?_
      intro τ n₂ hτ hn₂
      have hle : A.start ≤ τ := hstart.trans hτ
      have hn' : n ≤ n₂ := hn₁.trans (hτ.trans hn₂)
      cases hput : (A.db.strings.putIfAbsent τ (A.provider.key A.scope) (utf8 ticket.token)
          (τ + millis A.provider.ttlMs)).2 with
      | false =>
          obtain ⟨htaken, hsame⟩ := Store.putIfAbsent_false hput
          have hdb : (A.db.exec τ (.set (A.provider.key A.scope) (utf8 ticket.token)
              A.provider.ttlMs)).1 = A.db := by
            simp only [Db.exec, hsame]
          simp only [Bool.false_eq_true, if_false]
          rw [hdb]
          exact ⟨hn', .missed .slot (by simp) ⟨⟨τ, hle, hn₂, htaken⟩, fun _ => rfl⟩⟩
      | true =>
          have hfree := (Store.putIfAbsent_true hput).1
          simp only [if_true]
          rw [meets_bind_ok]
          refine (lone_countAdmission τ ticket.token).mono ?_
          rintro ⟨n₃, db₃, mem₃⟩ r ⟨hn₃, hcounted⟩
          have hlater : n ≤ n₃ := hn'.trans hn₃
          rcases hcounted with ⟨rfl, hentered, hcounter⟩ | ⟨hr, hcounter⟩
          · dsimp only at hentered ⊢
            rw [meets_bind_ok]
            refine lone_isParticipating ?_
            intro n₄ hn₄
            have hle₄ : n₃ ≤ n₄ := hn₄
            simp only [heligible, if_true]
            refine ⟨hlater.trans hle₄, .acquired ⟨hscope, ?_, ?_, ?_⟩⟩
            · exact ⟨found, origin, hfound, hn.trans (hlater.trans hle₄), ⟨⟨bytes, hread, horigin⟩, hhttp⟩,
                horiginTicket⟩
            · exact ⟨τ, hle, hn₂.trans (hn₃.trans hle₄), hfree, hentered⟩
            · intro τ need hneed
              simp only [List.mem_cons, List.not_mem_nil, or_false] at hneed
              rcases hneed with rfl | rfl | rfl | rfl
              · exact hkeys
              · exact hroom τ
              · exact hsayable
              · exact hcounter τ
          · cases r with
            | ok x =>
                cases x
                exact absurd rfl hr
            | error e =>
                refine ⟨hlater, .missed .counter (by simp) ⟨⟨τ, hle, hn₂.trans hn₃, hcounter τ⟩, ?_⟩⟩
                intro hne
                exact absurd rfl hne

theorem lone_lookup (heligible : eligible = true) (hkeys : A.slotKey ≠ A.provider.recorderUrlKey)
    (hn : A.start ≤ n) :
    (lookup A.lib A.provider A.scope A.quota).run.Meets (loneCall D t eligible policy)
      ⟨n, A.db, mem⟩ fun m r => n ≤ m.now ∧ A.Looked m r := by
  unfold lookup
  rw [meets_bind_ok]
  refine solo_get rfl rfl ?_
  intro found n₁ hfound hn₁
  have hstart : A.start ≤ found := hn.trans hfound
  have hle : n ≤ n₁ := hfound.trans hn₁
  dsimp only
  rw [meets_bind_ok, meets_ofResult]
  cases hread : A.db.strings.read found A.provider.recorderUrlKey with
  | none =>
      refine ⟨hle, .missed .recorder (by simp) ⟨⟨found, hstart, hn₁, ?_⟩, fun _ => rfl⟩⟩
      rintro ⟨origin, ⟨bytes, hbytes, -⟩, -⟩
      rw [hread] at hbytes
      cases hbytes
  | some bytes =>
      simp only [Option.elim_some, recorderOrigin]
      cases horigin : registrationOrigin A.lib bytes with
      | error e =>
          refine ⟨hle, .missed .recorder (by simp) ⟨⟨found, hstart, hn₁, ?_⟩, fun _ => rfl⟩⟩
          rintro ⟨origin, ⟨bytes', hbytes, hsame⟩, -⟩
          rw [hread] at hbytes
          obtain rfl := Option.some.inj hbytes
          rw [horigin] at hsame
          cases hsame
      | ok origin =>
          simp only [Functor.map, Except.map]
          rw [meets_bind_ok]
          refine lone_exhausted.mono ?_
          rintro ⟨n₂, db₂, mem₂⟩ r ⟨hn₂, hdb, hroom⟩
          obtain rfl : db₂ = A.db := hdb
          rcases hroom with ⟨rfl, hroom⟩ | ⟨hr, hroom⟩
          · simp only [Bool.false_eq_true, if_false]
            refine (lone_claimSlot heligible hkeys hstart (hn₁.trans hn₂) hread horigin hroom).mono ?_
            rintro m r ⟨hm, hlooked⟩
            exact ⟨hle.trans (hn₂.trans hm), hlooked⟩
          · cases r with
            | error e =>
                exact ⟨hle.trans hn₂, .missed .room (by simp)
                  ⟨⟨found, hstart, hn₁.trans hn₂, hroom found⟩, fun _ => rfl⟩⟩
            | ok b =>
                cases b with
                | false => exact absurd rfl hr
                | true =>
                    exact ⟨hle.trans hn₂, .missed .room (by simp)
                      ⟨⟨found, hstart, hn₁.trans hn₂, hroom found⟩, fun _ => rfl⟩⟩

theorem lone_guarded {body : AdmissionTask Index (AcquireOutcome × Bool)}
    (heligible : A.eligible = true) (hdiscovery : ∃ τ, A.start ≤ τ ∧ τ ≤ n ∧ A.Met τ .discovery)
    (hbody : body.run.Meets (loneCall D t eligible policy) ⟨n, db, mem⟩
      fun m r => n ≤ m.now ∧ A.Looked m r) :
    (guarded body).run.Meets (loneCall D t eligible policy) ⟨n, db, mem⟩
      fun m r => n ≤ m.now ∧ A.Ended m r := by
  unfold guarded
  rw [ExceptT.run_mk, Prog.meets_bind]
  refine hbody.mono ?_
  rintro ⟨n₁, db₁, mem₁⟩ r ⟨hn₁, hlooked⟩
  have hdropped : ∀ (available : Bool) {Q : Moment Db (AdmissionMemory T F) →
      Except AdmissionError Unit → Prop},
      (∀ n₂ mem₂, n₁ ≤ n₂ → Q ⟨n₂, db₁, mem₂⟩ (.ok ())) →
      (dropLookup available : AdmissionTask Index Unit).run.Meets (loneCall D t eligible policy)
        ⟨n₁, db₁, mem₁⟩ Q := by
    intro available Q hQ
    refine lone_dropLookup ?_
    intro τ n₂ hτ hn₂
    exact hQ n₂ _ (hτ.trans hn₂)
  cases hlooked with
  | @acquired ticket h =>
      dsimp only
      rw [Prog.meets_bind]
      refine hdropped true ?_
      intro n₂ mem₂ hn₂
      have hle : n ≤ n₂ := hn₁.trans hn₂
      have hwon : A.Won ⟨n₂, db₁, mem₂⟩ ticket := by
        obtain ⟨hscope, ⟨τ, origin, hτ, hτ', horigin⟩, ⟨σ, hσ, hσ', hslot⟩, hothers⟩ := h
        exact ⟨hscope, ⟨τ, origin, hτ, hτ'.trans hn₂, horigin⟩, ⟨σ, hσ, hσ'.trans hn₂, hslot⟩, hothers⟩
      refine ⟨hle, .acquired ?_ hwon⟩
      obtain ⟨τ₀, hτ₀, hτ₀', hmet₀⟩ := hdiscovery
      intro need
      cases need with
      | participation => exact ⟨τ₀, hτ₀, hτ₀'.trans hle, heligible⟩
      | discovery => exact ⟨τ₀, hτ₀, hτ₀'.trans hle, hmet₀⟩
      | recorder =>
          obtain ⟨τ, origin, hτ, hτ', hregisters, -⟩ := hwon.origin
          exact ⟨τ, hτ, hτ', origin, hregisters⟩
      | slot =>
          obtain ⟨τ, hτ, hτ', hfree, -⟩ := hwon.slot
          exact ⟨τ, hτ, hτ', hfree⟩
      | _ => exact ⟨τ₀, hτ₀, hτ₀'.trans hle, hwon.others τ₀ _ (by simp)⟩
  | @missed r need hr h =>
      have hlacks : ∀ n₂ (mem₂ : AdmissionMemory T F), n₁ ≤ n₂ → A.Lacks ⟨n₂, db₁, mem₂⟩ need := by
        intro n₂ mem₂ hn₂
        obtain ⟨⟨τ, hτ, hτ', hunmet⟩, hdb⟩ := h
        exact ⟨⟨τ, hτ, hτ'.trans hn₂, hunmet⟩, hdb⟩
      cases r with
      | error e =>
          dsimp only
          rw [Prog.meets_bind]
          refine hdropped false ?_
          intro n₂ mem₂ hn₂
          exact ⟨hn₁.trans hn₂, .missed need (by simp) (hlacks n₂ mem₂ hn₂)⟩
      | ok found =>
          obtain ⟨outcome, available⟩ := found
          dsimp only
          rw [Prog.meets_bind]
          refine hdropped available ?_
          intro n₂ mem₂ hn₂
          refine ⟨hn₁.trans hn₂, .missed need ?_ (hlacks n₂ mem₂ hn₂)⟩
          rintro ticket hsame
          obtain rfl := Except.ok.inj hsame
          exact hr ticket available rfl

theorem lone_acquire (hdb : A.db = db) (heligible : A.eligible = eligible)
    (hdiscovery : A.discovery = mem.discovery (D.family t)) (hn : A.start ≤ n) :
    (acquire A.lib A.provider A.scope A.quota).run.Meets (loneCall D t eligible policy) ⟨n, db, mem⟩
      fun m r => n ≤ m.now ∧ A.Ended m r := by
  subst hdb heligible
  unfold acquire
  rw [meets_bind_ok]
  refine lone_isParticipating ?_
  intro n₁ hn₁
  have hstart : A.start ≤ n₁ := hn.trans hn₁
  cases heligible : A.eligible with
  | false =>
      refine ⟨hn₁, .missed .participation (by simp) ⟨⟨n₁, hstart, le_rfl, ?_⟩, fun _ => rfl⟩⟩
      intro hmet
      rw [show A.eligible = true from hmet] at heligible
      cases heligible
  | true =>
      simp only [if_true]
      split
      · rename_i hkeys
        refine ⟨hn₁, .missed .keys (by simp) ⟨⟨n₁, hstart, le_rfl, ?_⟩, fun _ => rfl⟩⟩
        intro hmet
        exact hmet hkeys
      · rename_i hkeys
        rw [meets_bind_ok]
        refine lone_tryLookup ?_ ?_
        · intro τ n₂ d hτ hn₂ htry
          have hmet : A.Met τ .discovery := ⟨d, by rw [hdiscovery, htry]⟩
          refine (lone_guarded heligible ⟨τ, hstart.trans hτ, hn₂, hmet⟩
            (lone_lookup rfl hkeys (hstart.trans (hτ.trans hn₂)))).mono ?_
          rintro m r ⟨hm, hended⟩
          exact ⟨hn₁.trans (hτ.trans (hn₂.trans hm)), hended⟩
        · intro τ n₂ e hτ hn₂ htry
          have hunmet : ¬ A.Met τ .discovery := by
            rintro ⟨d, hd⟩
            rw [hdiscovery, htry] at hd
            cases hd
          have hlacks : A.Lacks (⟨n₂, A.db, mem⟩ : Moment Db (AdmissionMemory T F)) .discovery :=
            ⟨⟨τ, hstart.trans hτ, hn₂, hunmet⟩, fun _ => rfl⟩
          cases e with
          | coolingDown => exact ⟨hn₁.trans (hτ.trans hn₂), .missed .discovery (by simp) hlacks⟩
          | inProgress => exact ⟨hn₁.trans (hτ.trans hn₂), .missed .discovery (by simp) hlacks⟩

/-! ## The whole call -/

omit [DecidableEq T] [DecidableEq F] in
/-- What a call counts under a policy; `none` if it is not admitted at all. -/
def Call.quota (lib : Libraries Index) (policy : Option (CompiledPolicy Index)) :
    Call → Option (Option (String × ℕ))
  | .tryAcquireRequest _ path => do
      let policy ← policy
      let api ← policy.api lib path
      pure (policy.caseLimit.map fun limit => (api, limit))
  | _ => some none

def Deployment.trial (D : Deployment Index T F Lane) (t : T) (eligible : Bool)
    (quota : Option (String × ℕ)) (start : ℕ) (db : Db) (mem : AdmissionMemory T F) : Trial Index where
  lib := D.lib
  provider := D.provider (D.family t)
  scope := (D.call t).scope
  quota := quota
  eligible := eligible
  discovery := mem.discovery (D.family t)
  start := start
  db := db

/-- How an undisturbed call ends. -/
inductive Admitted (D : Deployment Index T F Lane) (t : T) (eligible : Bool)
    (policy : Option (CompiledPolicy Index)) (start : ℕ) (db : Db) (mem : AdmissionMemory T F)
    (m : Moment Db (AdmissionMemory T F)) (r : Except AdmissionError AcquireOutcome) : Prop where
  | tried {quota : Option (String × ℕ)} (hquota : (D.call t).quota D.lib policy = some quota)
      (h : (D.trial t eligible quota start db mem).Ended m r) : Admitted D t eligible policy start db mem m r
  | refused (hquota : (D.call t).quota D.lib policy = none) (hr : ∀ ticket, r ≠ .ok (.acquired ticket))
      (hdb : m.db = db) : Admitted D t eligible policy start db mem m r

theorem lone_call {start : ℕ} (hcall : (D.call t).isAcquire = true) (hn : start ≤ n) :
    ((D.call t).run D.lib (D.provider (D.family t))).Meets (loneCall D t eligible policy) ⟨n, db, mem⟩
      fun m result => ∃ r, result = .outcome r ∧ Admitted D t eligible policy start db mem m r := by
  have hacquire : ∀ quota n₁, start ≤ n₁ →
      (acquire D.lib (D.provider (D.family t)) (D.call t).scope quota).run.Meets
        (loneCall D t eligible policy) ⟨n₁, db, mem⟩
        fun m r => (D.trial t eligible quota start db mem).Ended m r := fun quota n₁ hn₁ =>
    (lone_acquire (A := D.trial t eligible quota start db mem) rfl rfl rfl hn₁).mono fun _ _ h => h.2
  cases hcase : D.call t with
  | tryAcquire scope =>
      refine Prog.meets_map.mpr ?_
      have htried := hacquire none n hn
      rw [hcase] at htried
      refine htried.mono ?_
      intro m r hended
      exact ⟨r, rfl, .tried (by rw [hcase]; rfl) hended⟩
  | tryAcquireRequest scope path =>
      have hquota : (D.call t).quota D.lib policy = (do
          let policy ← policy
          let api ← policy.api D.lib path
          pure (policy.caseLimit.map fun limit => (api, limit))) := by
        rw [hcase]
        rfl
      refine Prog.meets_map.mpr ?_
      unfold tryAcquireRequest
      rw [meets_bind_ok]
      refine lone_isParticipating ?_
      intro n₁ hn₁
      cases eligible with
      | false =>
          refine ⟨_, rfl, ?_⟩
          cases hsome : (D.call t).quota D.lib policy with
          | none => exact .refused hsome (by simp) rfl
          | some quota =>
              refine .tried hsome (.missed .participation (by simp) ⟨⟨start, le_rfl, hn.trans hn₁, ?_⟩,
                fun _ => rfl⟩)
              exact Bool.false_ne_true
      | true =>
          simp only [if_true]
          rw [meets_bind_ok]
          refine lone_snapshot ?_
          intro n₂ hn₂
          have hle : start ≤ n₂ := hn.trans (hn₁.trans hn₂)
          cases policy with
          | none => exact ⟨_, rfl, .refused hquota (by simp) rfl⟩
          | some policy =>
              dsimp only
              cases hapi : policy.api D.lib path with
              | none =>
                  refine ⟨_, rfl, .refused ?_ (by simp) rfl⟩
                  rw [hquota]
                  simp [hapi]
              | some api =>
                  have htried := hacquire (policy.caseLimit.map fun limit => (api, limit)) n₂ hle
                  rw [hcase] at htried
                  refine htried.mono ?_
                  intro m r hended
                  refine ⟨r, rfl, .tried ?_ hended⟩
                  rw [hquota]
                  simp [hapi]
  | _ =>
      rw [hcase] at hcall
      cases hcall

variable [DecidableEq Lane] {w w' : AdmissionWorld Index T F Lane} {ls : AdmissionHistory Index T}
  {r : Except AdmissionError AcquireOutcome}

/-- An undisturbed admission succeeds exactly if the call is admitted by the policy and everything
that it needs is there.  It then takes the slot and raises the count, once each; otherwise it
changes nothing, unless the count could not be raised. -/
theorem undisturbed_admission (hcall : (D.call t).isAcquire = true) (hrun : D.network.Run w ls w')
    (hturn : Turn t (Constantly eligible policy) (.outcome r) ls)
    (hsteady : ∀ quota need τ, w.now ≤ τ → τ ≤ w'.now →
      ((D.trial t eligible quota w.now w.db w.mem).Met τ need ↔
        (D.trial t eligible quota w.now w.db w.mem).Met w.now need)) :
    ((∃ ticket, r = .ok (.acquired ticket)) ↔ ∃ quota, (D.call t).quota D.lib policy = some quota ∧
      ∀ need, (D.trial t eligible quota w.now w.db w.mem).Met w.now need) ∧
    (∀ ticket, r = .ok (.acquired ticket) → ∃ quota τ origin,
      (D.call t).quota D.lib policy = some quota ∧ w.now ≤ τ ∧ τ ≤ w'.now ∧
      ticket.scope = (D.call t).scope ∧ ticket.origin = some origin ∧
      (D.trial t eligible quota w.now w.db w.mem).Registers w.now origin ∧
      w'.db = (D.trial t eligible quota w.now w.db w.mem).entered τ ticket.token) ∧
    ((∀ ticket, r ≠ .ok (.acquired ticket)) → w'.db ≠ w.db → ∃ quota,
      (D.call t).quota D.lib policy = some quota ∧
      ¬ (D.trial t eligible quota w.now w.db w.mem).Met w.now .counter) := by
  obtain ⟨p, mem, -, ⟨rfl, rfl⟩, hle, -, -, hmeets⟩ := hrun.turn hturn
  obtain ⟨mem', ⟨r', hr, hadmitted⟩, -⟩ := hmeets _ fun now hnow => lone_call hcall hnow
  obtain rfl : r = r' := by simpa using hr
  cases hadmitted with
  | @tried quota hquota h =>
      have hsame : ∀ quota', (D.call t).quota D.lib policy = some quota' → quota' = quota := by
        intro quota' hquota'
        rw [hquota] at hquota'
        exact (Option.some.inj hquota').symm
      cases h with
      | @acquired ticket hmet hwon =>
          refine ⟨⟨fun _ => ⟨quota, hquota, ?_⟩, fun _ => ⟨ticket, rfl⟩⟩, ?_, ?_⟩
          · intro need
            obtain ⟨τ, hτ, hτ', hneed⟩ := hmet need
            exact (hsteady quota need τ hτ hτ').mp hneed
          · intro ticket' hticket
            obtain rfl : ticket = ticket' := by simpa using hticket
            obtain ⟨σ, origin, hσ, -, hregisters, horigin⟩ := hwon.origin
            obtain ⟨τ, hτ, hτ', -, hdb⟩ := hwon.slot
            obtain ⟨⟨bytes, hread, hbytes⟩, hhttp⟩ := hregisters
            exact ⟨quota, τ, origin, hquota, hτ, hτ', hwon.scope, horigin,
              ⟨⟨bytes, Store.read_of_le hread hσ, hbytes⟩, hhttp⟩, hdb⟩
          · intro hr
            exact absurd rfl (hr ticket)
      | missed need hr hlacks =>
          obtain ⟨τ, hτ, hτ', hunmet⟩ := hlacks.unmet
          have hunmet' : ¬ (D.trial t eligible quota w.now w.db w.mem).Met w.now need :=
            fun hmet => hunmet ((hsteady quota need τ hτ hτ').mpr hmet)
          refine ⟨⟨?_, ?_⟩, ?_, ?_⟩
          · rintro ⟨ticket, hticket⟩
            exact absurd hticket (hr ticket)
          · rintro ⟨quota', hquota', hall⟩
            obtain rfl := hsame quota' hquota'
            exact absurd (hall need) hunmet'
          · intro ticket hticket
            exact absurd hticket (hr ticket)
          · intro _ hchanged
            refine ⟨quota, hquota, ?_⟩
            by_cases hneed : need = .counter
            · subst hneed
              exact hunmet'
            · exact absurd (hlacks.db hneed) hchanged
  | refused hquota hr hdb =>
      refine ⟨⟨?_, ?_⟩, ?_, ?_⟩
      · rintro ⟨ticket, hticket⟩
        exact absurd hticket (hr ticket)
      · rintro ⟨quota, hsome, -⟩
        rw [hquota] at hsome
        cases hsome
      · intro ticket hticket
        exact absurd hticket (hr ticket)
      · intro _ hchanged
        exact absurd hdb hchanged

theorem exists_admission (eligible : Bool) (policy : Option (CompiledPolicy Index))
    (hcall : (D.call t).isAcquire = true) (hpolicy : ∀ p, policy = some p → D.policies p)
    (hfresh : ¬ D.fresh) (hidle : w.threads t = none) (hlane : w.strays (D.lane t) = []) :
    ∃ ls w' r, D.network.Run w ls w' ∧ Turn t (Constantly eligible policy) (.outcome r) ls ∧
      w'.now = w.now := by
  have hact : ∀ now mem o, ∃ x mem', Constantly eligible policy o x ∧
      D.network.act now t mem o x mem' := by
    intro now mem o
    cases o with
    | isParticipating => exact ⟨eligible, mem, rfl, rfl⟩
    | snapshot => exact ⟨policy, mem, rfl, hpolicy, rfl⟩
    | tryLookup =>
        cases htry : (mem.discovery (D.family t)).tryLookup now with
        | ok d =>
            refine ⟨.ok (), mem.hold (D.family t) t d, trivial, ?_⟩
            simp [Deployment.network, Deployment.act, htry]
        | error e =>
            refine ⟨.error e, mem, trivial, ?_⟩
            simp [Deployment.network, Deployment.act, htry]
    | dropLookup available => exact ⟨(), _, trivial, rfl⟩
    | randomToken => exact ⟨(0, 0), _, trivial, fun h => absurd h hfresh, rfl⟩
  obtain ⟨ls, w', y, hrun, hturn, -, hnow⟩ :=
    exists_turn (N := D.network) hact (fun c r => ⟨r, Or.inl rfl⟩) hidle hlane ⟨rfl, rfl⟩
  obtain ⟨p, mem, -, ⟨rfl, rfl⟩, -, -, -, hmeets⟩ := hrun.turn hturn
  obtain ⟨-, ⟨r, rfl, -⟩, -⟩ := hmeets _ fun now hnow => lone_call hcall hnow
  exact ⟨ls, w', r, hrun, hturn, hnow⟩

end

/-- The solo call, with tokens that may repeat. -/
def laxDeployment : Deployment Unit Unit Unit Unit := { soloDeployment with fresh := False }

def soloPolicy : CompiledPolicy Unit := ⟨some 1, true, (), [], (), ()⟩

/-- It gets a ticket. -/
theorem undisturbed_admission_solo :
    ∃ ls w ticket, laxDeployment.network.Run (quietWorld (some (utf8 "http://r"))) ls w ∧
      Turn () (Constantly true (some soloPolicy)) (.outcome (.ok (.acquired ticket))) ls := by
  obtain ⟨ls, w, r, hrun, hturn, hnow⟩ := exists_admission (D := laxDeployment)
    (w := quietWorld (some (utf8 "http://r"))) (t := ()) true (some soloPolicy) rfl
    (by rintro p ⟨⟩; rfl) id rfl rfl
  obtain ⟨hiff, -⟩ := undisturbed_admission rfl hrun hturn (by
    intro quota need τ hτ hτ'
    obtain rfl : τ = 0 := by
      rw [hnow] at hτ'
      exact Nat.le_zero.mp hτ'
    rfl)
  have hquota : (laxDeployment.call ()).quota laxDeployment.lib (some soloPolicy) =
      some (some ("/x", 1)) := rfl
  obtain ⟨ticket, rfl⟩ := hiff.mpr ⟨_, hquota, fun need => by
    cases need with
    | participation => rfl
    | keys =>
        have hkeys : "p" ++ ":inflight:" ++ "s" ≠ "r" := by decide
        exact hkeys
    | discovery => exact ⟨_, rfl⟩
    | recorder =>
        exact ⟨⟨some "http", some "r", ⟨"", none⟩⟩, ⟨utf8 "http://r", rfl, by decide +kernel⟩, by decide⟩
    | room =>
        rintro api limit ⟨⟩
        exact ⟨.nil, 0, rfl, rfl, Nat.one_pos⟩
    | scope => exact ⟨by decide, by decide, by decide⟩
    | slot => rfl
    | counter =>
        rintro api limit ⟨⟩
        exact ⟨0, rfl, by decide, by decide⟩⟩
  exact ⟨ls, w, ticket, hrun, hturn⟩

end BreezeGateway
