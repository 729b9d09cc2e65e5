import BreezeGateway.RedisAdmission.Provider

/-!
# The story of a call

A story collects what one call of the provider has learnt and holds.  It is a function of the
operations the call performed, so it can be read off a history as well as carried as ghost state.
-/

namespace BreezeGateway

open Effects RedisAdmissionProvider

structure Story where
  /-- The call holds the `Lookup` guard. -/
  guarded : Bool
  /-- It dropped the guard with this `available`. -/
  dropped : Option Bool
  /-- The case limit of the policy it uses. -/
  limit : Option ℕ
  /-- The count it read and has not used yet, with its key and field. -/
  count : Option (String × String × ℕ)
  /-- The field whose count it has raised. -/
  counted : Option (String × String)
  /-- The token it has generated and not yet tried to reserve. -/
  token : Option String
  reply : Option (Command × Reply)

namespace Story

def start : Story := ⟨false, none, none, none, none, none, none⟩

/-- The count a lookup of a field reports. -/
def countIn : Reply → Option ℕ
  | .ok .nil => some 0
  | .ok (.bulkString bytes) => parseDigits u64Max bytes
  | _ => none

def isPositive : Reply → Bool
  | .ok (.int n) => decide (0 < n)
  | _ => false

def heard (s : Story) (c : Command) (r : Reply) : Story :=
  match c with
  | .hget key field =>
      { s with reply := some (c, r), count := (countIn r).map fun n => (key, field, n) }
  | .hincrby key field _ =>
      { s with
        reply := some (c, r)
        count := none
        counted := if isPositive r then some (key, field) else s.counted }
  | .set .. => { s with reply := some (c, r), token := none }
  | _ => { s with reply := some (c, r) }

def noted {Index : Type} (s : Story) : (o : AdmissionOp) → (admissionSig Index).Ans o → Story
  | .isParticipating, _ => s
  | .snapshot, policy => { s with limit := policy.bind (·.caseLimit) }
  | .tryLookup, .ok () => { s with guarded := true }
  | .tryLookup, .error _ => s
  | .dropLookup available, _ =>
      { s with guarded := false, dropped := some available, count := none }
  | .randomToken, random => { s with token := some (acquisitionToken random) }

def after {Index : Type} (s : Story) :
    (o : (redisSig (admissionSig Index)).Op) → (redisSig (admissionSig Index)).Ans o → Story
  | .inl c, r => s.heard c r
  | .inr o, x => s.noted o x

variable (s : Story) (c : Command) (r : Reply)

@[simp] theorem heard_guarded : (s.heard c r).guarded = s.guarded := by
  cases c <;> rfl

@[simp] theorem heard_dropped : (s.heard c r).dropped = s.dropped := by
  cases c <;> rfl

@[simp] theorem heard_limit : (s.heard c r).limit = s.limit := by
  cases c <;> rfl

@[simp] theorem heard_reply : (s.heard c r).reply = some (c, r) := by
  cases c <;> rfl

end Story

/-- The three outcomes after which the next attempt is not held back. -/
def Favourable : Except AdmissionError AcquireOutcome → Prop
  | .ok (.acquired _) => True
  | .ok .busy => True
  | .ok .quotaExhausted => True
  | _ => False

section

variable (p : RedisAdmissionProvider)

/-- The commands of an acquisition for `scope`, at a point of its story. -/
def Acquires (scope : String) (s : Story) : Command → Prop
  | .get key => key = p.recorderUrlKey
  | .hget key _ => key = p.countsKey
  | .set key value px =>
      ∃ token, s.token = some token ∧ key = p.key scope ∧ value = utf8 token ∧ px = p.ttlMs
  | .hincrby key field n => key = p.countsKey ∧ n = 1 ∧
      ∃ count limit, s.count = some (key, field, count) ∧ s.limit = some limit ∧ count < limit
  | _ => False

def Issues (s : Story) (c : Command) : Call → Prop
  | .tryAcquire scope => s.guarded = true ∧ Acquires p scope s c
  | .tryAcquireRequest scope _ => s.guarded = true ∧ Acquires p scope s c
  | .complete ticket => c = .complete (p.key ticket.scope) (utf8 ticket.token)
  | .renew ticket => c = .renew (p.key ticket.scope) (utf8 ticket.token) p.ttlMs
  | .owns ticket => c = .get (p.key ticket.scope)

def callContract {Index : Type} (call : Call) : Contract (redisSig (admissionSig Index)) Story where
  pre s
    | .inl c => Issues p s c call
    | .inr .snapshot => s.guarded = false
    | .inr .tryLookup => s.guarded = false ∧ s.dropped = none
    | .inr (.dropLookup _) => s.guarded = true
    | .inr _ => True
  post s o x s' := s' = s.after o x

/-- What the story says when an acquisition returns. -/
structure Settled (s : Story) (r : Except AdmissionError AcquireOutcome) : Prop where
  released : s.guarded = false
  available : ∀ b, s.dropped = some b → (b = true ↔ Favourable r)
  rejected : s.dropped ≠ none → r = .ok .busy →
    ∃ key value px, s.reply = some (.set key value px, .ok .nil)
  acquired : ∀ ticket, r = .ok (.acquired ticket) → s.dropped = some true
  counted : ∀ ticket, r = .ok (.acquired ticket) → s.limit ≠ none → s.counted ≠ none

def Returned (s : Story) : CallResult → Prop
  | .outcome r => Settled s r
  | .done _ => s.guarded = false

/-! ## Every call keeps its contract -/

variable {p : RedisAdmissionProvider} {Index : Type} {lib : Libraries Index} {call : Call}
  {scope : String} {quota : Option (String × ℕ)} {s : Story}

theorem meets_note {o : AdmissionOp}
    {Q : Story → Except AdmissionError ((admissionSig Index).Ans o) → Prop}
    (hpre : (callContract p call : Contract (redisSig (admissionSig Index)) Story).pre s (.inr o))
    (h : ∀ x, Q (s.noted o x) (.ok x)) :
    (Task.perform (L := admissionSig Index) o).run.Meets (callContract p call) s Q := by
  refine meets_perform hpre ?_
  intro x s' hs'
  rw [show s' = s.noted o x from hs']
  exact h x

theorem meets_send {c : Command} {Q : Story → Except AdmissionError Value → Prop}
    (hpre : Issues p s c call) (hok : ∀ v, Q (s.heard c (.ok v)) (.ok v))
    (herr : ∀ m, Q (s.heard c (.error m)) (.error (.backend m))) :
    (Task.command c : AdmissionTask Index Value).run.Meets (callContract p call) s Q := by
  refine meets_command hpre ?_ ?_
  · intro v s' hs'
    rw [show s' = s.heard c (.ok v) from hs']
    exact hok v
  · intro m s' hs'
    rw [show s' = s.heard c (.error m) from hs']
    exact herr m

theorem meets_set {key token : String} {px : ℕ} {Q : Story → Except AdmissionError Bool → Prop}
    (hpre : Issues p s (.set key (utf8 token) px) call)
    (hok : ∀ r, Q (s.heard (.set key (utf8 token) px) r) (.ok true))
    (hnil : Q (s.heard (.set key (utf8 token) px) (.ok .nil)) (.ok false))
    (herr : ∀ r e, Q (s.heard (.set key (utf8 token) px) r) (.error e)) :
    (reserve key token px : AdmissionTask Index Bool).run.Meets (callContract p call) s Q := by
  refine meets_reserve hpre ?_ ?_ ?_
  · intro v s' _ hs'
    rw [show s' = s.heard (.set key (utf8 token) px) (.ok v) from hs']
    exact hok (.ok v)
  · intro s' hs'
    rw [show s' = s.heard (.set key (utf8 token) px) (.ok .nil) from hs']
    exact hnil
  · intro r s' e hs'
    rw [show s' = s.heard (.set key (utf8 token) px) r from hs']
    exact herr r e

/-- The guarded part: its limit is the one of the policy. -/
structure Holding (quota : Option (String × ℕ)) (s : Story) : Prop where
  guarded : s.guarded = true
  dropped : s.dropped = none
  limit : s.limit = quota.map Prod.snd

theorem Holding.heard {c : Command} {r : Reply} (h : Holding quota s) :
    Holding quota (s.heard c r) :=
  ⟨by simpa using h.guarded, by simpa using h.dropped, by simpa using h.limit⟩

/-- The count that was read allows one more case. -/
def Allowed (p : RedisAdmissionProvider) (quota : Option (String × ℕ)) (s : Story) : Prop :=
  ∀ api limit, quota = some (api, limit) →
    ∃ count, s.count = some (p.countsKey, api, count) ∧ count < limit

/-- What the guarded part leaves behind. -/
structure Concluded (s : Story) (r : Except AdmissionError (AcquireOutcome × Bool)) : Prop where
  guarded : s.guarded = true
  available : ∀ outcome b, r = .ok (outcome, b) → (b = true ↔ Favourable (.ok outcome))
  rejected : ∀ b, r = .ok (.busy, b) → ∃ key value px, s.reply = some (.set key value px, .ok .nil)
  counted : ∀ ticket b, r = .ok (.acquired ticket, b) → s.limit ≠ none → s.counted ≠ none

theorem Concluded.error {e : AdmissionError} (h : s.guarded = true) : Concluded s (.error e) where
  guarded := h
  available _ _ hr := by cases hr
  rejected _ hr := by cases hr
  counted _ _ hr := by cases hr

theorem Concluded.plain {outcome : AcquireOutcome} {b : Bool} (h : s.guarded = true)
    (hb : b = true ↔ Favourable (.ok outcome)) (hbusy : outcome ≠ .busy)
    (hacquired : ∀ ticket, outcome ≠ .acquired ticket) : Concluded s (.ok (outcome, b)) where
  guarded := h
  available outcome' b' hr := by
    obtain ⟨rfl, rfl⟩ := Prod.mk.inj (Except.ok.inj hr)
    exact hb
  rejected b' hr := absurd (Prod.mk.inj (Except.ok.inj hr)).1 hbusy
  counted ticket b' hr := absurd (Prod.mk.inj (Except.ok.inj hr)).1 (hacquired ticket)

theorem meets_countAdmission {Q : Story → Except AdmissionError Unit → Prop}
    (hcall : ∀ s c, s.guarded = true → Acquires p scope s c → Issues p s c call)
    (hs : Holding quota s) (hallowed : Allowed p quota s)
    (hok : ∀ s', Holding quota s' → (quota ≠ none → s'.counted ≠ none) → Q s' (.ok ()))
    (herr : ∀ s' e, Holding quota s' → Q s' (.error e)) :
    (countAdmission p quota : AdmissionTask Index Unit).run.Meets (callContract p call) s Q := by
  unfold countAdmission
  cases quota with
  | none => exact hok s hs (by simp)
  | some q =>
      obtain ⟨api, limit⟩ := q
      obtain ⟨count, hcount, hlt⟩ := hallowed api limit rfl
      dsimp only
      rw [meets_bind_ok]
      refine meets_send (hcall s _ hs.guarded ⟨rfl, rfl, count, limit, hcount, hs.limit, hlt⟩) ?_
        fun m => herr _ _ hs.heard
      intro v
      cases v with
      | int n =>
          dsimp only
          split
          · rename_i hpos
            refine hok _ hs.heard fun _ => ?_
            simp [Story.heard, Story.isPositive, hpos]
          · exact herr _ _ hs.heard
      | _ => exact herr _ _ hs.heard

theorem countIn_of_countOf {v : Value} {n : ℕ} (h : countOf v = .ok n) :
    Story.countIn (.ok v) = some n := by
  unfold countOf at h
  cases v with
  | nil =>
      obtain rfl := Except.ok.inj h
      rfl
  | bulkString bytes =>
      dsimp only at h
      cases hparse : parseDigits u64Max bytes with
      | none => simp [hparse] at h
      | some m =>
          rw [hparse] at h
          obtain rfl := Except.ok.inj h
          exact hparse
  | _ => cases h

theorem meets_exhausted {Q : Story → Except AdmissionError Bool → Prop}
    (hcall : ∀ s c, s.guarded = true → Acquires p scope s c → Issues p s c call)
    (hs : Holding quota s)
    (hok : ∀ s' b, Holding quota s' → (b = false → Allowed p quota s') → Q s' (.ok b))
    (herr : ∀ s' e, Holding quota s' → Q s' (.error e)) :
    (exhausted p quota : AdmissionTask Index Bool).run.Meets (callContract p call) s Q := by
  unfold exhausted
  cases quota with
  | none =>
      refine hok s false hs fun _ => ?_
      intro api limit hq
      cases hq
  | some q =>
      obtain ⟨api, limit⟩ := q
      dsimp only
      rw [meets_bind_ok]
      refine meets_send (hcall s _ hs.guarded rfl) ?_ fun m => herr _ _ hs.heard
      intro v
      dsimp only
      rw [meets_bind_ok, meets_ofResult]
      cases hv : countOf v with
      | error e => exact herr _ e hs.heard
      | ok count =>
          refine hok _ _ hs.heard fun hb => ?_
          intro api' limit' hq
          obtain ⟨rfl, rfl⟩ := Prod.mk.inj (Option.some.inj hq)
          refine ⟨count, ?_, by simpa using hb⟩
          simp [Story.heard, countIn_of_countOf hv]

theorem meets_claimSlot (origin : Uri)
    (hcall : ∀ s c, s.guarded = true → Acquires p scope s c → Issues p s c call)
    (hs : Holding quota s) (hallowed : Allowed p quota s) :
    (claimSlot p scope quota origin : AdmissionTask Index (AcquireOutcome × Bool)).run.Meets (callContract p call) s
      fun s' r => s'.dropped = none ∧ Concluded s' r := by
  unfold claimSlot
  rw [meets_bind_ok]
  refine meets_note trivial fun random => ?_
  have hnoted : Holding quota (s.noted .randomToken random) := ⟨hs.guarded, hs.dropped, hs.limit⟩
  dsimp only
  rw [meets_bind_ok, meets_ofResult]
  cases hmade : (AdmissionTicket.new scope (acquisitionToken random) >>= (·.withOrigin origin)) with
  | error e => exact ⟨hs.dropped, Concluded.error hs.guarded⟩
  | ok ticket =>
      have htoken : ticket.token = acquisitionToken random := by
        obtain ⟨ticket₀, hnew, horigin⟩ := except_bind_ok hmade
        rw [(AdmissionTicket.of_withOrigin horigin).2, (AdmissionTicket.of_new hnew).2]
      dsimp only
      rw [meets_bind_ok]
      refine meets_set (hcall _ _ hs.guarded ⟨_, rfl, rfl, by rw [htoken], rfl⟩) ?_ ?_ ?_
      · intro r
        simp only [if_true]
        rw [meets_bind_ok]
        refine meets_countAdmission hcall hnoted.heard hallowed ?_
          fun s' e hs' => ⟨hs'.dropped, Concluded.error hs'.guarded⟩
        intro s' hs' hcounted
        dsimp only
        rw [meets_bind_ok]
        refine meets_note trivial fun participating => ?_
        cases participating with
        | false => exact ⟨hs'.dropped, Concluded.error hs'.guarded⟩
        | true =>
            refine ⟨hs'.dropped, hs'.guarded, ?_, ?_, ?_⟩
            · intro outcome b hr
              obtain ⟨rfl, rfl⟩ := Prod.mk.inj (Except.ok.inj hr)
              exact ⟨fun _ => trivial, fun _ => rfl⟩
            · intro b hr
              cases (Prod.mk.inj (Except.ok.inj hr)).1
            · intro _ _ _ hlimit
              apply hcounted
              intro hq
              apply hlimit
              have hmap := hs'.limit
              rw [hq] at hmap
              exact hmap
      · refine ⟨hs.dropped, hs.guarded, ?_, ?_, ?_⟩
        · intro outcome b hr
          obtain ⟨rfl, rfl⟩ := Prod.mk.inj (Except.ok.inj hr)
          exact ⟨fun _ => trivial, fun _ => rfl⟩
        · intro b _
          exact ⟨_, _, _, rfl⟩
        · intro ticket b hr
          cases (Prod.mk.inj (Except.ok.inj hr)).1
      · intro r e
        exact ⟨hs.dropped, Concluded.error hs.guarded⟩

theorem meets_lookup
    (hcall : ∀ s c, s.guarded = true → Acquires p scope s c → Issues p s c call)
    (hs : Holding quota s) :
    (lookup lib p scope quota).run.Meets (callContract p call) s
      fun s' r => s'.dropped = none ∧ Concluded s' r := by
  unfold lookup
  rw [meets_bind_ok]
  refine meets_send (hcall s _ hs.guarded rfl) ?_
    fun m => ⟨hs.dropped, Concluded.error hs.guarded⟩
  intro v
  dsimp only
  rw [meets_bind_ok, meets_ofResult]
  cases recorderOrigin lib v with
  | error e => exact ⟨hs.dropped, Concluded.error hs.guarded⟩
  | ok found =>
      cases found with
      | none =>
          exact ⟨hs.dropped, Concluded.plain hs.guarded (by simp [Favourable]) (by simp) (by simp)⟩
      | some origin =>
          dsimp only
          rw [meets_bind_ok]
          refine meets_exhausted hcall hs.heard ?_
            fun s' e hs' => ⟨hs'.dropped, Concluded.error hs'.guarded⟩
          intro s' b hs' hallowed
          cases b with
          | false => exact meets_claimSlot origin hcall hs' (hallowed rfl)
          | true =>
              exact ⟨hs'.dropped,
                Concluded.plain hs'.guarded (by simp [Favourable]) (by simp) (by simp)⟩

theorem meets_guarded {body : AdmissionTask Index (AcquireOutcome × Bool)}
    (hbody : body.run.Meets (callContract p call) s fun s' r => s'.dropped = none ∧ Concluded s' r) :
    (guarded body).run.Meets (callContract p call) s Settled := by
  unfold guarded
  rw [ExceptT.run_mk, Prog.meets_bind]
  refine hbody.mono ?_
  intro s' r hr
  obtain ⟨-, hr⟩ := hr
  cases r with
  | ok found =>
      obtain ⟨outcome, available⟩ := found
      dsimp only
      rw [Prog.meets_bind]
      refine meets_note hr.guarded fun _ => ?_
      refine ⟨rfl, ?_, ?_, ?_, ?_⟩
      · intro b hb
        obtain rfl : available = b := Option.some.inj hb
        exact hr.available outcome available rfl
      · intro _ hbusy
        obtain rfl := Except.ok.inj hbusy
        exact hr.rejected available rfl
      · intro ticket hacquired
        obtain rfl := Except.ok.inj hacquired
        exact congrArg some ((hr.available _ available rfl).mpr trivial)
      · intro ticket hacquired
        obtain rfl := Except.ok.inj hacquired
        exact hr.counted ticket available rfl
  | error e =>
      dsimp only
      rw [Prog.meets_bind]
      refine meets_note hr.guarded fun _ => ?_
      refine ⟨rfl, ?_, ?_, ?_, ?_⟩
      · intro b hb
        obtain rfl : false = b := Option.some.inj hb
        simp [Favourable]
      · intro _ hbusy
        cases hbusy
      · intro ticket hacquired
        cases hacquired
      · intro ticket hacquired
        cases hacquired

theorem Settled.unguarded {r : Except AdmissionError AcquireOutcome} (hguarded : s.guarded = false)
    (hdropped : s.dropped = none) (hr : ∀ ticket, r ≠ .ok (.acquired ticket)) : Settled s r where
  released := hguarded
  available b hb := by
    rw [hdropped] at hb
    cases hb
  rejected hd := absurd hdropped hd
  acquired ticket ht := absurd ht (hr ticket)
  counted ticket ht := absurd ht (hr ticket)

theorem meets_acquire
    (hcall : ∀ s c, s.guarded = true → Acquires p scope s c → Issues p s c call)
    (hguarded : s.guarded = false) (hdropped : s.dropped = none)
    (hlimit : s.limit = quota.map Prod.snd) :
    (acquire lib p scope quota).run.Meets (callContract p call) s Settled := by
  unfold acquire
  rw [meets_bind_ok]
  refine meets_note trivial fun participating => ?_
  cases participating with
  | false => exact Settled.unguarded hguarded hdropped (by simp)
  | true =>
      simp only [if_true]
      split
      · exact Settled.unguarded hguarded hdropped (by simp)
      · rw [meets_bind_ok]
        refine meets_note ⟨hguarded, hdropped⟩ fun found => ?_
        cases found with
        | error reason =>
            cases reason with
            | coolingDown => exact Settled.unguarded hguarded hdropped (by simp)
            | inProgress => exact Settled.unguarded hguarded hdropped (by simp)
        | ok u => exact meets_guarded (meets_lookup hcall ⟨rfl, hdropped, hlimit⟩)

theorem meets_tryAcquireRequest {path : String} :
    (tryAcquireRequest lib p scope path).run.Meets
      (callContract p (.tryAcquireRequest scope path)) .start Settled := by
  unfold tryAcquireRequest
  rw [meets_bind_ok]
  refine meets_note trivial fun participating => ?_
  cases participating with
  | false => exact Settled.unguarded rfl rfl (by simp)
  | true =>
      simp only [if_true]
      rw [meets_bind_ok]
      refine meets_note rfl fun found => ?_
      cases found with
      | none => exact Settled.unguarded rfl rfl (by simp)
      | some policy =>
          dsimp only
          cases policy.api lib path with
          | none => exact Settled.unguarded rfl rfl (by simp)
          | some api =>
              refine meets_acquire (fun s c hguarded hc => ⟨hguarded, hc⟩) rfl rfl ?_
              cases hcase : policy.caseLimit <;> simp [Story.noted, hcase]

theorem unguarded_of_post {call : Call} {c : Command} {r : Reply} {s' : Story}
    (h : (callContract p call : Contract (redisSig (admissionSig Index)) Story).post .start (.inl c)
      r s') : s'.guarded = false := by
  rw [show s' = Story.start.heard c r from h, Story.heard_guarded]
  rfl

theorem meets_call (lib : Libraries Index) (p : RedisAdmissionProvider) (call : Call) :
    (call.run lib p).Meets (callContract p call) .start Returned := by
  cases call with
  | tryAcquire scope =>
      exact Prog.meets_map.mpr (meets_acquire (fun s c hguarded hc => ⟨hguarded, hc⟩) rfl rfl rfl)
  | tryAcquireRequest scope path => exact Prog.meets_map.mpr meets_tryAcquireRequest
  | complete ticket =>
      exact Prog.meets_map.mpr (meets_transition rfl (fun _ h => unguarded_of_post h)
        (fun _ h => unguarded_of_post h) fun _ _ _ h => unguarded_of_post h)
  | renew ticket =>
      exact Prog.meets_map.mpr (meets_transition rfl (fun _ h => unguarded_of_post h)
        (fun _ h => unguarded_of_post h) fun _ _ _ h => unguarded_of_post h)
  | owns ticket =>
      refine Prog.meets_map.mpr ?_
      unfold owns
      rw [meets_bind_ok]
      refine meets_send rfl ?_ fun m => rfl
      intro v
      have hunguarded : (Story.start.heard (.get (p.key ticket.scope)) (.ok v)).guarded = false := rfl
      cases v <;> exact hunguarded

end

end BreezeGateway
