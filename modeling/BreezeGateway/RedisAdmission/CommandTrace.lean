import BreezeGateway.RedisAdmission.Provider

/-!
# The commands of an admission

`Reached` follows an acquisition as long as every reply lets it go on; what it sends is what the
point it has reached asks for.
-/

namespace BreezeGateway

open Effects RedisAdmissionProvider

variable {Index : Type}

abbrev AdmissionEvent (Index : Type) := Event (redisSig (admissionSig Index))

def sentCommand (e : AdmissionEvent Index) : Option (Command × Reply) :=
  match e with
  | ⟨.inl c, r⟩ => some (c, r)
  | _ => none

def commandLog (tr : List (AdmissionEvent Index)) : List (Command × Reply) :=
  tr.filterMap sentCommand

@[simp] theorem commandLog_append (tr tr' : List (AdmissionEvent Index)) :
    commandLog (tr ++ tr') = commandLog tr ++ commandLog tr' := List.filterMap_append

theorem commandLog_command (c : Command) (r : Reply) :
    commandLog [(⟨.inl c, r⟩ : AdmissionEvent Index)] = [(c, r)] := rfl

theorem commandLog_local (o : AdmissionOp) (x : (admissionSig Index).Ans o) :
    commandLog [(⟨.inr o, x⟩ : AdmissionEvent Index)] = [] := rfl

/-! ## How far an acquisition has come -/

/-- The guard is held: by a call without quota, or with the quota of the policy for its path. -/
inductive Opened (lib : Libraries Index) : Call → Option (String × ℕ) →
    List (AdmissionEvent Index) → Prop where
  | lockOnly {scope : String} : Opened lib (.tryAcquire scope) none
      [⟨.inr .isParticipating, true⟩, ⟨.inr .tryLookup, .ok ()⟩]
  | eligible {scope path api : String} {policy : CompiledPolicy Index}
      (h : policy.api lib path = some api) :
      Opened lib (.tryAcquireRequest scope path) (policy.caseLimit.map fun limit => (api, limit))
        [⟨.inr .isParticipating, true⟩, ⟨.inr .snapshot, some policy⟩, ⟨.inr .isParticipating, true⟩,
          ⟨.inr .tryLookup, .ok ()⟩]

inductive Stage where
  | opened
  | found (origin : Uri)
  | within (origin : Uri)
  | drawn (ticket : AdmissionTicket)
  | reserved (ticket : AdmissionTicket)
  | counted (ticket : AdmissionTicket)

def Stage.ticket : Stage → Option AdmissionTicket
  | .drawn ticket => some ticket
  | .reserved ticket => some ticket
  | .counted ticket => some ticket
  | _ => none

/-- The two forms in which `+OK` may arrive. -/
def Accepted (v : Value) : Prop := v = .okay ∨ v = .simpleString "OK"

section

variable (lib : Libraries Index) (p : RedisAdmissionProvider) (call : Call)

/-- The acquisition has come to the stage by these events. -/
inductive Reached : Option (String × ℕ) → List (AdmissionEvent Index) → Stage → Prop where
  | opened {quota : Option (String × ℕ)} {tr : List (AdmissionEvent Index)}
      (h : Opened lib call quota tr) (hkey : p.key call.scope ≠ p.recorderUrlKey) :
      Reached quota tr .opened
  | found {quota : Option (String × ℕ)} {tr : List (AdmissionEvent Index)} {v : Value} {origin : Uri}
      (h : Reached quota tr .opened) (hv : recorderOrigin lib v = .ok (some origin)) :
      Reached quota (tr ++ [⟨.inl (.get p.recorderUrlKey), .ok v⟩]) (.found origin)
  | uncapped {tr : List (AdmissionEvent Index)} {origin : Uri} (h : Reached none tr (.found origin)) :
      Reached none tr (.within origin)
  | within {api : String} {limit count : ℕ} {tr : List (AdmissionEvent Index)} {origin : Uri} {v : Value}
      (h : Reached (some (api, limit)) tr (.found origin)) (hv : countOf v = .ok count)
      (hcount : count < limit) :
      Reached (some (api, limit)) (tr ++ [⟨.inl (.hget p.countsKey api), .ok v⟩]) (.within origin)
  | drawn {quota : Option (String × ℕ)} {tr : List (AdmissionEvent Index)} {origin : Uri}
      {random : Fin (2 ^ 128) × Fin (2 ^ 128)} {ticket : AdmissionTicket}
      (h : Reached quota tr (.within origin))
      (hticket : (AdmissionTicket.new call.scope (acquisitionToken random) >>= (·.withOrigin origin)) =
        .ok ticket) :
      Reached quota (tr ++ [⟨.inr .randomToken, random⟩]) (.drawn ticket)
  | reserved {quota : Option (String × ℕ)} {tr : List (AdmissionEvent Index)} {ticket : AdmissionTicket}
      {v : Value} (h : Reached quota tr (.drawn ticket)) (hv : Accepted v) :
      Reached quota (tr ++ [⟨.inl (.set (p.key call.scope) (utf8 ticket.token) p.ttlMs), .ok v⟩])
        (.reserved ticket)
  | uncounted {tr : List (AdmissionEvent Index)} {ticket : AdmissionTicket}
      (h : Reached none tr (.reserved ticket)) : Reached none tr (.counted ticket)
  | counted {api : String} {limit : ℕ} {tr : List (AdmissionEvent Index)} {ticket : AdmissionTicket}
      {n : ℤ} (h : Reached (some (api, limit)) tr (.reserved ticket)) (hn : 0 < n) :
      Reached (some (api, limit)) (tr ++ [⟨.inl (.hincrby p.countsKey api 1), .ok (.int n)⟩])
        (.counted ticket)

inductive Asks : Option (String × ℕ) → Stage → Command → Prop where
  | get {quota : Option (String × ℕ)} : Asks quota .opened (.get p.recorderUrlKey)
  | hget {api : String} {limit : ℕ} {origin : Uri} :
      Asks (some (api, limit)) (.found origin) (.hget p.countsKey api)
  | set {quota : Option (String × ℕ)} {ticket : AdmissionTicket} :
      Asks quota (.drawn ticket) (.set (p.key call.scope) (utf8 ticket.token) p.ttlMs)
  | hincrby {api : String} {limit : ℕ} {ticket : AdmissionTicket} :
      Asks (some (api, limit)) (.reserved ticket) (.hincrby p.countsKey api 1)

/-- The command may be sent after these events. -/
def Permitted (tr : List (AdmissionEvent Index)) (c : Command) : Prop :=
  ∃ quota stage, Reached lib p call quota tr stage ∧ Asks p call quota stage c

/-- All that an acquisition sends, if nothing stops it. -/
def plan (quota : Option (String × ℕ)) (token : String) : List Command :=
  [.get p.recorderUrlKey] ++ (quota.map fun q => Command.hget p.countsKey q.1).toList ++
    [.set (p.key call.scope) (utf8 token) p.ttlMs] ++
    (quota.map fun q => Command.hincrby p.countsKey q.1 1).toList

def Completed (tr : List (AdmissionEvent Index)) (ticket : AdmissionTicket) : Prop :=
  ∃ quota pre, Reached lib p call quota pre (.counted ticket) ∧
    tr = pre ++ [⟨.inr .isParticipating, true⟩, ⟨.inr (.dropLookup true), ()⟩]

/-- What is left of the guarded part at a stage. -/
def remaining (quota : Option (String × ℕ)) : Stage → AdmissionTask Index (AcquireOutcome × Bool)
  | .opened => lookup lib p call.scope quota
  | .found origin => do
      if ← exhausted p quota then pure (.quotaExhausted, true)
      else claimSlot p call.scope quota origin
  | .within origin => claimSlot p call.scope quota origin
  | .drawn ticket => do
      if ← reserve (p.key call.scope) ticket.token p.ttlMs then
        countAdmission p quota
        if ← isParticipating then pure (.acquired ticket, true) else throw .participationLost
      else pure (.busy, true)
  | .reserved ticket => do
      countAdmission p quota
      if ← isParticipating then pure (.acquired ticket, true) else throw .participationLost
  | .counted ticket => do
      if ← isParticipating then pure (.acquired ticket, true) else throw .participationLost

/-- What has been sent at a stage. -/
def planned (quota : Option (String × ℕ)) : Stage → List Command
  | .opened => []
  | .found _ => [.get p.recorderUrlKey]
  | .within _ => [.get p.recorderUrlKey] ++ (quota.map fun q => Command.hget p.countsKey q.1).toList
  | .drawn _ => [.get p.recorderUrlKey] ++ (quota.map fun q => Command.hget p.countsKey q.1).toList
  | .reserved ticket =>
      [.get p.recorderUrlKey] ++ (quota.map fun q => Command.hget p.countsKey q.1).toList ++
        [.set (p.key call.scope) (utf8 ticket.token) p.ttlMs]
  | .counted ticket => plan p call quota ticket.token

/-- The call participates, its path is eligible, it has the guard, and the slot has a key of its own. -/
def Begun (quota : Option (String × ℕ)) (tr : List (AdmissionEvent Index)) : Prop :=
  (∃ opening, opening <+: tr ∧ Opened lib call quota opening) ∧ p.key call.scope ≠ p.recorderUrlKey

/-- The reply lets the acquisition go on. -/
def Allows (quota : Option (String × ℕ)) : Command → Reply → Prop
  | .get _, r => ∃ v origin, r = .ok v ∧ recorderOrigin lib v = .ok (some origin)
  | .hget _ _, r => ∃ v count api limit, quota = some (api, limit) ∧ r = .ok v ∧
      countOf v = .ok count ∧ count < limit
  | .set _ _ _, r => ∃ v, r = .ok v ∧ Accepted v
  | .hincrby _ _ _, r => ∃ n, r = .ok (.int n) ∧ 0 < n
  | _, _ => False

end

section

variable {lib : Libraries Index} {p : RedisAdmissionProvider} {call : Call}
  {quota : Option (String × ℕ)} {tr : List (AdmissionEvent Index)} {stage : Stage} {c : Command}

theorem Opened.commandLog (h : Opened lib call quota tr) : commandLog tr = [] := by
  cases h <;> rfl

theorem Reached.planned (h : Reached lib p call quota tr stage) :
    (commandLog tr).map Prod.fst = planned p call quota stage := by
  induction h with
  | opened h hkey =>
      rw [h.commandLog]
      rfl
  | found h hv ih =>
      rw [commandLog_append, List.map_append, ih]
      rfl
  | uncapped h ih => exact ih
  | within h hv hcount ih =>
      rw [commandLog_append, List.map_append, ih]
      rfl
  | drawn h hticket ih =>
      rw [commandLog_append, commandLog_local, List.append_nil, ih]
      rfl
  | reserved h hv ih =>
      rw [commandLog_append, List.map_append, ih]
      rfl
  | uncounted h ih => exact ih
  | counted h hn ih =>
      rw [commandLog_append, List.map_append, ih]
      rfl

theorem allows_append {r : Reply} (h : ∀ x ∈ commandLog tr, Allows lib quota x.1 x.2)
    (hlast : Allows lib quota c r) :
    ∀ x ∈ commandLog (tr ++ [⟨.inl c, r⟩]), Allows lib quota x.1 x.2 := by
  intro x hx
  rw [commandLog_append, commandLog_command, List.mem_append, List.mem_singleton] at hx
  rcases hx with hx | rfl
  · exact h x hx
  · exact hlast

theorem Reached.allows (h : Reached lib p call quota tr stage) :
    ∀ x ∈ commandLog tr, Allows lib quota x.1 x.2 := by
  induction h with
  | opened h hkey =>
      rw [h.commandLog]
      simp
  | found h hv ih => exact allows_append ih ⟨_, _, rfl, hv⟩
  | uncapped h ih => exact ih
  | within h hv hcount ih => exact allows_append ih ⟨_, _, _, _, rfl, rfl, hv, hcount⟩
  | drawn h hticket ih =>
      intro x hx
      rw [commandLog_append, commandLog_local, List.append_nil] at hx
      exact ih x hx
  | reserved h hv ih => exact allows_append ih ⟨_, rfl, hv⟩
  | uncounted h ih => exact ih
  | counted h hn ih => exact allows_append ih ⟨_, rfl, hn⟩

theorem Begun.append (h : Begun lib p call quota tr) (rest : List (AdmissionEvent Index)) :
    Begun lib p call quota (tr ++ rest) := by
  obtain ⟨⟨opening, hopening, hopened⟩, hkey⟩ := h
  exact ⟨⟨opening, hopening.trans (List.prefix_append _ _), hopened⟩, hkey⟩

theorem Reached.begun (h : Reached lib p call quota tr stage) : Begun lib p call quota tr := by
  induction h with
  | @opened quota tr h hkey => exact ⟨⟨tr, List.prefix_rfl, h⟩, hkey⟩
  | uncapped h ih => exact ih
  | uncounted h ih => exact ih
  | found h hv ih => exact ih.append _
  | within h hv hcount ih => exact ih.append _
  | drawn h hticket ih => exact ih.append _
  | reserved h hv ih => exact ih.append _
  | counted h hn ih => exact ih.append _

theorem Reached.ticket (h : Reached lib p call quota tr stage) {ticket : AdmissionTicket}
    (hstage : stage.ticket = some ticket) :
    ∃ random origin, (⟨.inr .randomToken, random⟩ : AdmissionEvent Index) ∈ tr ∧
      (AdmissionTicket.new call.scope (acquisitionToken random) >>= (·.withOrigin origin)) =
        .ok ticket := by
  induction h with
  | drawn h hticket ih =>
      obtain rfl := Option.some.inj hstage
      exact ⟨_, _, List.mem_append_right _ (List.mem_singleton_self _), hticket⟩
  | reserved h hv ih =>
      obtain ⟨random, origin, hmem, hticket⟩ := ih hstage
      exact ⟨random, origin, List.mem_append_left _ hmem, hticket⟩
  | uncounted h ih => exact ih hstage
  | counted h hn ih =>
      obtain ⟨random, origin, hmem, hticket⟩ := ih hstage
      exact ⟨random, origin, List.mem_append_left _ hmem, hticket⟩
  | opened h hkey => cases hstage
  | found h hv ih => cases hstage
  | uncapped h ih => cases hstage
  | within h hv hcount ih => cases hstage

def Unraised (tr : List (AdmissionEvent Index)) : Prop :=
  ∀ x ∈ commandLog tr, ∀ key field n, x.1 ≠ .hincrby key field n

theorem Unraised.append {tr' : List (AdmissionEvent Index)} (h : Unraised tr) (h' : Unraised tr') :
    Unraised (tr ++ tr') := by
  intro x hx
  rw [commandLog_append, List.mem_append] at hx
  rcases hx with hx | hx
  · exact h x hx
  · exact h' x hx

theorem unraised_local (o : AdmissionOp) (x : (admissionSig Index).Ans o) :
    Unraised [(⟨.inr o, x⟩ : AdmissionEvent Index)] := by
  intro y hy
  cases hy

theorem unraised_command {r : Reply} (hc : ∀ key field n, c ≠ .hincrby key field n) :
    Unraised [(⟨.inl c, r⟩ : AdmissionEvent Index)] := by
  intro y hy
  obtain rfl := List.mem_singleton.mp hy
  exact hc

/-- Counts are raised last. -/
theorem Reached.unraised (h : Reached lib p call quota tr stage)
    (hstage : ∀ ticket, stage ≠ .counted ticket) : Unraised tr := by
  intro x hx key field n hx'
  have hmem : Command.hincrby key field n ∈ BreezeGateway.planned p call quota stage := by
    rw [← h.planned, ← hx']
    exact List.mem_map_of_mem hx
  cases stage with
  | counted ticket => exact hstage ticket rfl
  | _ => simp [BreezeGateway.planned] at hmem

end

/-! ## Every path of the code -/

section

variable {lib : Libraries Index} {p : RedisAdmissionProvider} {call : Call}
  {quota : Option (String × ℕ)} {tr : List (AdmissionEvent Index)}

/-- Commands are sent where they are permitted. -/
def traceContract (lib : Libraries Index) (p : RedisAdmissionProvider) (call : Call) :
    Contract (redisSig (admissionSig Index)) (List (AdmissionEvent Index)) :=
  Prog.Told fun tr o =>
    match o with
    | .inl c => Permitted lib p call tr c
    | .inr _ => True

theorem tells_command {α : Type} {c : Command} {f : Value → AdmissionTask Index α}
    {Q : List (AdmissionEvent Index) → Except AdmissionError α → Prop} (hc : Permitted lib p call tr c)
    (hok : ∀ v, (f v).run.Meets (traceContract lib p call) (tr ++ [⟨.inl c, .ok v⟩]) Q)
    (herr : ∀ tr e, Q tr (.error e)) :
    (Task.command c >>= f).run.Meets (traceContract lib p call) tr Q := by
  rw [meets_bind_ok]
  refine meets_command hc ?_ ?_
  · rintro v _ rfl
    exact hok v
  · rintro m _ rfl
    exact herr _ _

theorem tells_local {α : Type} {o : AdmissionOp} {f : (admissionSig Index).Ans o → AdmissionTask Index α}
    {Q : List (AdmissionEvent Index) → Except AdmissionError α → Prop}
    (h : ∀ x, (f x).run.Meets (traceContract lib p call) (tr ++ [⟨.inr o, x⟩]) Q) :
    (Task.perform (L := admissionSig Index) o >>= f).run.Meets (traceContract lib p call) tr Q := by
  rw [meets_bind_ok]
  refine meets_perform trivial ?_
  rintro x _ rfl
  exact h x

theorem tells_result {α β : Type} {x : Except AdmissionError α} {f : α → AdmissionTask Index β}
    {Q : List (AdmissionEvent Index) → Except AdmissionError β → Prop}
    (hok : ∀ a, x = .ok a → (f a).run.Meets (traceContract lib p call) tr Q)
    (herr : ∀ e, Q tr (.error e)) :
    (Task.ofResult x >>= f).run.Meets (traceContract lib p call) tr Q := by
  rw [meets_bind_ok, meets_ofResult]
  cases hx : x with
  | error e => exact herr e
  | ok a => exact hok a hx

/-- What the result of the guarded part says about the transcript. -/
def BodyTells (lib : Libraries Index) (p : RedisAdmissionProvider) (call : Call)
    (tr : List (AdmissionEvent Index)) : Except AdmissionError (AcquireOutcome × Bool) → Prop
  | .ok (.acquired ticket, available) => available = true ∧ ∃ quota pre,
      Reached lib p call quota pre (.counted ticket) ∧ tr = pre ++ [⟨.inr .isParticipating, true⟩]
  | .ok _ => Unraised tr
  | .error _ => True

/-- What the result of an acquisition says about the transcript. -/
def Tells (lib : Libraries Index) (p : RedisAdmissionProvider) (call : Call)
    (tr : List (AdmissionEvent Index)) : Except AdmissionError AcquireOutcome → Prop
  | .ok (.acquired ticket) => Completed lib p call tr ticket
  | .ok _ => Unraised tr
  | .error _ => True

theorem tells_countAdmission {ticket : AdmissionTicket}
    {Q : List (AdmissionEvent Index) → Except AdmissionError Unit → Prop}
    (h : Reached lib p call quota tr (.reserved ticket))
    (hok : ∀ tr, Reached lib p call quota tr (.counted ticket) → Q tr (.ok ()))
    (herr : ∀ tr e, Q tr (.error e)) :
    (countAdmission p quota : AdmissionTask Index Unit).run.Meets (traceContract lib p call) tr Q := by
  unfold countAdmission
  cases quota with
  | none => exact hok tr h.uncounted
  | some q =>
      obtain ⟨api, limit⟩ := q
      refine tells_command ⟨_, _, h, .hincrby⟩ ?_ herr
      intro v
      cases v with
      | int n =>
          dsimp only
          split
          · rename_i hn
            exact hok _ (h.counted hn)
          · exact herr _ _
      | _ => exact herr _ _

theorem tells_exhausted {origin : Uri}
    {Q : List (AdmissionEvent Index) → Except AdmissionError Bool → Prop}
    (h : Reached lib p call quota tr (.found origin))
    (hfalse : ∀ tr, Reached lib p call quota tr (.within origin) → Q tr (.ok false))
    (htrue : ∀ tr, Unraised tr → Q tr (.ok true)) (herr : ∀ tr e, Q tr (.error e)) :
    (exhausted p quota : AdmissionTask Index Bool).run.Meets (traceContract lib p call) tr Q := by
  unfold exhausted
  cases quota with
  | none => exact hfalse tr h.uncapped
  | some q =>
      obtain ⟨api, limit⟩ := q
      refine tells_command ⟨_, _, h, .hget⟩ ?_ herr
      intro v
      refine tells_result ?_ (herr _)
      intro count hcount
      by_cases hlimit : limit ≤ count
      · rw [decide_eq_true hlimit]
        exact htrue _ ((h.unraised (by simp)).append (unraised_command (by simp)))
      · rw [decide_eq_false hlimit]
        exact hfalse _ (h.within hcount (Nat.lt_of_not_le hlimit))

theorem tells_counted {ticket : AdmissionTicket} (h : Reached lib p call quota tr (.counted ticket)) :
    (do
      if ← isParticipating then pure (.acquired ticket, true)
      else throw .participationLost : AdmissionTask Index (AcquireOutcome × Bool)).run.Meets
        (traceContract lib p call) tr (BodyTells lib p call) := by
  refine tells_local ?_
  intro participating
  cases participating with
  | false => trivial
  | true => exact ⟨rfl, quota, tr, h, rfl⟩

theorem tells_claimSlot {origin : Uri} (h : Reached lib p call quota tr (.within origin)) :
    (claimSlot p call.scope quota origin : AdmissionTask Index (AcquireOutcome × Bool)).run.Meets
      (traceContract lib p call) tr (BodyTells lib p call) := by
  unfold claimSlot
  refine tells_local ?_
  intro random
  refine tells_result ?_ fun e => trivial
  intro ticket hticket
  have hdrawn := h.drawn hticket
  rw [meets_bind_ok]
  refine meets_reserve ⟨_, _, hdrawn, .set⟩ ?_ ?_ ?_
  · rintro v _ hv rfl
    simp only [if_true]
    rw [meets_bind_ok]
    exact tells_countAdmission (hdrawn.reserved hv) (fun tr hcounted => tells_counted hcounted)
      fun tr e => trivial
  · rintro _ rfl
    exact (hdrawn.unraised (by simp)).append (unraised_command (by simp))
  · rintro r _ e rfl
    trivial

theorem tells_lookup (h : Reached lib p call quota tr .opened) :
    (lookup lib p call.scope quota).run.Meets (traceContract lib p call) tr (BodyTells lib p call) := by
  unfold lookup
  refine tells_command ⟨_, _, h, .get⟩ ?_ fun tr e => trivial
  intro v
  refine tells_result ?_ fun e => trivial
  intro found hfound
  cases found with
  | none => exact (h.unraised (by simp)).append (unraised_command (by simp))
  | some origin =>
      dsimp only
      rw [meets_bind_ok]
      exact tells_exhausted (h.found hfound) (fun tr h => tells_claimSlot h) (fun tr hunraised => hunraised)
        fun tr e => trivial

theorem tells_guarded {body : AdmissionTask Index (AcquireOutcome × Bool)}
    (h : body.run.Meets (traceContract lib p call) tr (BodyTells lib p call)) :
    (guarded body).run.Meets (traceContract lib p call) tr (Tells lib p call) := by
  unfold guarded
  rw [ExceptT.run_mk, Prog.meets_bind]
  refine h.mono ?_
  intro tr' r hr
  cases r with
  | error e =>
      dsimp only
      rw [Prog.meets_bind]
      exact meets_perform trivial fun _ _ _ => trivial
  | ok found =>
      obtain ⟨outcome, available⟩ := found
      dsimp only
      rw [Prog.meets_bind]
      refine meets_perform trivial ?_
      rintro x _ rfl
      cases outcome with
      | acquired ticket =>
          obtain ⟨rfl, quota, pre, hpre, rfl⟩ := hr
          exact ⟨quota, pre, hpre, List.append_assoc _ _ _⟩
      | _ => exact Unraised.append hr (unraised_local _ _)

theorem tells_acquire (hunraised : Unraised tr)
    (hopened : Opened lib call quota
      (tr ++ [⟨.inr .isParticipating, true⟩, ⟨.inr .tryLookup, .ok ()⟩])) :
    (acquire lib p call.scope quota).run.Meets (traceContract lib p call) tr (Tells lib p call) := by
  unfold acquire
  refine tells_local ?_
  intro participating
  have hunraised' := hunraised.append (unraised_local .isParticipating participating)
  cases participating with
  | false => exact hunraised'
  | true =>
      simp only [if_true]
      split
      · trivial
      · rename_i hkey
        refine tells_local ?_
        intro found
        cases found with
        | error reason => cases reason <;> exact hunraised'.append (unraised_local _ _)
        | ok u =>
            refine tells_guarded (tells_lookup (.opened ?_ hkey))
            rw [List.append_assoc]
            exact hopened

theorem tells_tryAcquireRequest {scope path : String} :
    (tryAcquireRequest lib p scope path).run.Meets
      (traceContract lib p (.tryAcquireRequest scope path)) []
      (Tells lib p (.tryAcquireRequest scope path)) := by
  unfold tryAcquireRequest
  refine tells_local ?_
  intro participating
  cases participating with
  | false => exact unraised_local _ _
  | true =>
      refine tells_local ?_
      intro found
      have hunraised : Unraised ([] ++ [(⟨.inr .isParticipating, true⟩ : AdmissionEvent Index)] ++
          [⟨.inr .snapshot, found⟩]) := (unraised_local _ _).append (unraised_local _ _)
      cases found with
      | none => exact hunraised
      | some policy =>
          dsimp only
          cases hapi : policy.api lib path with
          | none => exact hunraised
          | some api => exact tells_acquire hunraised (.eligible hapi)

/-- Commands are permitted where they are sent, and results say what was sent. -/
theorem tells_call (hcall : call.isAcquire = true) :
    (call.run lib p).Meets (traceContract lib p call) [] fun tr r =>
      ∀ r', r = .outcome r' → Tells lib p call tr r' := by
  cases call with
  | tryAcquire scope =>
      refine Prog.meets_map.mpr ((tells_acquire ?_ .lockOnly).mono ?_)
      · intro x hx
        cases hx
      · rintro tr r hr r' ⟨⟩
        exact hr
  | tryAcquireRequest scope path =>
      refine Prog.meets_map.mpr (tells_tryAcquireRequest.mono ?_)
      rintro tr r hr r' ⟨⟩
      exact hr
  | _ => cases hcall

/-! ## Every transcript of a stage is one of the code -/

theorem ofResult_bind {L : Sig} {α β : Type} {x : Except AdmissionError α} {a : α} {f : α → Task L β}
    (h : x = .ok a) : (Task.ofResult x >>= f).run = (f a).run := by
  subst h
  rfl

theorem steps_guarded {body body' : AdmissionTask Index (AcquireOutcome × Bool)}
    (h : Prog.Steps body.run tr body'.run) :
    Prog.Steps (CallResult.outcome <$> (guarded body).run) tr
      (CallResult.outcome <$> (guarded body').run) :=
  (h.bind _).bind _

theorem steps_acquire {scope : String} (hkey : p.key scope ≠ p.recorderUrlKey) :
    Prog.Steps (acquire lib p scope quota).run
      [⟨.inr .isParticipating, true⟩, ⟨.inr .tryLookup, .ok ()⟩]
      (guarded (lookup lib p scope quota)).run := by
  refine .op ?_
  change Prog.Steps (if p.key scope = p.recorderUrlKey then _ else _ :
    AdmissionTask Index AcquireOutcome).run _ _
  rw [if_neg hkey]
  exact .op (.refl _)

theorem Reached.steps {stage : Stage} (hcall : call.isAcquire = true) (h : Reached lib p call quota tr stage) :
    Prog.Steps (call.run lib p) tr
      (CallResult.outcome <$> (guarded (remaining lib p call quota stage)).run) := by
  induction h with
  | @opened quota tr h hkey =>
      cases h with
      | lockOnly => exact (steps_acquire hkey).bind _
      | @eligible scope path api policy h =>
          refine .op (.op ?_)
          simp only [Prog.bind, ExceptT.bindCont, h]
          exact (steps_acquire hkey).bind _
  | @found quota tr v origin h hv ih =>
      refine ih.trans (steps_guarded (Prog.Steps.one ?_))
      exact ofResult_bind hv
  | uncapped h ih => exact ih
  | @within api limit count tr origin v h hv hcount ih =>
      refine ih.trans (steps_guarded (Prog.Steps.one ?_))
      change ((Task.ofResult (countOf v) >>= fun count => pure (decide (limit ≤ count))) >>= fun b =>
        if b = true then pure (.quotaExhausted, true)
        else claimSlot p call.scope (some (api, limit)) origin : AdmissionTask Index _).run = _
      rw [hv]
      change (if decide (limit ≤ count) = true then _ else _ : AdmissionTask Index _).run = _
      rw [if_neg (by simpa using hcount)]
      rfl
  | drawn h hticket ih =>
      refine ih.trans (steps_guarded (Prog.Steps.one ?_))
      exact ofResult_bind hticket
  | reserved h hv ih =>
      refine ih.trans (steps_guarded (Prog.Steps.one ?_))
      rcases hv with rfl | rfl
      · rfl
      · rfl
  | uncounted h ih => exact ih
  | @counted api limit tr ticket n h hn ih =>
      refine ih.trans (steps_guarded (Prog.Steps.one ?_))
      change ((if 0 < n then pure () else throw _ : AdmissionTask Index Unit) >>= fun _ =>
        remaining lib p call (some (api, limit)) (.counted ticket)).run = _
      rw [if_pos hn]
      rfl

theorem Completed.runs {ticket : AdmissionTicket} (hcall : call.isAcquire = true)
    (h : Completed lib p call tr ticket) :
    (call.run lib p).Runs tr (.outcome (.ok (.acquired ticket))) := by
  obtain ⟨quota, pre, hreached, rfl⟩ := h
  exact (hreached.steps hcall).trans (.op (.op (.refl _)))

/-! ## The trace of a call -/

theorem commandLog_split {pre post : List (Command × Reply)} {c : Command} {r : Reply}
    (h : commandLog tr = pre ++ (c, r) :: post) :
    ∃ before after, tr = before ++ ⟨.inl c, r⟩ :: after ∧ commandLog before = pre := by
  obtain ⟨l₁, l₂, rfl, hpre, hrest⟩ := List.filterMap_eq_append_iff.mp h
  obtain ⟨l₃, e, l₄, rfl, hnone, he, -⟩ := List.filterMap_eq_cons_iff.mp hrest
  obtain ⟨o, x⟩ := e
  cases o with
  | inr o => cases he
  | inl c' =>
      obtain ⟨rfl, rfl⟩ := Prod.mk.inj (Option.some.inj he)
      refine ⟨l₁ ++ l₃, l₄, by simp, ?_⟩
      have hquiet : commandLog l₃ = [] := List.filterMap_eq_nil_iff.mpr hnone
      rw [commandLog_append, hquiet, List.append_nil]
      exact hpre

theorem permitted_of_steps (hcall : call.isAcquire = true) {before after : List (AdmissionEvent Index)}
    {c : Command} {r : Reply} {q : Prog (redisSig (admissionSig Index)) CallResult}
    (h : Prog.Steps (call.run lib p) (before ++ ⟨.inl c, r⟩ :: after) q) :
    Permitted lib p call before c := by
  obtain ⟨k, hsteps⟩ := h.before
  exact ((tells_call hcall).told hsteps).1

theorem planned_prefix {stage : Stage} {c : Command} (h : Asks p call quota stage c) :
    ∃ token, planned p call quota stage ++ [c] <+: plan p call quota token := by
  cases h with
  | get =>
      exact ⟨"", List.prefix_append_of_prefix (List.prefix_append_of_prefix (List.prefix_append _ _))⟩
  | hget => exact ⟨"", List.prefix_append_of_prefix (List.prefix_append _ _)⟩
  | @set quota ticket => exact ⟨ticket.token, List.prefix_append _ _⟩
  | @hincrby api limit ticket => exact ⟨ticket.token, List.prefix_rfl⟩

/-- What the transcript of a call says about the commands it has sent, however far it has come. -/
structure Ordered (lib : Libraries Index) (p : RedisAdmissionProvider) (call : Call)
    (quota : Option (String × ℕ)) (tr : List (AdmissionEvent Index)) : Prop where
  begun : Begun lib p call quota tr
  planned : ∃ token, (commandLog tr).map Prod.fst <+: plan p call quota token
  allowed : ∀ pre x post, commandLog tr = pre ++ x :: post → ∀ y ∈ pre, Allows lib quota y.1 y.2

theorem ordered_of_steps (hcall : call.isAcquire = true)
    {q : Prog (redisSig (admissionSig Index)) CallResult} (h : Prog.Steps (call.run lib p) tr q) :
    commandLog tr = [] ∨ ∃ quota, Ordered lib p call quota tr := by
  rcases List.eq_nil_or_concat (commandLog tr) with hnil | ⟨sent, ⟨c, r⟩, hlog⟩
  · exact Or.inl hnil
  · rw [List.concat_eq_append] at hlog
    obtain ⟨before, after, rfl, hbefore⟩ := commandLog_split hlog
    obtain ⟨quota, stage, hreached, hasks⟩ := permitted_of_steps hcall h
    refine Or.inr ⟨quota, hreached.begun.append _, ?_, ?_⟩
    · obtain ⟨token, hopening⟩ := planned_prefix hasks
      refine ⟨token, ?_⟩
      rwa [hlog, List.map_append, ← hbefore, hreached.planned]
    · intro pre x post hsplit y hy
      rw [hlog] at hsplit
      apply hreached.allows
      rw [hbefore]
      have hopening : pre <+: sent := by
        rcases List.eq_nil_or_concat post with rfl | ⟨post', z, rfl⟩
        · exact (List.append_inj' hsplit rfl).1 ▸ List.prefix_rfl
        · rw [List.concat_eq_append, ← List.cons_append, ← List.append_assoc] at hsplit
          exact (List.append_inj' hsplit rfl).1 ▸ List.prefix_append _ _
      exact hopening.subset hy

theorem drawn_of_steps (hcall : call.isAcquire = true)
    {q : Prog (redisSig (admissionSig Index)) CallResult} {key : String} {value : Bytes} {px : ℕ}
    {r : Reply} (h : Prog.Steps (call.run lib p) tr q) (hmem : (.set key value px, r) ∈ commandLog tr) :
    ∃ random, (⟨.inr .randomToken, random⟩ : AdmissionEvent Index) ∈ tr ∧
      value = utf8 (acquisitionToken random) := by
  obtain ⟨pre, post, hlog⟩ := List.append_of_mem hmem
  obtain ⟨before, after, rfl, -⟩ := commandLog_split hlog
  obtain ⟨quota, stage, hreached, hasks⟩ := permitted_of_steps hcall h
  cases hasks with
  | @set quota ticket =>
      obtain ⟨random, origin, hmem, hticket⟩ := hreached.ticket rfl
      obtain ⟨ticket₀, hnew, horigin⟩ := except_bind_ok hticket
      refine ⟨random, List.mem_append_left _ hmem, ?_⟩
      rw [(AdmissionTicket.of_withOrigin horigin).2, (AdmissionTicket.of_new hnew).2]

/-- Counts are raised by a call that holds the slot. -/
theorem reserved_of_hincrby (hcall : call.isAcquire = true)
    {q : Prog (redisSig (admissionSig Index)) CallResult} {pre post : List (Command × Reply)}
    {key field : String} {n : ℤ} {r : Reply} (h : Prog.Steps (call.run lib p) tr q)
    (hlog : commandLog tr = pre ++ (.hincrby key field n, r) :: post) :
    ∃ value v, (.set (p.key call.scope) value p.ttlMs, .ok v) ∈ pre ∧ Accepted v := by
  obtain ⟨before, after, rfl, rfl⟩ := commandLog_split hlog
  obtain ⟨quota, stage, hreached, hasks⟩ := permitted_of_steps hcall h
  cases hasks with
  | @hincrby api limit ticket =>
      have hmem : Command.set (p.key call.scope) (utf8 ticket.token) p.ttlMs ∈
          (commandLog before).map Prod.fst := by
        rw [hreached.planned]
        simp [planned]
      obtain ⟨⟨c, r'⟩, hmem, rfl⟩ := List.mem_map.mp hmem
      obtain ⟨v, rfl, hv⟩ := hreached.allows _ hmem
      exact ⟨_, v, hmem, hv⟩

/-- The commands of an admission follow its plan as far as the replies allow, counts are raised
only under a reservation, and a ticket is returned exactly by a call that has come to the end. -/
theorem command_trace (lib : Libraries Index) (p : RedisAdmissionProvider) {call : Call}
    (hcall : call.isAcquire = true) :
    (∀ tr q, Prog.Steps (call.run lib p) tr q →
      (commandLog tr = [] ∨ ∃ quota, Ordered lib p call quota tr) ∧
      (∀ key value px r, (.set key value px, r) ∈ commandLog tr →
        ∃ random, (⟨.inr .randomToken, random⟩ : AdmissionEvent Index) ∈ tr ∧
          value = utf8 (acquisitionToken random)) ∧
      ∀ pre key field n r post, commandLog tr = pre ++ (.hincrby key field n, r) :: post →
        ∃ value v, (.set (p.key call.scope) value p.ttlMs, .ok v) ∈ pre ∧ Accepted v) ∧
    (∀ tr outcome, (call.run lib p).Runs tr (.outcome (.ok outcome)) →
      (∀ ticket, outcome ≠ .acquired ticket) →
      ∀ x ∈ commandLog tr, ∀ key field n, x.1 ≠ .hincrby key field n) ∧
    ∀ tr ticket, (call.run lib p).Runs tr (.outcome (.ok (.acquired ticket))) ↔
      Completed lib p call tr ticket := by
  have htells : ∀ tr r, (call.run lib p).Runs tr (.outcome r) → Tells lib p call tr r :=
    fun tr r hruns => (tells_call hcall).told hruns r rfl
  refine ⟨?_, ?_, ?_⟩
  · intro tr q h
    refine ⟨ordered_of_steps hcall h, ?_, ?_⟩
    · intro key value px r hmem
      exact drawn_of_steps hcall h hmem
    · intro pre key field n r post hlog
      exact reserved_of_hincrby hcall h hlog
  · intro tr outcome hruns houtcome
    have hunraised := htells tr _ hruns
    cases outcome with
    | acquired ticket => exact absurd rfl (houtcome ticket)
    | _ => exact hunraised
  · intro tr ticket
    exact ⟨fun hruns => htells tr _ hruns, fun hcompleted => hcompleted.runs hcall⟩

end

/-- A capped admission sends all four commands. -/
theorem command_trace_capped :
    ∃ tr ticket, Completed soloLibraries ⟨"p", "r", 60000⟩ (.tryAcquireRequest "s" "/x") tr ticket ∧
      (commandLog tr).length = 4 := by
  have hruns : ((Call.tryAcquireRequest "s" "/x").run soloLibraries ⟨"p", "r", 60000⟩).Runs
      [⟨.inr .isParticipating, true⟩, ⟨.inr .snapshot, some ⟨some 1, true, (), [], (), ()⟩⟩,
        ⟨.inr .isParticipating, true⟩, ⟨.inr .tryLookup, .ok ()⟩,
        ⟨.inl _, .ok (.bulkString (utf8 "http://r"))⟩, ⟨.inl _, .ok .nil⟩,
        ⟨.inr .randomToken, (0, 0)⟩, ⟨.inl _, .ok .okay⟩, ⟨.inl _, .ok (.int 1)⟩,
        ⟨.inr .isParticipating, true⟩, ⟨.inr (.dropLookup true), ()⟩] _ :=
    .op (.op (.op (.op (.op (.op (.op (.op (.op (.op (.op (.refl _)))))))))))
  exact ⟨_, _, ((command_trace soloLibraries ⟨"p", "r", 60000⟩ rfl).2.2 _ _).mp hruns, rfl⟩

end BreezeGateway
