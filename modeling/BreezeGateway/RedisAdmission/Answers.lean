import BreezeGateway.Effects.Transcript
import BreezeGateway.RedisAdmission.CommandTrace
import BreezeGateway.RedisAdmission.ProviderNetwork

/-!
# Every answer was true

What a call returns is what Redis, or the state its family shares, said at one moment between its
launch and its return, whatever other calls did before and after that moment.
-/

namespace BreezeGateway

open Effects Effects.Network RedisAdmissionProvider

/-! ## The reason for a result -/

section

variable {Index : Type} (lib : Libraries Index) (p : RedisAdmissionProvider) (call : Call)

/-- The policy of the call counts `api` up to `limit`. -/
def Capped (tr : List (AdmissionEvent Index)) (api : String) (limit : ℕ) : Prop :=
  ∃ scope path policy, call = .tryAcquireRequest scope path ∧
    (⟨.inr .snapshot, some policy⟩ : AdmissionEvent Index) ∈ tr ∧
    policy.api lib path = some api ∧ policy.caseLimit = some limit

/-- The event that decided an outcome. -/
def Reason (tr : List (AdmissionEvent Index)) : AcquireOutcome → Prop
  | .acquired ticket => Completed lib p call tr ticket
  | .busy =>
      (⟨.inr .tryLookup, .error .inProgress⟩ : AdmissionEvent Index) ∈ tr ∨
        ∃ token, (⟨.inl (.set (p.key call.scope) token p.ttlMs), .ok .nil⟩ :
          AdmissionEvent Index) ∈ tr
  | .noRecorder =>
      (⟨.inr .tryLookup, .error .coolingDown⟩ : AdmissionEvent Index) ∈ tr ∨
        (⟨.inl (.get p.recorderUrlKey), .ok .nil⟩ : AdmissionEvent Index) ∈ tr
  | .notParticipant => (⟨.inr .isParticipating, false⟩ : AdmissionEvent Index) ∈ tr
  | .notEligible => ∃ scope path policy, call = .tryAcquireRequest scope path ∧
      (⟨.inr .snapshot, policy⟩ : AdmissionEvent Index) ∈ tr ∧
      policy.bind (·.api lib path) = none
  | .quotaExhausted => ∃ api limit value count, Capped lib call tr api limit ∧
      (⟨.inl (.hget p.countsKey api), .ok value⟩ : AdmissionEvent Index) ∈ tr ∧
      countOf value = .ok count ∧ limit ≤ count

end

section

variable {Index : Type} {lib : Libraries Index} {p : RedisAdmissionProvider} {call : Call}
  {quota : Option (String × ℕ)} {tr : List (AdmissionEvent Index)}

/-- The contract of a program whose answers are only written down. -/
abbrev noted (Index : Type) : Contract (redisSig (admissionSig Index)) (List (AdmissionEvent Index)) :=
  Prog.Told fun _ _ => True

theorem noted_command {α : Type} {c : Command} {f : Value → AdmissionTask Index α}
    {Q : List (AdmissionEvent Index) → Except AdmissionError α → Prop}
    (hok : ∀ v, (f v).run.Meets (noted Index) (tr ++ [⟨.inl c, .ok v⟩]) Q)
    (herr : ∀ tr e, Q tr (.error e)) : (Task.command c >>= f).run.Meets (noted Index) tr Q := by
  rw [meets_bind_ok]
  refine meets_command trivial ?_ ?_
  · rintro v _ rfl
    exact hok v
  · rintro m _ rfl
    exact herr _ _

theorem noted_local {α : Type} {o : AdmissionOp} {f : (admissionSig Index).Ans o → AdmissionTask Index α}
    {Q : List (AdmissionEvent Index) → Except AdmissionError α → Prop}
    (h : ∀ x, (f x).run.Meets (noted Index) (tr ++ [⟨.inr o, x⟩]) Q) :
    (Task.perform (L := admissionSig Index) o >>= f).run.Meets (noted Index) tr Q := by
  rw [meets_bind_ok]
  refine meets_perform trivial ?_
  rintro x _ rfl
  exact h x

theorem noted_result {α β : Type} {x : Except AdmissionError α} {f : α → AdmissionTask Index β}
    {Q : List (AdmissionEvent Index) → Except AdmissionError β → Prop}
    (hok : ∀ a, x = .ok a → (f a).run.Meets (noted Index) tr Q) (herr : ∀ e, Q tr (.error e)) :
    (Task.ofResult x >>= f).run.Meets (noted Index) tr Q := by
  rw [meets_bind_ok, meets_ofResult]
  cases hx : x with
  | error e => exact herr e
  | ok a => exact hok a hx

/-- The reason for a refusal; what an admission tells is known from its trace. -/
def Refused (lib : Libraries Index) (p : RedisAdmissionProvider) (call : Call)
    (tr : List (AdmissionEvent Index)) : Except AdmissionError AcquireOutcome → Prop
  | .ok (.acquired _) => True
  | .ok outcome => Reason lib p call tr outcome
  | .error _ => True

theorem Capped.append {api : String} {limit : ℕ} (h : Capped lib call tr api limit)
    (rest : List (AdmissionEvent Index)) : Capped lib call (tr ++ rest) api limit := by
  obtain ⟨scope, path, policy, hcall, hmem, hapi, hlimit⟩ := h
  exact ⟨scope, path, policy, hcall, List.mem_append_left _ hmem, hapi, hlimit⟩

theorem Refused.append {r : Except AdmissionError AcquireOutcome} (h : Refused lib p call tr r)
    (rest : List (AdmissionEvent Index)) : Refused lib p call (tr ++ rest) r := by
  cases r with
  | error e => trivial
  | ok outcome =>
      cases outcome with
      | acquired ticket => trivial
      | busy => exact h.imp (List.mem_append_left _) fun ⟨token, hmem⟩ =>
          ⟨token, List.mem_append_left _ hmem⟩
      | noRecorder => exact h.imp (List.mem_append_left _) (List.mem_append_left _)
      | notParticipant => exact List.mem_append_left _ h
      | notEligible =>
          obtain ⟨scope, path, policy, hcall, hmem, hapi⟩ := h
          exact ⟨scope, path, policy, hcall, List.mem_append_left _ hmem, hapi⟩
      | quotaExhausted =>
          obtain ⟨api, limit, value, count, hcapped, hmem, hcount⟩ := h
          exact ⟨api, limit, value, count, hcapped.append rest, List.mem_append_left _ hmem, hcount⟩

theorem mem_last (e : AdmissionEvent Index) : e ∈ tr ++ [e] :=
  List.mem_append_right _ (List.mem_singleton.mpr rfl)

theorem nil_of_recorderOrigin {v : Value} (h : recorderOrigin lib v = .ok none) : v = .nil := by
  cases v with
  | nil => rfl
  | bulkString bytes =>
      change some <$> registrationOrigin lib bytes = .ok none at h
      cases horigin : registrationOrigin lib bytes with
      | error e =>
          rw [horigin] at h
          cases h
      | ok origin =>
          rw [horigin] at h
          cases h
  | _ => cases h

theorem bulk_of_recorderOrigin {v : Value} {origin : Uri}
    (h : recorderOrigin lib v = .ok (some origin)) :
    ∃ bytes, v = .bulkString bytes ∧ registrationOrigin lib bytes = .ok origin := by
  cases v with
  | bulkString bytes =>
      change some <$> registrationOrigin lib bytes = .ok (some origin) at h
      refine ⟨bytes, rfl, ?_⟩
      cases horigin : registrationOrigin lib bytes with
      | error e =>
          rw [horigin] at h
          cases h
      | ok origin' =>
          rw [horigin] at h
          cases h
          rfl
  | _ => cases h

/-- `Refused`, for the guarded part. -/
abbrev BodyRefused (lib : Libraries Index) (p : RedisAdmissionProvider) (call : Call)
    (tr : List (AdmissionEvent Index)) (r : Except AdmissionError (AcquireOutcome × Bool)) : Prop :=
  Refused lib p call tr (r.map Prod.fst)

theorem refused_claimSlot {origin : Uri} :
    (claimSlot p call.scope quota origin : AdmissionTask Index (AcquireOutcome × Bool)).run.Meets
      (noted Index) tr (BodyRefused lib p call) := by
  unfold claimSlot
  refine noted_local ?_
  intro random
  refine noted_result ?_ fun e => trivial
  intro ticket hticket
  rw [meets_bind_ok]
  refine meets_reserve trivial ?_ ?_ ?_
  · rintro v _ hv rfl
    simp only [if_true]
    have hlast : ∀ tr, (do
        if ← isParticipating then pure (.acquired ticket, true)
        else throw .participationLost : AdmissionTask Index (AcquireOutcome × Bool)).run.Meets
          (noted Index) tr (BodyRefused lib p call) := by
      intro tr
      refine noted_local ?_
      intro participating
      cases participating <;> trivial
    unfold countAdmission
    cases quota with
    | none => exact hlast _
    | some q =>
        rw [meets_bind_ok]
        refine noted_command ?_ fun tr e => trivial
        intro v
        cases v with
        | int n =>
            dsimp only
            split
            · exact hlast _
            · trivial
        | _ => trivial
  · rintro _ rfl
    exact Or.inr ⟨_, mem_last _⟩
  · rintro r _ e rfl
    trivial

theorem refused_lookup (hquota : ∀ api limit, quota = some (api, limit) → Capped lib call tr api limit) :
    (lookup lib p call.scope quota).run.Meets (noted Index) tr (BodyRefused lib p call) := by
  unfold lookup
  refine noted_command ?_ fun tr e => trivial
  intro v
  refine noted_result ?_ fun e => trivial
  intro found hfound
  cases found with
  | none =>
      obtain rfl := nil_of_recorderOrigin hfound
      exact Or.inr (mem_last _)
  | some origin =>
      dsimp only
      unfold exhausted
      cases quota with
      | none =>
          rw [meets_bind_ok]
          exact refused_claimSlot
      | some q =>
          obtain ⟨api, limit⟩ := q
          rw [meets_bind_ok]
          refine noted_command ?_ fun tr e => trivial
          intro value
          refine noted_result ?_ fun e => trivial
          intro count hcount
          by_cases hlimit : limit ≤ count
          · simp only [hlimit, decide_true]
            exact ⟨api, limit, value, count, ((hquota api limit rfl).append _).append _, mem_last _,
              hcount, hlimit⟩
          · simp only [hlimit, decide_false]
            exact refused_claimSlot

variable (call) in
theorem refused_acquire
    (hquota : ∀ api limit, quota = some (api, limit) → Capped lib call tr api limit) :
    (acquire lib p call.scope quota).run.Meets (noted Index) tr (Refused lib p call) := by
  unfold acquire
  refine noted_local ?_
  intro participating
  cases participating with
  | false => exact mem_last _
  | true =>
      simp only [if_true]
      split
      · trivial
      · refine noted_local ?_
        intro found
        cases found with
        | error reason =>
            cases reason with
            | coolingDown => exact Or.inl (mem_last _)
            | inProgress => exact Or.inl (mem_last _)
        | ok u =>
            unfold guarded
            rw [ExceptT.run_mk, Prog.meets_bind]
            have hbody : (lookup lib p call.scope quota).run.Meets (noted Index)
                (tr ++ [⟨.inr .isParticipating, true⟩] ++ [⟨.inr .tryLookup, .ok u⟩])
                (BodyRefused lib p call) :=
              refused_lookup fun api limit h => ((hquota api limit h).append _).append _
            refine hbody.mono ?_
            intro tr' r hr
            cases r with
            | error e =>
                dsimp only
                rw [Prog.meets_bind]
                exact meets_perform trivial fun _ _ _ => trivial
            | ok found =>
                obtain ⟨outcome, available⟩ := found
                dsimp only
                rw [Prog.meets_bind]
                refine meets_perform trivial ?_
                rintro x _ rfl
                exact Refused.append hr _

theorem refused_tryAcquireRequest {scope path : String} :
    (tryAcquireRequest lib p scope path).run.Meets (noted Index) []
      (Refused lib p (.tryAcquireRequest scope path)) := by
  unfold tryAcquireRequest
  refine noted_local ?_
  intro participating
  cases participating with
  | false => exact mem_last _
  | true =>
      refine noted_local ?_
      intro found
      cases found with
      | none => exact ⟨scope, path, none, rfl, mem_last _, rfl⟩
      | some policy =>
          dsimp only
          cases hapi : policy.api lib path with
          | none => exact ⟨scope, path, some policy, rfl, mem_last _, hapi⟩
          | some api =>
              apply refused_acquire (.tryAcquireRequest scope path)
              intro api' limit hquota
              cases hlimit : policy.caseLimit with
              | none =>
                  rw [hlimit] at hquota
                  cases hquota
              | some limit' =>
                  rw [hlimit] at hquota
                  cases hquota
                  exact ⟨scope, path, policy, rfl, mem_last _, hapi, hlimit⟩

theorem reason_of_runs (hcall : call.isAcquire = true) {outcome : AcquireOutcome}
    (h : (call.run lib p).Runs tr (.outcome (.ok outcome))) : Reason lib p call tr outcome := by
  have hrefused : Refused lib p call tr (.ok outcome) := by
    have hmeets : (call.run lib p).Meets (noted Index) [] fun tr r =>
        ∀ r', r = .outcome r' → Refused lib p call tr r' := by
      cases call with
      | tryAcquire scope =>
          refine Prog.meets_map.mpr ((refused_acquire (.tryAcquire scope) ?_).mono ?_)
          · intro api limit hquota
            cases hquota
          · rintro tr r hr r' ⟨⟩
            exact hr
      | tryAcquireRequest scope path =>
          refine Prog.meets_map.mpr (refused_tryAcquireRequest.mono ?_)
          rintro tr r hr r' ⟨⟩
          exact hr
      | _ => cases hcall
    exact hmeets.told h _ rfl
  cases outcome with
  | acquired ticket => exact ((command_trace lib p hcall).2.2 tr ticket).mp h
  | _ => exact hrefused

/-! ## What an admission has seen -/

variable (lib p) in
def OriginSeen (tr : List (AdmissionEvent Index)) (origin : Uri) : Prop :=
  ∃ v, (⟨.inl (.get p.recorderUrlKey), .ok v⟩ : AdmissionEvent Index) ∈ tr ∧
    recorderOrigin lib v = .ok (some origin)

variable (lib p call) in
def TicketSeen (tr : List (AdmissionEvent Index)) (ticket : AdmissionTicket) : Prop :=
  ∃ origin, OriginSeen lib p tr origin ∧ ticket.origin = some origin ∧ ticket.scope = call.scope

variable (lib p call) in
def ReservedSeen (tr : List (AdmissionEvent Index)) (ticket : AdmissionTicket) : Prop :=
  TicketSeen lib p call tr ticket ∧ ∃ v,
    (⟨.inl (.set (p.key call.scope) (utf8 ticket.token) p.ttlMs), .ok v⟩ : AdmissionEvent Index) ∈ tr ∧
      Accepted v

variable (lib p call) in
/-- What must have been answered before a stage. -/
def Stage.Shown (tr : List (AdmissionEvent Index)) : Stage → Prop
  | .opened => True
  | .found origin => OriginSeen lib p tr origin
  | .within origin => OriginSeen lib p tr origin
  | .drawn ticket => TicketSeen lib p call tr ticket
  | .reserved ticket => ReservedSeen lib p call tr ticket
  | .counted ticket => ReservedSeen lib p call tr ticket

theorem OriginSeen.append {origin : Uri} (h : OriginSeen lib p tr origin)
    (rest : List (AdmissionEvent Index)) : OriginSeen lib p (tr ++ rest) origin :=
  h.imp fun _ ⟨hmem, hv⟩ => ⟨List.mem_append_left _ hmem, hv⟩

theorem TicketSeen.append {ticket : AdmissionTicket} (h : TicketSeen lib p call tr ticket)
    (rest : List (AdmissionEvent Index)) : TicketSeen lib p call (tr ++ rest) ticket :=
  h.imp fun _ ⟨hseen, h⟩ => ⟨hseen.append rest, h⟩

theorem ReservedSeen.append {ticket : AdmissionTicket} (h : ReservedSeen lib p call tr ticket)
    (rest : List (AdmissionEvent Index)) : ReservedSeen lib p call (tr ++ rest) ticket :=
  ⟨h.1.append rest, h.2.imp fun _ ⟨hmem, hv⟩ => ⟨List.mem_append_left _ hmem, hv⟩⟩

theorem Reached.shown {stage : Stage} (h : Reached lib p call quota tr stage) :
    stage.Shown lib p call tr := by
  induction h with
  | opened h hkey => trivial
  | found h hv ih => exact ⟨_, mem_last _, hv⟩
  | uncapped h ih => exact ih
  | within h hv hcount ih => exact OriginSeen.append ih _
  | drawn h hticket ih =>
      obtain ⟨ticket, hnew, horigin⟩ := except_bind_ok hticket
      refine ⟨_, OriginSeen.append ih _, ?_, ?_⟩
      · unfold AdmissionTicket.withOrigin at horigin
        split at horigin
        · obtain rfl := Except.ok.inj horigin
          rfl
        · cases horigin
      · rw [(AdmissionTicket.of_withOrigin horigin).1, (AdmissionTicket.of_new hnew).1]
  | reserved h hv ih => exact ⟨TicketSeen.append ih _, _, mem_last _, hv⟩
  | uncounted h ih => exact ih
  | counted h hn ih => exact ReservedSeen.append ih _

/-! ## The commands for a ticket -/

inductive TicketCommand (p : RedisAdmissionProvider) (ticket : AdmissionTicket) :
    Call → Command → Prop where
  | complete : TicketCommand p ticket (.complete ticket)
      (.complete (p.key ticket.scope) (utf8 ticket.token))
  | renew : TicketCommand p ticket (.renew ticket)
      (.renew (p.key ticket.scope) (utf8 ticket.token) p.ttlMs)
  | owns : TicketCommand p ticket (.owns ticket) (.get (p.key ticket.scope))

/-- The answer that a reply stands for. -/
def Signals (ticket : AdmissionTicket) (answer : Bool) : Command → Value → Prop
  | .get _, v => (v = .nil ∨ ∃ bytes, v = .bulkString bytes) ∧
      (answer = true ↔ v = .bulkString (utf8 ticket.token))
  | _, v => v = .int (if answer then 1 else 0)

theorem signals_transition {c : Command} {unexpected : String} {ticket : AdmissionTicket}
    (hget : ∀ key, c ≠ .get key) :
    (transition c unexpected : AdmissionTask Index Bool).run.Meets (noted Index) tr fun tr r =>
      ∀ answer, r = .ok answer →
        ∃ v, (⟨.inl c, .ok v⟩ : AdmissionEvent Index) ∈ tr ∧ Signals ticket answer c v := by
  have hsignals : ∀ answer, Signals ticket answer c (.int (if answer then 1 else 0)) := by
    intro answer
    cases c with
    | get key => exact absurd rfl (hget key)
    | _ => rfl
  refine meets_transition trivial ?_ ?_ ?_
  · rintro _ rfl answer ⟨⟩
    exact ⟨_, mem_last _, hsignals true⟩
  · rintro _ rfl answer ⟨⟩
    exact ⟨_, mem_last _, hsignals false⟩
  · rintro r _ e _ answer ⟨⟩

theorem signals_owns {ticket : AdmissionTicket} :
    (p.owns ticket : AdmissionTask Index Bool).run.Meets (noted Index) tr fun tr r =>
      ∀ answer, r = .ok answer →
        ∃ v, (⟨.inl (.get (p.key ticket.scope)), .ok v⟩ : AdmissionEvent Index) ∈ tr ∧
          Signals ticket answer (.get (p.key ticket.scope)) v := by
  unfold owns
  refine noted_command ?_ ?_
  · intro v
    cases v with
    | nil =>
        rintro answer ⟨⟩
        exact ⟨_, mem_last _, Or.inl rfl, by simp⟩
    | bulkString value =>
        rintro answer ⟨⟩
        exact ⟨_, mem_last _, Or.inr ⟨value, rfl⟩, by simp⟩
    | _ => rintro answer ⟨⟩
  · rintro tr e answer ⟨⟩

/-- The kind of a result, and for an answer about a ticket the reply that it stands for. -/
def ResultTold (p : RedisAdmissionProvider) (call : Call) (tr : List (AdmissionEvent Index)) :
    CallResult → Prop
  | .outcome _ => call.isAcquire = true
  | .done (.ok answer) => ∃ ticket c v, TicketCommand p ticket call c ∧
      (⟨.inl c, .ok v⟩ : AdmissionEvent Index) ∈ tr ∧ Signals ticket answer c v
  | .done (.error _) => True

theorem answered_of_runs {result : CallResult} (h : (call.run lib p).Runs tr result) :
    ResultTold p call tr result := by
  have hdone : ∀ {ticket : AdmissionTicket} {c : Command} {x : AdmissionTask Index Bool},
      TicketCommand p ticket call c →
      x.run.Meets (noted Index) [] (fun tr r => ∀ answer, r = .ok answer →
        ∃ v, (⟨.inl c, .ok v⟩ : AdmissionEvent Index) ∈ tr ∧ Signals ticket answer c v) →
      (CallResult.done <$> x.run).Meets (noted Index) [] (ResultTold p call) := by
    intro ticket c x hc hx
    refine Prog.meets_map.mpr (hx.mono ?_)
    intro tr r hr
    cases r with
    | error e => trivial
    | ok answer =>
        obtain ⟨v, hmem, hsignals⟩ := hr answer rfl
        exact ⟨ticket, c, v, hc, hmem, hsignals⟩
  have houtcome : ∀ {x : AdmissionTask Index AcquireOutcome}, call.isAcquire = true →
      (CallResult.outcome <$> x.run).Meets (noted Index) [] (ResultTold p call) := by
    intro x hcall
    refine Prog.meets_map.mpr (Prog.meets_told_trivial.mono ?_)
    intro tr r _
    exact hcall
  have hmeets : (call.run lib p).Meets (noted Index) [] (ResultTold p call) := by
    cases call with
    | tryAcquire scope => exact houtcome rfl
    | tryAcquireRequest scope path => exact houtcome rfl
    | complete ticket => exact hdone .complete (signals_transition (by simp))
    | renew ticket => exact hdone .renew (signals_transition (by simp))
    | owns ticket => exact hdone .owns signals_owns
  exact hmeets.told h

theorem eq_of_conveys {c : Command} {r : Reply} {v : Value} (h : Conveys c r (.ok v))
    (hv : v ≠ .simpleString "OK") : r = .ok v := by
  rcases h with h | ⟨-, h⟩
  · exact h.symm
  · exact absurd (Except.ok.inj h) hv

theorem setReply_ok_nil {put : Bool} (h : Db.setReply put = .ok .nil) : put = false := by
  cases put with
  | false => rfl
  | true => cases h

theorem transitionReply_eq {done answer : Bool}
    (h : Db.transitionReply done = .ok (.int (if answer then 1 else 0))) : answer = done := by
  cases done <;> cases answer <;> first | rfl | cases h

/-- The reply to a command for a ticket says whether its token has the slot. -/
theorem holds_of_signals {ticket : AdmissionTicket} {answer : Bool} {c : Command} {now : ℕ} {db : Db}
    {v : Value} (hc : TicketCommand p ticket call c) (hsignals : Signals ticket answer c v)
    (hconveys : Conveys c (db.exec now c).2 (.ok v)) :
    answer = true ↔ db.strings.read now (p.key ticket.scope) = some (utf8 ticket.token) := by
  cases hc with
  | complete =>
      obtain rfl : v = .int (if answer then 1 else 0) := hsignals
      rw [transitionReply_eq (eq_of_conveys hconveys (by simp))]
      cases hdone : (db.strings.removeIf now (p.key ticket.scope) (utf8 ticket.token)).2 with
      | true => simp [(Store.removeIf_true hdone).1]
      | false => simp [(Store.removeIf_false hdone).1]
  | renew =>
      obtain rfl : v = .int (if answer then 1 else 0) := hsignals
      rw [transitionReply_eq (eq_of_conveys hconveys (by simp))]
      cases hdone : (db.strings.extendIf now (p.key ticket.scope) (utf8 ticket.token)
          (now + millis p.ttlMs)).2 with
      | true => simp [(Store.extendIf_true hdone).1]
      | false => simp [(Store.extendIf_false hdone).1]
  | owns =>
      obtain ⟨hshape, hanswer⟩ := hsignals
      have hreply : Db.readReply (db.strings.read now (p.key ticket.scope)) = .ok v := by
        refine eq_of_conveys hconveys ?_
        rcases hshape with rfl | ⟨bytes, rfl⟩ <;> simp
      rw [hanswer]
      cases hread : db.strings.read now (p.key ticket.scope) with
      | none =>
          rw [hread] at hreply
          cases hreply
          simp
      | some value =>
          rw [hread] at hreply
          cases hreply
          simp

theorem not_malformed_of_signals {ticket : AdmissionTicket} {answer : Bool} {c : Command} {v : Value}
    (hc : TicketCommand p ticket call c) (hsignals : Signals ticket answer c v) :
    ¬ Malformed c (.ok v) := by
  cases hc with
  | owns =>
      rintro ⟨hnil, hbulk⟩
      rcases hsignals.1 with rfl | ⟨bytes, rfl⟩
      · exact hnil rfl
      · exact hbulk bytes rfl
  | _ =>
      rintro ⟨hzero, hone⟩
      obtain rfl : v = .int (if answer then 1 else 0) := hsignals
      cases answer with
      | true => exact hone rfl
      | false => exact hzero rfl

end

/-! ## Moments of a call -/

section

variable {Index T F Lane : Type} [DecidableEq T] [DecidableEq F] [DecidableEq Lane]
  (D : Deployment Index T F Lane) (w₀ : AdmissionWorld Index T F Lane) (t : T)
  (a b : AdmissionHistory Index T)

/-- Redis executed the command for the call `t` in state `v`, after `a` and within `b`. -/
def ExecutedAt (c : Command) (v : AdmissionWorld Index T F Lane) : Prop :=
  ∃ b₁ b₂, b = b₁ ++ (v.now, .exec t c (v.db.exec v.now c).2) :: b₂ ∧ D.network.Run w₀ (a ++ b₁) v

/-- The call `t` was given this answer by its family in state `v`, after `a` and within `b`. -/
def ActedAt (o : AdmissionOp) (x : (admissionSig Index).Ans o) (v : AdmissionWorld Index T F Lane) :
    Prop :=
  ∃ b₁ b₂ mem, b = b₁ ++ (v.now, .act t o x) :: b₂ ∧ D.network.Run w₀ (a ++ b₁) v ∧
    D.act v.now t v.mem o x mem

/-- The state of Redis or of the family that makes an outcome the right answer. -/
def Warranted : AcquireOutcome → Prop
  | .acquired ticket => ticket.scope = (D.call t).scope ∧
      (∃ u bytes origin,
        ExecutedAt D w₀ t a b (.get (D.provider (D.family t)).recorderUrlKey) u ∧
        u.db.strings.read u.now (D.provider (D.family t)).recorderUrlKey = some bytes ∧
        registrationOrigin D.lib bytes = .ok origin ∧ ticket.origin = some origin) ∧
      ∃ v, ExecutedAt D w₀ t a b (.set ((D.provider (D.family t)).key (D.call t).scope)
          (utf8 ticket.token) (D.provider (D.family t)).ttlMs) v ∧
        v.db.strings.read v.now ((D.provider (D.family t)).key (D.call t).scope) = none
  | .busy =>
      (∃ v, ActedAt D w₀ t a b .tryLookup (.error .inProgress) v ∧
        ∃ u, D.family u = D.family t ∧ v.mem.guard u = true) ∨
      ∃ token v, ExecutedAt D w₀ t a b (.set ((D.provider (D.family t)).key (D.call t).scope) token
          (D.provider (D.family t)).ttlMs) v ∧
        v.db.strings.read v.now ((D.provider (D.family t)).key (D.call t).scope) ≠ none
  | .noRecorder =>
      (∃ v deadline, ActedAt D w₀ t a b .tryLookup (.error .coolingDown) v ∧
        (v.mem.discovery (D.family t)).retryAfter = some deadline ∧ v.now < deadline) ∨
      ∃ v, ExecutedAt D w₀ t a b (.get (D.provider (D.family t)).recorderUrlKey) v ∧
        v.db.strings.read v.now (D.provider (D.family t)).recorderUrlKey = none
  | .notParticipant => ∃ v, ActedAt D w₀ t a b .isParticipating false v
  | .notEligible => ∃ scope path policy v, D.call t = .tryAcquireRequest scope path ∧
      ActedAt D w₀ t a b .snapshot policy v ∧ policy.bind (·.api D.lib path) = none
  | .quotaExhausted => ∃ scope path policy api limit u v count,
      D.call t = .tryAcquireRequest scope path ∧ ActedAt D w₀ t a b .snapshot (some policy) u ∧
      policy.api D.lib path = some api ∧ policy.caseLimit = some limit ∧
      ExecutedAt D w₀ t a b (.hget (D.provider (D.family t)).countsKey api) v ∧
      Story.countIn (Db.fieldReply (v.db.hashes (D.provider (D.family t)).countsKey api)) = some count ∧
      limit ≤ count

/-- An answer other than an error was right at one moment of the call. -/
def Justified : CallResult → Prop
  | .outcome (.ok outcome) => (D.call t).isAcquire = true ∧ Warranted D w₀ t a b outcome
  | .done (.ok answer) => ∃ ticket c v, TicketCommand (D.provider (D.family t)) ticket (D.call t) c ∧
      ExecutedAt D w₀ t a b c v ∧
      (answer = true ↔ v.db.strings.read v.now ((D.provider (D.family t)).key ticket.scope) =
        some (utf8 ticket.token))
  | .outcome (.error _) => True
  | .done (.error _) => True

end

section

variable {Index T F Lane : Type} [DecidableEq T] [DecidableEq F] [DecidableEq Lane]
  {D : Deployment Index T F Lane} {w₀ w : AdmissionWorld Index T F Lane} {t : T} {σ : ℕ}
  {a b d : AdmissionHistory Index T}

theorem executedAt_of_mem (hgarbled : ∀ c r, D.garbled c r → Malformed c r) (hquiet : Quiet w₀)
    (hrun : D.network.Run w₀ (a ++ (σ, .launch t) :: b ++ d) w) {c : Command} {r : Reply}
    (hr : ¬ Malformed c r) (he : (⟨.inl c, r⟩ : AdmissionEvent Index) ∈ transcript t b) :
    ∃ v, ExecutedAt D w₀ t (a ++ [(σ, .launch t)]) b c v ∧ Conveys c (v.db.exec v.now c).2 r := by
  rcases hrun.served hquiet.threads he with h | ⟨b₁, v, v', b₂, hb, hv, -, hconveys⟩
  · exact absurd (hgarbled c r h) hr
  · exact ⟨v, ⟨b₁, b₂, hb, hv⟩, hconveys⟩

theorem actedAt_of_mem (hrun : D.network.Run w₀ (a ++ (σ, .launch t) :: b ++ d) w) {o : AdmissionOp}
    {x : (admissionSig Index).Ans o} (he : (⟨.inr o, x⟩ : AdmissionEvent Index) ∈ transcript t b) :
    ∃ v, ActedAt D w₀ t (a ++ [(σ, .launch t)]) b o x v := by
  have hrun' : D.network.Run w₀ ((a ++ [(σ, .launch t)]) ++ b ++ d) w := by simpa using hrun
  obtain ⟨b₁, v, v', b₂, hb, hv, hstep⟩ := hrun'.acted he
  cases hstep with
  | act hth hact => exact ⟨v, b₁, b₂, _, hb, hv, hact⟩

omit [DecidableEq Lane] in
theorem Deployment.act_refused {v : AdmissionWorld Index T F Lane} {mem : AdmissionMemory T F}
    {e : LookupUnavailable} (h : D.act v.now t v.mem .tryLookup (.error e) mem) :
    (v.mem.discovery (D.family t)).tryLookup v.now = .error e := by
  cases htry : (v.mem.discovery (D.family t)).tryLookup v.now with
  | ok d =>
      simp only [Deployment.act, htry] at h
      cases h.1
  | error e' =>
      simp only [Deployment.act, htry] at h
      rw [Except.error.inj h.1]

omit [DecidableEq T] [DecidableEq F] [DecidableEq Lane] in
theorem Discovery.tryLookup_eq_coolingDown {d : Discovery} {now : ℕ}
    (h : d.tryLookup now = .error .coolingDown) :
    ∃ deadline, d.retryAfter = some deadline ∧ now < deadline := by
  unfold Discovery.tryLookup at h
  split at h
  · rename_i hcool
    cases hdeadline : d.retryAfter with
    | none =>
        rw [hdeadline] at hcool
        cases hcool
    | some deadline =>
        rw [hdeadline] at hcool
        exact ⟨deadline, rfl, by simpa using hcool⟩
  · split at h
    · cases h
    · cases h

omit [DecidableEq T] [DecidableEq F] [DecidableEq Lane] in
theorem Discovery.tryLookup_eq_inProgress {d : Discovery} {now : ℕ}
    (h : d.tryLookup now = .error .inProgress) : d.checking = true := by
  unfold Discovery.tryLookup at h
  split at h
  · cases h
  · split at h
    · assumption
    · cases h

omit [DecidableEq T] [DecidableEq F] [DecidableEq Lane] in
theorem shape_of_countOf {value : Value} {count : ℕ} (h : countOf value = .ok count) :
    value = .nil ∨ ∃ bytes, value = .bulkString bytes := by
  cases value with
  | nil => exact Or.inl rfl
  | bulkString bytes => exact Or.inr ⟨bytes, rfl⟩
  | _ => cases h

theorem warranted_of_acquired (hgarbled : ∀ c r, D.garbled c r → Malformed c r) (hquiet : Quiet w₀)
    (hrun : D.network.Run w₀ (a ++ (σ, .launch t) :: b ++ d) w) {ticket : AdmissionTicket}
    (h : ReservedSeen D.lib (D.provider (D.family t)) (D.call t) (transcript t b) ticket) :
    Warranted D w₀ t (a ++ [(σ, .launch t)]) b (.acquired ticket) := by
  obtain ⟨⟨origin, ⟨v, hget, hv⟩, horigin, hscope⟩, v', hset, haccepted⟩ := h
  obtain ⟨bytes, rfl, hbytes⟩ := bulk_of_recorderOrigin hv
  refine ⟨hscope, ?_, ?_⟩
  · have hshape : ¬ Malformed (.get (D.provider (D.family t)).recorderUrlKey)
        (.ok (.bulkString bytes)) := by
      rintro ⟨-, hbulk⟩
      exact hbulk bytes rfl
    obtain ⟨u, hu, hconveys⟩ := executedAt_of_mem hgarbled hquiet hrun hshape hget
    refine ⟨u, bytes, origin, hu, ?_, hbytes, horigin⟩
    have hreply : Db.readReply (u.db.strings.read u.now (D.provider (D.family t)).recorderUrlKey) =
        .ok (.bulkString bytes) := eq_of_conveys hconveys (by simp)
    cases hread : u.db.strings.read u.now (D.provider (D.family t)).recorderUrlKey with
    | none =>
        rw [hread] at hreply
        cases hreply
    | some value =>
        rw [hread] at hreply
        cases hreply
        rfl
  · have hshape : ¬ Malformed (.set ((D.provider (D.family t)).key (D.call t).scope)
        (utf8 ticket.token) (D.provider (D.family t)).ttlMs) (.ok v') := by
      rintro ⟨hokay, hsimple, -⟩
      rcases haccepted with rfl | rfl
      · exact hokay rfl
      · exact hsimple rfl
    obtain ⟨u, hu, hconveys⟩ := executedAt_of_mem hgarbled hquiet hrun hshape hset
    refine ⟨u, hu, ?_⟩
    cases hput : (u.db.strings.putIfAbsent u.now ((D.provider (D.family t)).key (D.call t).scope)
        (utf8 ticket.token) (u.now + millis (D.provider (D.family t)).ttlMs)).2 with
    | true => exact (Store.putIfAbsent_true hput).1
    | false =>
        have hreply : Db.setReply _ = .ok v' ∨ _ := (hconveys.imp_left Eq.symm)
        rw [hput] at hreply
        rcases hreply with h | ⟨h, -⟩
        · rcases haccepted with rfl | rfl <;> cases h
        · change Db.setReply _ = _ at h
          rw [hput] at h
          cases h

theorem warranted_of_reason (hgarbled : ∀ c r, D.garbled c r → Malformed c r) (hquiet : Quiet w₀)
    (hrun : D.network.Run w₀ (a ++ (σ, .launch t) :: b ++ d) w) {outcome : AcquireOutcome}
    (h : Reason D.lib (D.provider (D.family t)) (D.call t) (transcript t b) outcome) :
    Warranted D w₀ t (a ++ [(σ, .launch t)]) b outcome := by
  have hacted : ∀ {o : AdmissionOp} {x : (admissionSig Index).Ans o},
      (⟨.inr o, x⟩ : AdmissionEvent Index) ∈ transcript t b →
      ∃ v, ActedAt D w₀ t (a ++ [(σ, .launch t)]) b o x v := fun he => actedAt_of_mem hrun he
  cases outcome with
  | acquired ticket =>
      obtain ⟨quota, pre, hreached, htr⟩ := h
      refine warranted_of_acquired hgarbled hquiet hrun ?_
      rw [htr]
      exact ReservedSeen.append hreached.shown _
  | busy =>
      rcases h with hlookup | ⟨token, hset⟩
      · left
        obtain ⟨v, b₁, b₂, mem, hb, hv, hact⟩ := hacted hlookup
        refine ⟨v, ⟨b₁, b₂, mem, hb, hv, hact⟩, ?_⟩
        have hchecking := Discovery.tryLookup_eq_inProgress (Deployment.act_refused hact)
        exact ((D.callFacts hquiet hv).exclusive.checking _).mp hchecking
      · right
        obtain ⟨v, hv, hconveys⟩ := executedAt_of_mem hgarbled hquiet hrun
          (by rintro ⟨-, -, hnil⟩; exact hnil rfl) hset
        refine ⟨token, v, hv, ?_⟩
        exact (Store.putIfAbsent_false (setReply_ok_nil (eq_of_conveys hconveys (by simp)))).1
  | noRecorder =>
      rcases h with hlookup | hget
      · left
        obtain ⟨v, b₁, b₂, mem, hb, hv, hact⟩ := hacted hlookup
        obtain ⟨deadline, hdeadline, hlt⟩ :=
          Discovery.tryLookup_eq_coolingDown (Deployment.act_refused hact)
        exact ⟨v, deadline, ⟨b₁, b₂, mem, hb, hv, hact⟩, hdeadline, hlt⟩
      · right
        obtain ⟨v, hv, hconveys⟩ := executedAt_of_mem hgarbled hquiet hrun
          (by rintro ⟨hnil, -⟩; exact hnil rfl) hget
        refine ⟨v, hv, ?_⟩
        have hreply : Db.readReply (v.db.strings.read v.now (D.provider (D.family t)).recorderUrlKey) =
            .ok .nil := eq_of_conveys hconveys (by simp)
        cases hread : v.db.strings.read v.now (D.provider (D.family t)).recorderUrlKey with
        | none => rfl
        | some value =>
            rw [hread] at hreply
            cases hreply
  | notParticipant => exact hacted h
  | notEligible =>
      obtain ⟨scope, path, policy, hcall, hmem, hapi⟩ := h
      obtain ⟨v, hv⟩ := hacted hmem
      exact ⟨scope, path, policy, v, hcall, hv, hapi⟩
  | quotaExhausted =>
      obtain ⟨api, limit, value, count, ⟨scope, path, policy, hcall, hmem, hapi, hlimit⟩, hget, hcount,
        hle⟩ := h
      obtain ⟨u, hu⟩ := hacted hmem
      have hshape := shape_of_countOf hcount
      have hplain : ¬ Malformed (.hget (D.provider (D.family t)).countsKey api) (.ok value) := by
        rintro ⟨hnil, hbulk⟩
        rcases hshape with rfl | ⟨bytes, rfl⟩
        · exact hnil rfl
        · exact hbulk bytes rfl
      obtain ⟨v, hv, hconveys⟩ := executedAt_of_mem hgarbled hquiet hrun hplain hget
      have hreply : Db.fieldReply (v.db.hashes (D.provider (D.family t)).countsKey api) =
          .ok value := by
        refine eq_of_conveys hconveys ?_
        rcases hshape with rfl | ⟨bytes, rfl⟩ <;> simp
      refine ⟨scope, path, policy, api, limit, u, v, count, hcall, hu, hapi, hlimit, hv, ?_, hle⟩
      rw [hreply]
      exact countIn_of_countOf hcount

theorem justified_of_runs (hgarbled : ∀ c r, D.garbled c r → Malformed c r) (hquiet : Quiet w₀)
    (hrun : D.network.Run w₀ (a ++ (σ, .launch t) :: b ++ d) w) {result : CallResult}
    (h : ((D.call t).run D.lib (D.provider (D.family t))).Runs (transcript t b) result) :
    Justified D w₀ t (a ++ [(σ, .launch t)]) b result := by
  have hticket : ∀ ticket c answer v, TicketCommand (D.provider (D.family t)) ticket (D.call t) c →
      (⟨.inl c, .ok v⟩ : AdmissionEvent Index) ∈ transcript t b → Signals ticket answer c v →
      Justified D w₀ t (a ++ [(σ, .launch t)]) b (.done (.ok answer)) := by
    intro ticket c answer v hc hmem hsignals
    obtain ⟨u, hu, hconveys⟩ := executedAt_of_mem hgarbled hquiet hrun
      (not_malformed_of_signals hc hsignals) hmem
    exact ⟨ticket, c, u, hc, hu, holds_of_signals hc hsignals hconveys⟩
  have hanswer := answered_of_runs h
  cases result with
  | outcome r =>
      cases r with
      | error e => trivial
      | ok outcome => exact ⟨hanswer, warranted_of_reason hgarbled hquiet hrun (reason_of_runs hanswer h)⟩
  | done r =>
      cases r with
      | error e => trivial
      | ok answer =>
          obtain ⟨ticket, c, v, hc, hmem, hsignals⟩ := hanswer
          exact hticket ticket c answer v hc hmem hsignals

/-- Whatever a call returns, errors apart, was the right answer at one moment between its launch
and its return. -/
theorem answers_true (D : Deployment Index T F Lane) (hgarbled : ∀ c r, D.garbled c r → Malformed c r)
    (hquiet : Quiet w₀) {pre post : AdmissionHistory Index T} {τ : ℕ} {result : CallResult}
    (hrun : D.network.Run w₀ (pre ++ (τ, .finish t result) :: post) w) :
    ∃ a σ b, pre = a ++ (σ, .launch t) :: b ∧ Ongoing t b ∧
      Justified D w₀ t (a ++ [(σ, .launch t)]) b result := by
  obtain ⟨a, σ, b, rfl, hongoing, v, mem, p, hv, hnow, hlaunch, hsteps⟩ :=
    hrun.finished hquiet.threads
  obtain ⟨-, rfl⟩ := hlaunch
  exact ⟨a, σ, b, rfl, hongoing, justified_of_runs hgarbled hquiet hrun hsteps⟩

end

/-- The solo admission found the recorder and a free slot. -/
theorem answers_true_solo :
    ∃ pre post w ticket, soloDeployment.network.Run (quietWorld (some (utf8 "http://r")))
        (pre ++ (0, .finish () (.outcome (.ok (.acquired ticket)))) :: post) w ∧
      ∃ a σ b, pre = a ++ (σ, .launch ()) :: b ∧
        Justified soloDeployment (quietWorld (some (utf8 "http://r"))) () (a ++ [(σ, .launch ())]) b
          (.outcome (.ok (.acquired ticket))) := by
  obtain ⟨ls, w, ticket, hrun, hmem, -⟩ := soloAdmission
  obtain ⟨pre, post, rfl⟩ := List.append_of_mem hmem
  obtain ⟨a, σ, b, hpre, -, hjustified⟩ :=
    answers_true soloDeployment (fun _ _ h => h) (quietWorld_quiet _) hrun
  exact ⟨pre, post, w, ticket, hrun, a, σ, b, hpre, hjustified⟩

end BreezeGateway
