import BreezeGateway.ReservedControls

/-!
# Who chooses the public CORS policy

The gateway reads a response decision from the service it trusts.  `AskFallback` is the point of a
run where the fallback is asked, by the gateway itself or for a replay; after it the decision of
the fallback counts in one case only.
-/

namespace BreezeGateway

open Effects

variable {P Index Cors : Type}

/-! ## Responses up to the decision -/

/-- What a client sees of a response. -/
structure SamePublic (response response' : Response) : Prop where
  status : response.status = response'.status
  version : response.version = response'.version
  headers : response.headers = response'.headers
  body : response.body = response'.body

theorem SamePublic.symm {r r' : Response} (h : SamePublic r r') : SamePublic r' r :=
  ⟨h.status.symm, h.version.symm, h.headers.symm, h.body.symm⟩

theorem SamePublic.trans {r r' r'' : Response} (h : SamePublic r r') (h' : SamePublic r' r'') :
    SamePublic r r'' :=
  ⟨h.status.trans h'.status, h.version.trans h'.version, h.headers.trans h'.headers,
    h.body.trans h'.body⟩

/-- Two responses of an origin that differ at most in their response decision. -/
structure SameButCors (response response' : Response) : Prop where
  status : response.status = response'.status
  version : response.version = response'.version
  extensions : response.extensions = response'.extensions
  body : response.body = response'.body
  headers : ∀ n, n ≠ responseCorsHeader →
    response.headers.getAll n = response'.headers.getAll n

/-- What `brz_http_cors` documents of response decisions. -/
structure CorsLibrary.Lawful (lib : CorsLibrary Cors) : Prop where
  removes : ∀ h, (lib.takeFromHeaders h).2 = h.remove responseCorsHeader
  skips : ∀ h, (lib.takeFromHeaders h).1 = .skip ↔
    h.getAll responseCorsHeader = [.fromStatic "skip"]
  alone : ∀ cors origin response, SamePublic (lib.applyResponse cors origin response) response ↔
    response.extensions.cors = some .skip

def undecided (response : Response) : Response :=
  { response with headers := response.headers.remove responseCorsHeader }

theorem SameButCors.undecided {r r' : Response} (h : SameButCors r r') :
    undecided r = undecided r' := by
  obtain ⟨status, version, headers, extensions, body⟩ := r
  obtain ⟨status', version', headers', extensions', body'⟩ := r'
  obtain ⟨rfl, rfl, rfl, rfl, hheaders⟩ := h
  have hremoved : headers.remove responseCorsHeader = headers'.remove responseCorsHeader := by
    ext1
    funext n
    simp only [HeaderMap.values_remove]
    split
    · rfl
    · rename_i hn
      exact hheaders n hn
  unfold BreezeGateway.undecided
  rw [hremoved]

/-- The header of the decision reaches the gateway, and is not the proxy's to remove. -/
def Exposed (response : Response) : Prop :=
  response.status = statusSwitchingProtocols ∨ ¬ HopByHop response.headers responseCorsHeader

namespace FallbackProxy

def received (downstream : Option OnUpgrade) (response : Response) : Response :=
  if response.status = statusSwitchingProtocols then
    if downstream.isSome then response.takeUpgrade.2 else response
  else filtered response

variable {tasks : Option UpgradeTasks} {downstream : Option OnUpgrade} {client : ClientResponse}

theorem respond_ok : ∃ (tr : List (Event (httpSig P))) (x : Attempt),
    (respond tasks downstream (.ok client)).Runs tr x := by
  simp only [respond]
  split
  · cases downstream with
    | none => exact ⟨_, _, .refl _⟩
    | some d => exact ⟨[⟨.relay _ _ _, ()⟩], _, .op (.refl _)⟩
  · exact ⟨_, _, .refl _⟩

theorem received_of_runs {tr : List (Event (httpSig P))} {x : Attempt}
    (h : (respond tasks downstream (.ok client)).Runs tr x) :
    orUnavailable x.1 = received downstream client.response := by
  simp only [respond] at h
  unfold received
  split at h
  · rename_i hstatus
    rw [if_pos hstatus]
    cases downstream with
    | none =>
        obtain ⟨-, rfl⟩ := Prog.runs_ret.mp h
        rfl
    | some d =>
        obtain ⟨_, rest, -, hrest⟩ := Prog.runs_op.mp h
        obtain ⟨-, rfl⟩ := Prog.runs_ret.mp hrest
        rfl
  · rename_i hstatus
    rw [if_neg hstatus]
    obtain ⟨-, rfl⟩ := Prog.runs_ret.mp h
    rfl

theorem attempt_request {uris : UriLibrary} {o : AttemptOp} {sent : Request GatewayBody}
    {k : Except ClientError ClientResponse → Prog (httpSig P) Attempt}
    (h : attempt uris o = .op (.request sent) k) : ∃ tasks downstream, k = respond tasks downstream := by
  have hhead : AttemptHead (P := P) uris o.proxy o.request o.peer o.downstream _ := attemptHead
  unfold attempt at h
  rw [h] at hhead
  cases hhead with
  | prepared horigin hprepare => exact ⟨_, _, rfl⟩

theorem getAll_received {response : Response} :
    (received downstream response).headers.getAll responseCorsHeader =
      if response.status = statusSwitchingProtocols ∨ ¬ HopByHop response.headers responseCorsHeader
      then response.headers.getAll responseCorsHeader else [] := by
  unfold received
  by_cases hstatus : response.status = statusSwitchingProtocols
  · rw [if_pos hstatus, if_pos (Or.inl hstatus)]
    split <;> rfl
  · rw [if_neg hstatus]
    refine (getAll_removeHopByHopHeaders _ _).trans ?_
    by_cases hhop : HopByHop response.headers responseCorsHeader
    · rw [if_pos hhop, if_neg (by simp [hstatus, hhop])]
    · rw [if_neg hhop, if_pos (Or.inr hhop)]

end FallbackProxy

open FallbackProxy

section

variable {r r' : Response}

theorem SameButCors.hopByHop (h : SameButCors r r') (n : HeaderName) :
    HopByHop r.headers n ↔ HopByHop r'.headers n := by
  unfold HopByHop
  rw [h.headers connection (by decide)]

theorem SameButCors.exposed (h : SameButCors r r') : Exposed r ↔ Exposed r' := by
  unfold Exposed
  rw [h.status, h.hopByHop]

theorem SameButCors.received (h : SameButCors r r') (downstream : Option OnUpgrade) :
    SameButCors (FallbackProxy.received downstream r) (FallbackProxy.received downstream r') := by
  unfold FallbackProxy.received
  rw [← h.status]
  split
  · split
    · exact ⟨h.status, h.version, congrArg (fun e => { e with upgrade := none }) h.extensions, h.body,
        h.headers⟩
    · exact h
  · refine ⟨h.status, h.version, h.extensions, h.body, ?_⟩
    intro n hn
    unfold filtered
    dsimp only
    rw [getAll_removeHopByHopHeaders, getAll_removeHopByHopHeaders]
    by_cases hhop : HopByHop r.headers n
    · rw [if_pos hhop, if_pos ((h.hopByHop n).mp hhop)]
    · rw [if_neg hhop, if_neg (fun h' => hhop ((h.hopByHop n).mpr h'))]
      exact h.headers n hn

end

/-! ## Asking the fallback -/

section

variable (lib : GatewayLibraries Index Cors) (g : Gateway P Index Cors) (service : OriginService)
  (request : Request Incoming) (peer : SocketAddr)

/-- After the events the fallback is asked: by the gateway, or by the service for a replay. -/
inductive AskFallback : Bool → List (Event (httpSig P)) → Request GatewayBody → Prop where
  | direct {calls : List (Performed (g.dispatch lib service))} {r : Request Incoming}
      {k : Response → Prog (gatewaySig P) Response} {sent : Request GatewayBody}
      {k' : Except ClientError ClientResponse → Prog (httpSig P) Attempt}
      (hcalls : Prog.Steps (g.handle lib request peer) (calls.map Performed.event)
        (.op (.forward r peer) k))
      (hsent : attempt lib.uris (g.fallback.forwardAttempt r peer) = .op (.request sent) k') :
      AskFallback false (calls.flatMap Performed.events) sent
  | replayed {calls : List (Performed (g.dispatch lib service))} {r : Request Incoming}
      {k : Response → Prog (gatewaySig P) Response} {first : Performed (attempt (P := P) lib.uris)}
      {second : AttemptOp} {k' : Attempt → Prog attemptSig Response} {sent : Request GatewayBody}
      {k'' : Except ClientError ClientResponse → Prog (httpSig P) Attempt}
      (hcalls : Prog.Steps (g.handle lib request peer) (calls.map Performed.event) (.op (.call r peer) k))
      (hfirst : Prog.Steps (service.call lib.cors r peer) [first.event] (.op second k'))
      (hsecond : second.proxy = g.fallback)
      (hsent : attempt lib.uris second = .op (.request sent) k'') :
      AskFallback true (calls.flatMap Performed.events ++ first.events) sent

/-- What the gateway delivers for a response of the fallback. -/
def finish (replayed : Bool) (response : Response) : Response :=
  g.deliver lib (g.originOf (Gateway.strip request))
    (if replayed then service.trust lib.cors response else response)

end

/-- What follows the call that answers a request. -/
def Ends (deliver : Response → Response) : (o : (gatewaySig P).Op) →
    ((gatewaySig P).Ans o → Prog (gatewaySig P) Response) → Prop
  | .call .., k => ∀ x : Response, k x = .ret (deliver x)
  | .forward .., k => ∀ x : Response, k x = .ret (deliver x)
  | _, _ => True

variable {lib : GatewayLibraries Index Cors} {g : Gateway P Index Cors} {service : OriginService}
  {request : Request Incoming} {peer : SocketAddr}

theorem handle_ends : (g.handle lib request peer).Throughout
    (Ends (g.deliver lib (g.originOf (Gateway.strip request)))) := by
  unfold Gateway.handle
  dsimp only
  cases g.preflight lib (Gateway.strip request) with
  | some response => trivial
  | none =>
      cases g.rule lib (Gateway.strip request) with
      | error p => exact ⟨trivial, fun x => Empty.elim x⟩
      | ok rule =>
          have hsend : ∀ d : Bool × Request Incoming,
              ((if d.1 then Prog.perform (S := gatewaySig P) (.call d.2 peer)
                else Prog.perform (S := gatewaySig P) (.forward d.2 peer) :
                  Prog (gatewaySig P) Response) >>= fun response =>
                    .ret (g.deliver lib (g.originOf (Gateway.strip request)) response)).Throughout
                (Ends (g.deliver lib (g.originOf (Gateway.strip request)))) := by
            intro d
            split
            · exact ⟨fun _ => rfl, fun _ => trivial⟩
            · exact ⟨fun _ => rfl, fun _ => trivial⟩
          cases rule with
          | none => exact hsend ((g.selected lib (Gateway.strip request)).isSome, _)
          | some rule =>
              cases hprovider : g.admission.get rule.provider with
              | none =>
                  simp only [Gateway.raise, expect, hprovider, Prog.ret_bind, Prog.op_bind]
                  exact ⟨trivial, fun x => Empty.elim x⟩
              | some provider =>
                  simp only [Gateway.raise, expect, hprovider, Prog.ret_bind]
                  exact ⟨trivial, fun result => hsend _⟩

theorem call_second {r : Request Incoming} {e : Event attemptSig} {second : AttemptOp}
    {k : Attempt → Prog attemptSig Response}
    (h : Prog.Steps (service.call lib.cors r peer) [e] (.op second k)) (x : Attempt) :
    k x = .ret (service.trust lib.cors (orUnavailable x.1)) := by
  unfold OriginService.call at h
  cases hfallback : r.extensions.recordingFallback with
  | none =>
      rw [forwardRecording_direct hfallback] at h
      cases h with
      | op h => cases h
  | some fallback =>
      rw [forwardRecording_recording hfallback] at h
      cases hcollect : r.body.collect with
      | none =>
          rw [hcollect] at h
          cases h
      | some collected =>
          rw [hcollect] at h
          cases h with
          | @op _ _ first _ _ h =>
              unfold afterRecorder at h
              cases hfirst : (first : Attempt).1 with
              | error e =>
                  simp only [hfirst] at h
                  cases h
                  rfl
              | ok response =>
                  simp only [hfirst] at h
                  split at h
                  · cases h
                    rfl
                  · cases h

theorem steps_of_askFallback {replayed : Bool} {pre : List (Event (httpSig P))}
    {sent : Request GatewayBody}
    (h : AskFallback lib g service request peer replayed pre sent) :
    ∃ tasks downstream, Prog.Steps (g.handleOrigin lib service request peer) pre
      (.op (.request sent) fun answer => respond tasks downstream answer >>= fun x : Attempt =>
        .ret (finish lib g service request replayed (orUnavailable x.1))) := by
  cases h with
  | @direct calls r k _ k' hcalls hsent =>
      obtain ⟨tasks, downstream, rfl⟩ := attempt_request hsent
      have hk : ∀ x, k x = _ := handle_ends.of_steps hcalls
      have hforward : g.dispatch lib service (.forward r peer) =
          attempt lib.uris (g.fallback.forwardAttempt r peer) >>= fun x : Attempt =>
            .ret (orUnavailable x.1) := rfl
      refine ⟨tasks, downstream, ?_⟩
      have hsteps := Prog.Steps.subst hcalls
      rw [Prog.subst_op, hforward, hsent, Prog.op_bind, Prog.op_bind] at hsteps
      simp only [Prog.bind_assoc, Prog.ret_bind, hk, Prog.subst_ret] at hsteps
      exact hsteps
  | @replayed calls r k first second k' _ k'' hcalls hfirst _ hsent =>
      obtain ⟨tasks, downstream, rfl⟩ := attempt_request hsent
      have hk : ∀ x, k x = _ := handle_ends.of_steps hcalls
      refine ⟨tasks, downstream, ?_⟩
      have hcall : Prog.Steps ((service.call lib.cors r peer).subst (attempt (P := P) lib.uris))
          first.events ((Prog.op second k').subst (attempt lib.uris)) := by
        have hsteps : Prog.Steps _ ([first].flatMap Performed.events) _ := Prog.Steps.subst hfirst
        rwa [List.flatMap_singleton] at hsteps
      have hsteps := (Prog.Steps.subst hcalls).trans
        (hcall.bind fun x : Response => (k x).subst (g.dispatch lib service))
      rw [Prog.subst_op, hsent, Prog.op_bind, Prog.op_bind] at hsteps
      simp only [Prog.bind_assoc, Prog.ret_bind, call_second hfirst, hk, Prog.subst_ret] at hsteps
      exact hsteps

/-- One downstream upgrade, for every answer of the fallback. -/
theorem answered_of_askFallback {replayed : Bool} {pre : List (Event (httpSig P))}
    {sent : Request GatewayBody} (h : AskFallback lib g service request peer replayed pre sent) :
    ∃ downstream, ∀ client : ClientResponse,
      (∃ post response, (g.handleOrigin lib service request peer).Runs
        (pre ++ ⟨.request sent, .ok client⟩ :: post) response) ∧
      ∀ post response, (g.handleOrigin lib service request peer).Runs
        (pre ++ ⟨.request sent, .ok client⟩ :: post) response →
        response = finish lib g service request replayed (received downstream client.response) := by
  obtain ⟨tasks, downstream, hsteps⟩ := steps_of_askFallback h
  refine ⟨downstream, fun client => ⟨?_, ?_⟩⟩
  · obtain ⟨post, x, hx⟩ : ∃ post x, (respond tasks downstream (.ok client)).Runs post x := respond_ok
    exact ⟨post, _, hsteps.trans (.op (Prog.Steps.bind _ hx))⟩
  · intro post response hruns
    obtain ⟨answer, rest, hevents, hrest⟩ := Prog.runs_op.mp (hsteps.rest hruns)
    obtain ⟨hanswer, -⟩ := List.cons.inj hevents
    obtain rfl := eq_of_heq (Sigma.mk.inj hanswer).2
    obtain ⟨x, tr₁, tr₂, -, hx, hret⟩ := Prog.runs_bind.mp hrest
    obtain ⟨-, rfl⟩ := Prog.runs_ret.mp hret
    rw [received_of_runs hx]

/-! ## What the decision of the fallback changes -/

/-- The one case in which the fallback is listened to. -/
def Trusts (g : Gateway P Index Cors) (service : OriginService) (replayed : Bool)
    (response : Response) : Prop :=
  replayed = true ∧ service.responseCors = true ∧ g.cors.isSome = true ∧ Exposed response

variable {replayed : Bool} {r r' : Response}

theorem deliver_eq (hlaw : lib.cors.Lawful) (origin : Option HeaderValue) (response : Response) :
    g.deliver lib origin response =
      match g.cors with
      | some cors => lib.cors.applyResponse cors (origin.map HeaderValue.bytes) (undecided response)
      | none => undecided response := by
  have hheaders : { response with headers := (lib.cors.takeFromHeaders response.headers).2 } =
      undecided response := congrArg (fun h => { response with headers := h }) (hlaw.removes _)
  unfold Gateway.deliver
  cases g.cors with
  | none => exact hheaders
  | some cors => exact congrArg _ hheaders

/-- The service hands on the response without its decision, and puts the decision beside it if the
origin is trusted. -/
theorem trust_eq (hlaw : lib.cors.Lawful) (response : Response) :
    service.trust lib.cors response =
      if service.responseCors then
        { undecided response with
          extensions := { response.extensions with
            cors := some (lib.cors.takeFromHeaders response.headers).1 } }
      else undecided response := by
  unfold OriginService.trust undecided
  dsimp only
  rw [hlaw.removes]

theorem deliver_public (hlaw : lib.cors.Lawful) (hcors : g.cors.isSome = false)
    (origin : Option HeaderValue) (response : Response) :
    g.deliver lib origin response = undecided response := by
  have hnone : g.cors = none := by simpa using hcors
  rw [deliver_eq hlaw, hnone]

theorem samePublic_of_untrusted (hlaw : lib.cors.Lawful) (h : SameButCors r r')
    (downstream : Option OnUpgrade) (huntrusted : ¬ Trusts g service replayed r) :
    SamePublic (finish lib g service request replayed (received downstream r))
      (finish lib g service request replayed (received downstream r')) := by
  have hreceived := h.received downstream
  have hundecided : undecided (received downstream r) = undecided (received downstream r') :=
    hreceived.undecided
  have hsame : ∀ {a b : Response}, a = b → SamePublic a b := by
    rintro a _ rfl
    exact ⟨rfl, rfl, rfl, rfl⟩
  unfold finish
  cases replayed with
  | false =>
      apply hsame
      rw [if_neg Bool.false_ne_true, if_neg Bool.false_ne_true, deliver_eq hlaw, deliver_eq hlaw,
        hundecided]
  | true =>
      rw [if_pos rfl, if_pos rfl, trust_eq hlaw, trust_eq hlaw]
      by_cases hservice : service.responseCors = true
      · rw [if_pos hservice, if_pos hservice, hundecided, hreceived.extensions]
        by_cases hcors : g.cors.isSome = true
        · -- the proxy has removed the decision from both
          have hhidden : ¬ Exposed r := fun hexposed => huntrusted ⟨rfl, hservice, hcors, hexposed⟩
          have hhidden' : ¬ Exposed r' := fun hexposed => hhidden (h.exposed.mpr hexposed)
          have hnone : (received downstream r).headers.getAll responseCorsHeader = [] := by
            rw [getAll_received]
            exact if_neg hhidden
          have hnone' : (received downstream r').headers.getAll responseCorsHeader = [] := by
            rw [getAll_received]
            exact if_neg hhidden'
          have hheaders : (received downstream r).headers = (received downstream r').headers := by
            ext1
            funext n
            by_cases hn : n = responseCorsHeader
            · rw [hn]
              exact hnone.trans hnone'.symm
            · exact hreceived.headers n hn
          rw [hheaders]
          exact hsame rfl
        · have hnone : g.cors.isSome = false := Bool.eq_false_of_not_eq_true hcors
          rw [deliver_public hlaw hnone, deliver_public hlaw hnone]
          exact ⟨rfl, rfl, rfl, rfl⟩
      · rw [if_neg hservice, if_neg hservice, hundecided]
        exact hsame rfl

/-- Where the fallback is listened to, the policy is left out exactly on its demand. -/
theorem samePublic_iff_of_trusts (hlaw : lib.cors.Lawful) (downstream : Option OnUpgrade)
    (htrusts : Trusts g service replayed r) :
    SamePublic (finish lib g service request replayed (received downstream r))
        (undecided (received downstream r)) ↔
      r.headers.getAll responseCorsHeader = [.fromStatic "skip"] := by
  obtain ⟨rfl, hservice, hcors, hexposed⟩ := htrusts
  obtain ⟨cors, hcors⟩ := Option.isSome_iff_exists.mp hcors
  have hkept : (received downstream r).headers.getAll responseCorsHeader =
      r.headers.getAll responseCorsHeader := by
    rw [getAll_received]
    exact if_pos hexposed
  unfold finish
  rw [if_pos rfl, trust_eq hlaw, if_pos hservice, deliver_eq hlaw, hcors]
  dsimp only
  have hpublic : SamePublic (undecided { undecided (received downstream r) with
      extensions := { (received downstream r).extensions with
        cors := some (lib.cors.takeFromHeaders (received downstream r).headers).1 } })
      (undecided (received downstream r)) :=
    ⟨rfl, rfl, HeaderMap.remove_remove _ _, rfl⟩
  have hdecision := hlaw.alone cors
    ((g.originOf (Gateway.strip request)).map HeaderValue.bytes)
    (undecided { undecided (received downstream r) with
      extensions := { (received downstream r).extensions with
        cors := some (lib.cors.takeFromHeaders (received downstream r).headers).1 } })
  rw [← hkept, ← hlaw.skips]
  constructor
  · intro h
    exact Option.some.inj (hdecision.mp (h.trans hpublic.symm))
  · intro h
    exact (hdecision.mpr (congrArg some h)).trans hpublic

def withDecisions (client : ClientResponse) (values : List HeaderValue) : ClientResponse where
  response := { client.response with
    headers := ⟨Function.update client.response.headers.values responseCorsHeader values⟩ }
  cors_none := client.cors_none

theorem sameButCors_withDecisions (client : ClientResponse) (values : List HeaderValue) :
    SameButCors client.response (withDecisions client values).response := by
  refine ⟨rfl, rfl, rfl, rfl, ?_⟩
  intro n hn
  unfold withDecisions HeaderMap.getAll
  simp [hn]

theorem getAll_withDecisions (client : ClientResponse) (values : List HeaderValue) :
    (withDecisions client values).response.headers.getAll responseCorsHeader = values := by
  unfold withDecisions HeaderMap.getAll
  simp

theorem not_samePublic_of_trusts (hlaw : lib.cors.Lawful) (downstream : Option OnUpgrade)
    (client : ClientResponse) (htrusts : Trusts g service replayed client.response) :
    ¬ SamePublic
      (finish lib g service request replayed
        (received downstream (withDecisions client [.fromStatic "skip"]).response))
      (finish lib g service request replayed
        (received downstream (withDecisions client []).response)) := by
  have hvariant : ∀ values, Trusts g service replayed (withDecisions client values).response :=
    fun values => ⟨htrusts.1, htrusts.2.1, htrusts.2.2.1,
      (sameButCors_withDecisions client values).exposed.mp htrusts.2.2.2⟩
  have hundecided : undecided (received downstream (withDecisions client []).response) =
      undecided (received downstream (withDecisions client [.fromStatic "skip"]).response) :=
    ((sameButCors_withDecisions client []).received downstream).undecided.symm.trans
      ((sameButCors_withDecisions client _).received downstream).undecided
  have hskip : SamePublic (finish lib g service request replayed
      (received downstream (withDecisions client [.fromStatic "skip"]).response)) _ :=
    (samePublic_iff_of_trusts hlaw downstream (hvariant _)).mpr (getAll_withDecisions client _)
  intro hsame
  have hnone : SamePublic (finish lib g service request replayed
      (received downstream (withDecisions client []).response))
      (undecided (received downstream (withDecisions client []).response)) := by
    rw [hundecided]
    exact hsame.symm.trans hskip
  have hvalues := (samePublic_iff_of_trusts hlaw downstream (hvariant [])).mp hnone
  rw [getAll_withDecisions] at hvalues
  cases hvalues

/-- The decisions of the fallback leave the public response alone, unless they come with a replay to
a service that trusts its origin, under a policy, and reach it. -/
theorem untrusted_fallback {pre post : List (Event (httpSig P))} {sent : Request GatewayBody}
    {client : ClientResponse} {response : Response} (hlaw : lib.cors.Lawful)
    (hask : AskFallback lib g service request peer replayed pre sent)
    (hruns : (g.handleOrigin lib service request peer).Runs
      (pre ++ ⟨.request sent, .ok client⟩ :: post) response) :
    (∀ (client' : ClientResponse) post' response', SameButCors client.response client'.response →
        (g.handleOrigin lib service request peer).Runs
          (pre ++ ⟨.request sent, .ok client'⟩ :: post') response' →
        SamePublic response response') ↔
      ¬ (replayed = true ∧ service.responseCors = true ∧ g.cors.isSome = true ∧
        (client.response.status = statusSwitchingProtocols ∨
          ¬ HopByHop client.response.headers responseCorsHeader)) := by
  obtain ⟨downstream, hanswered⟩ := answered_of_askFallback hask
  have hresponse := (hanswered client).2 post response hruns
  constructor
  · rintro hall ⟨hreplayed, hservice, hcors, hexposed⟩
    have hvariant : ∀ values, SamePublic response (finish lib g service request replayed
        (received downstream (withDecisions client values).response)) := by
      intro values
      obtain ⟨post', response', hruns'⟩ := (hanswered (withDecisions client values)).1
      rw [← (hanswered _).2 post' response' hruns']
      exact hall _ post' response' (sameButCors_withDecisions client values) hruns'
    exact not_samePublic_of_trusts hlaw downstream client ⟨hreplayed, hservice, hcors, hexposed⟩
      ((hvariant _).symm.trans (hvariant _))
  · intro huntrusted client' post' response' hsame hruns'
    rw [hresponse, (hanswered client').2 post' response' hruns']
    exact samePublic_of_untrusted hlaw hsame downstream huntrusted

/-! ## A fallback that is listened to -/

def vary : HeaderName := .fromStatic "vary"

/-- A policy that adds a header to every response, unless it is to be skipped. -/
def varyingCors : CorsLibrary Unit :=
  { plainCors with
    applyResponse := fun _ _ response =>
      if response.extensions.cors = some .skip then response
      else { response with headers := response.headers.append vary (.fromStatic "origin") } }

theorem varyingCors_lawful : varyingCors.Lawful where
  removes _ := rfl
  skips h := by
    unfold varyingCors plainCors
    dsimp only
    split
    · rename_i hskip
      exact iff_of_true rfl hskip
    · rename_i hskip
      exact iff_of_false (by simp) hskip
  alone cors origin response := by
    unfold varyingCors
    dsimp only
    split
    · rename_i hskip
      exact iff_of_true ⟨rfl, rfl, rfl, rfl⟩ hskip
    · rename_i hskip
      refine iff_of_false ?_ hskip
      intro h
      have hlength := congrArg (fun headers : HeaderMap => (headers.getAll vary).length) h.headers
      simp [HeaderMap.append, HeaderMap.getAll] at hlength

def varyingLibraries : GatewayLibraries Unit Unit := ⟨plainRouting, literalUris, varyingCors⟩

def varyingGateway : Gateway Unit Unit Unit := { plainGateway with cors := some () }

theorem varyingGateway_built : Gateway.Built varyingLibraries varyingGateway := by
  have hcors : Gateway.withCors varyingLibraries.cors plainGateway () = .ok varyingGateway := rfl
  exact .withCors (plainGateway_built_of rfl) hcors

theorem askFallback_recorded (responseCors : Bool) :
    ∃ pre sent, AskFallback varyingLibraries varyingGateway ⟨plainService.proxy, responseCors⟩
      recordedRequest ⟨"10.0.0.1"⟩ true pre sent := by
  have hacquire : (varyingGateway.dispatch varyingLibraries ⟨plainService.proxy, responseCors⟩
      (.acquire () (.tryAcquireRequest "writes" "/write") 50)).Runs
        [⟨.acquire () (.tryAcquireRequest "writes" "/write") 50, some (.ok (.acquired plainTicket))⟩]
        (some (.ok (.acquired plainTicket))) := .op (.refl _)
  have hcalls : ∃ k, Prog.Steps (varyingGateway.handle varyingLibraries recordedRequest ⟨"10.0.0.1"⟩)
      (List.map Performed.event [(⟨_, _, _, hacquire⟩ : Performed (varyingGateway.dispatch varyingLibraries
        ⟨plainService.proxy, responseCors⟩))])
      (.op (.call (varyingGateway.record plainTicket (Gateway.strip recordedRequest)) ⟨"10.0.0.1"⟩) k) :=
    ⟨_, .op (.refl _)⟩
  have hmissed : ∃ sent, (attempt (P := Unit) literalUris (plainService.proxy.recorderAttempt
      (varyingGateway.record plainTicket (Gateway.strip recordedRequest)) ⟨[1, 2, 3], none⟩
      ⟨"10.0.0.1"⟩)).Runs [⟨.request sent, .ok (plainResponse 404)⟩]
        (.ok (filtered (plainResponse 404).response), none) := ⟨_, .op (.refl _)⟩
  obtain ⟨k, hcalls⟩ := hcalls
  obtain ⟨sent, hmissed⟩ := hmissed
  have hfirst : ∃ second k, Prog.Steps (OriginService.call varyingCors ⟨plainService.proxy, responseCors⟩
      (varyingGateway.record plainTicket (Gateway.strip recordedRequest)) ⟨"10.0.0.1"⟩)
      [(⟨_, _, _, hmissed⟩ : Performed (attempt (P := Unit) literalUris)).event] (.op second k) ∧
      second.proxy = varyingGateway.fallback ∧
      ∃ sent k, attempt (P := Unit) literalUris second = .op (.request sent) k :=
    ⟨_, _, .op (.refl _), rfl, _, _, rfl⟩
  obtain ⟨second, k', hfirst, hsecond, sent', k'', hsent⟩ := hfirst
  exact ⟨_, sent', .replayed hcalls hfirst hsecond hsent⟩

/-- A fallback that is asked by a trusting service chooses whether the policy applies. -/
theorem untrusted_fallback_fails :
    ∃ (pre post post' : List (Event (httpSig Unit))) (sent : Request GatewayBody)
      (client client' : ClientResponse) (response response' : Response),
      varyingCors.Lawful ∧ Gateway.Built varyingLibraries varyingGateway ∧
      AskFallback varyingLibraries varyingGateway plainService.withResponseCors recordedRequest
        ⟨"10.0.0.1"⟩ true pre sent ∧
      SameButCors client.response client'.response ∧
      (varyingGateway.handleOrigin varyingLibraries plainService.withResponseCors recordedRequest
        ⟨"10.0.0.1"⟩).Runs (pre ++ ⟨.request sent, .ok client⟩ :: post) response ∧
      (varyingGateway.handleOrigin varyingLibraries plainService.withResponseCors recordedRequest
        ⟨"10.0.0.1"⟩).Runs (pre ++ ⟨.request sent, .ok client'⟩ :: post') response' ∧
      ¬ SamePublic response response' := by
  obtain ⟨pre, sent, hask⟩ := askFallback_recorded true
  obtain ⟨downstream, hanswered⟩ := answered_of_askFallback hask
  obtain ⟨⟨post, response, hruns⟩, hresponse⟩ :=
    hanswered (withDecisions (plainResponse 200) [.fromStatic "skip"])
  obtain ⟨⟨post', response', hruns'⟩, hresponse'⟩ := hanswered (withDecisions (plainResponse 200) [])
  have hexposed : Exposed (plainResponse 200).response := Or.inr (by decide)
  have hsame : SameButCors (withDecisions (plainResponse 200) [.fromStatic "skip"]).response
      (withDecisions (plainResponse 200) []).response := by
    refine ⟨rfl, rfl, rfl, rfl, ?_⟩
    intro n hn
    exact ((sameButCors_withDecisions (plainResponse 200) _).headers n hn).symm.trans
      ((sameButCors_withDecisions (plainResponse 200) []).headers n hn)
  refine ⟨pre, post, post', sent, _, _, response, response', varyingCors_lawful,
    varyingGateway_built, hask, hsame, hruns, hruns', ?_⟩
  rw [hresponse post response hruns, hresponse' post' response' hruns']
  exact not_samePublic_of_trusts varyingCors_lawful downstream _ ⟨rfl, rfl, rfl, hexposed⟩

/-- Without `with_response_cors` the same replay chooses nothing. -/
theorem untrusted_fallback_recorded :
    ∃ pre sent, ∀ (client client' : ClientResponse) post post' response response',
      SameButCors client.response client'.response →
      (varyingGateway.handleOrigin varyingLibraries plainService recordedRequest ⟨"10.0.0.1"⟩).Runs
        (pre ++ ⟨.request sent, .ok client⟩ :: post) response →
      (varyingGateway.handleOrigin varyingLibraries plainService recordedRequest ⟨"10.0.0.1"⟩).Runs
        (pre ++ ⟨.request sent, .ok client'⟩ :: post') response' → SamePublic response response' := by
  obtain ⟨pre, sent, hask⟩ := askFallback_recorded false
  refine ⟨pre, sent, ?_⟩
  intro client client' post post' response response' hsame hruns hruns'
  have hiff := untrusted_fallback varyingCors_lawful hask hruns
  exact hiff.mpr (fun h => Bool.false_ne_true h.2.1) client' post' response' hsame hruns'

end BreezeGateway
