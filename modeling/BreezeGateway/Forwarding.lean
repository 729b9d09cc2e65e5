import BreezeGateway.Proxy

/-!
# The runs of an attempt

`try_forward_body` has six ways to end; everything that is said about forwarded requests is a case
analysis over them.
-/

namespace BreezeGateway

open Effects

namespace FallbackProxy

section

variable {B : Type} {lib : UriLibrary} {self : FallbackProxy} {request request' : Request B}
  {peer : SocketAddr} {upgrade : Bool}

theorem prepareRequest_ok (h : self.prepareRequest lib request peer upgrade = .ok (.ok request')) :
    ∃ authority p, (ticketAuthority request).or self.authority = some authority ∧
      lib.parsePathAndQuery ((request.uri.pathAndQuery.map PathAndQuery.asStr).getD "/") = .ok p ∧
      request' = (match request.extensions.ticket with
        | some ticket => ticket.attach
        | none => id)
          { request with
            uri := ⟨some self.scheme, some authority, p⟩
            headers := prepareHeaders request.headers peer upgrade } := by
  unfold prepareRequest at h
  cases hauthority : (ticketAuthority request).or self.authority with
  | none =>
      rw [hauthority] at h
      cases h
  | some authority =>
      rw [hauthority] at h
      simp only [expect, UriLibrary.build] at h
      cases hparse : lib.parsePathAndQuery
          ((request.uri.pathAndQuery.map PathAndQuery.asStr).getD "/") with
      | error e =>
          rw [hparse] at h
          cases h
      | ok p =>
          rw [hparse] at h
          refine ⟨authority, p, rfl, rfl, ?_⟩
          cases hticket : request.extensions.ticket with
          | none =>
              simp only [hticket] at h
              exact (Except.ok.inj (Except.ok.inj h)).symm
          | some ticket =>
              simp only [hticket] at h
              exact (Except.ok.inj (Except.ok.inj h)).symm

theorem prepareRequest_total (h : (ticketAuthority request).or self.authority ≠ none) :
    ∃ r, self.prepareRequest lib request peer upgrade = .ok r := by
  obtain ⟨authority, hauthority⟩ := Option.ne_none_iff_exists'.mp h
  unfold prepareRequest
  rw [hauthority]
  dsimp only [expect, bind, Except.bind]
  split
  · exact ⟨_, rfl⟩
  · split
    · exact ⟨_, rfl⟩
    · exact ⟨_, rfl⟩

end

variable {P : Type} (lib : UriLibrary) (self : FallbackProxy) (request : Request GatewayBody)
  (peer : SocketAddr) (downstream : Option OnUpgrade)

/-- A prepared request as the client gets it. -/
def sent (prepared : Request GatewayBody) : Request GatewayBody :=
  { prepared with extensions := { prepared.extensions with tasks := none } }

def Prepares (prepared : Request GatewayBody) : Prop :=
  self.prepareRequest lib request peer (isUpgrade request.headers) = .ok (.ok prepared)

def NoOrigin : Prop :=
  self.authority = none ∧ request.extensions.ticket.bind AdmissionTicket.origin = none

/-- The response of an origin without the headers of the connection it came over. -/
def filtered (response : Response) : Response :=
  { response with headers := removeHopByHopHeaders response.headers false }

inductive AttemptRun : List (Event (httpSig P)) → Attempt → Prop where
  | missing (h : NoOrigin self request) :
      AttemptRun [] (.ok (errorResponse statusServiceUnavailable "recorder origin is missing"),
        downstream)
  | unprepared {e : String} (h : ¬ NoOrigin self request)
      (hprepare : self.prepareRequest lib request peer (isUpgrade request.headers) = .ok (.error e)) :
      AttemptRun [] (.ok (errorResponse statusBadGateway e), downstream)
  | connectFailure {prepared : Request GatewayBody} {e : ClientError}
      (h : ¬ NoOrigin self request) (hprepare : Prepares lib self request peer prepared)
      (he : e.isConnect = true) :
      AttemptRun [⟨.request (sent prepared), .error e⟩] (.error .connectFailure, downstream)
  | unavailable {prepared : Request GatewayBody} {e : ClientError}
      (h : ¬ NoOrigin self request) (hprepare : Prepares lib self request peer prepared)
      (he : e.isConnect = false) :
      AttemptRun [⟨.request (sent prepared), .error e⟩] (.ok upstreamUnavailable, downstream)
  | answered {prepared : Request GatewayBody} {client : ClientResponse}
      (h : ¬ NoOrigin self request) (hprepare : Prepares lib self request peer prepared)
      (hstatus : client.response.status ≠ statusSwitchingProtocols) :
      AttemptRun [⟨.request (sent prepared), .ok client⟩] (.ok (filtered client.response), downstream)
  | switched {prepared : Request GatewayBody} {client : ClientResponse} {d : OnUpgrade}
      (h : ¬ NoOrigin self request) (hprepare : Prepares lib self request peer prepared)
      (hstatus : client.response.status = statusSwitchingProtocols) (hd : downstream = some d) :
      AttemptRun [⟨.request (sent prepared), .ok client⟩,
          ⟨.relay prepared.extensions.tasks d client.response.takeUpgrade.1, ()⟩]
        (.ok client.response.takeUpgrade.2, none)
  | unattended {prepared : Request GatewayBody} {client : ClientResponse}
      (h : ¬ NoOrigin self request) (hprepare : Prepares lib self request peer prepared)
      (hstatus : client.response.status = statusSwitchingProtocols) (hd : downstream = none) :
      AttemptRun [⟨.request (sent prepared), .ok client⟩] (.ok client.response, none)

def respond (tasks : Option UpgradeTasks) (downstream : Option OnUpgrade) :
    Except ClientError ClientResponse → Prog (httpSig P) Attempt
  | .error e =>
      if e.isConnect then .ret (.error .connectFailure, downstream)
      else .ret (.ok upstreamUnavailable, downstream)
  | .ok client =>
      if client.response.status = statusSwitchingProtocols then
        match downstream with
        | some d =>
            .op (.relay tasks d client.response.takeUpgrade.1) fun _ : Unit =>
              .ret (.ok client.response.takeUpgrade.2, none)
        | none => .ret (.ok client.response, none)
      else .ret (.ok (filtered client.response), downstream)

variable {lib self request peer downstream} {tr : List (Event (httpSig P))} {r : Attempt}

theorem tryForwardBody_missing (h : NoOrigin self request) :
    (self.tryForwardBody lib request peer downstream : Prog (httpSig P) Attempt) =
      .ret (.ok (errorResponse statusServiceUnavailable "recorder origin is missing"), downstream) :=
  if_pos h

theorem tryForwardBody_panic {p : Panic} (h : ¬ NoOrigin self request)
    (hprepare : self.prepareRequest lib request peer (isUpgrade request.headers) = .error p) :
    (self.tryForwardBody lib request peer downstream : Prog (httpSig P) Attempt) =
      .op (.panic p.message) nofun := by
  refine (if_neg h).trans ?_
  simp only [hprepare, orPanic, Prog.op_bind]
  exact congrArg (Prog.op (S := httpSig P) _) (funext fun x : Empty => x.elim)

theorem tryForwardBody_unprepared {e : String} (h : ¬ NoOrigin self request)
    (hprepare : self.prepareRequest lib request peer (isUpgrade request.headers) = .ok (.error e)) :
    (self.tryForwardBody lib request peer downstream : Prog (httpSig P) Attempt) =
      .ret (.ok (errorResponse statusBadGateway e), downstream) := by
  refine (if_neg h).trans ?_
  simp only [hprepare, orPanic, Prog.ret_bind]

theorem tryForwardBody_prepared {prepared : Request GatewayBody} (h : ¬ NoOrigin self request)
    (hprepare : Prepares lib self request peer prepared) :
    (self.tryForwardBody lib request peer downstream : Prog (httpSig P) Attempt) =
      .op (.request (sent prepared)) (respond prepared.extensions.tasks downstream) := by
  refine (if_neg h).trans ?_
  simp only [show self.prepareRequest lib request peer (isUpgrade request.headers) = _ from hprepare,
    orPanic, Prog.ret_bind]
  refine congrArg (Prog.op (S := httpSig P) _) (funext fun answer => ?_)
  cases answer with
  | error e => rfl
  | ok client =>
      cases downstream with
      | none => rfl
      | some d => rfl

inductive AttemptHead (lib : UriLibrary) (self : FallbackProxy) (request : Request GatewayBody)
    (peer : SocketAddr) (downstream : Option OnUpgrade) : Prog (httpSig P) Attempt → Prop where
  | missing (h : NoOrigin self request) :
      AttemptHead lib self request peer downstream
        (.ret (.ok (errorResponse statusServiceUnavailable "recorder origin is missing"), downstream))
  | panic {p : Panic} {k : Empty → Prog (httpSig P) Attempt} (h : ¬ NoOrigin self request)
      (hprepare : self.prepareRequest lib request peer (isUpgrade request.headers) = .error p) :
      AttemptHead lib self request peer downstream (.op (.panic p.message) k)
  | unprepared {e : String} (h : ¬ NoOrigin self request)
      (hprepare : self.prepareRequest lib request peer (isUpgrade request.headers) = .ok (.error e)) :
      AttemptHead lib self request peer downstream
        (.ret (.ok (errorResponse statusBadGateway e), downstream))
  | prepared {prepared : Request GatewayBody} (h : ¬ NoOrigin self request)
      (hprepare : Prepares lib self request peer prepared) :
      AttemptHead lib self request peer downstream
        (.op (.request (sent prepared)) (respond prepared.extensions.tasks downstream))

theorem attemptHead : AttemptHead (P := P) lib self request peer downstream
    (self.tryForwardBody lib request peer downstream) := by
  by_cases horigin : NoOrigin self request
  · rw [tryForwardBody_missing horigin]
    exact .missing horigin
  · cases hprepare : self.prepareRequest lib request peer (isUpgrade request.headers) with
    | error p =>
        rw [tryForwardBody_panic horigin hprepare]
        exact .panic horigin hprepare
    | ok r =>
        cases r with
        | error e =>
            rw [tryForwardBody_unprepared horigin hprepare]
            exact .unprepared horigin hprepare
        | ok prepared =>
            rw [tryForwardBody_prepared horigin hprepare]
            exact .prepared horigin hprepare

theorem runs_respond {answer : Except ClientError ClientResponse}
    (h : ¬ NoOrigin self request) {prepared : Request GatewayBody}
    (hprepare : Prepares lib self request peer prepared)
    (hruns : (respond prepared.extensions.tasks downstream answer).Runs tr r) :
    AttemptRun lib self request peer downstream (⟨.request (sent prepared), answer⟩ :: tr) r := by
  cases answer with
  | error e =>
      simp only [respond] at hruns
      split at hruns
      · rename_i he
        obtain ⟨rfl, rfl⟩ := Prog.runs_ret.mp hruns
        exact .connectFailure h hprepare he
      · rename_i he
        obtain ⟨rfl, rfl⟩ := Prog.runs_ret.mp hruns
        exact .unavailable h hprepare (Bool.eq_false_of_not_eq_true he)
  | ok client =>
      simp only [respond] at hruns
      split at hruns
      · rename_i hstatus
        cases hd : downstream with
        | none =>
            rw [hd] at hruns
            obtain ⟨rfl, rfl⟩ := Prog.runs_ret.mp hruns
            exact .unattended h hprepare hstatus rfl
        | some d =>
            rw [hd] at hruns
            obtain ⟨_, rest, rfl, hrest⟩ := Prog.runs_op.mp hruns
            obtain ⟨rfl, rfl⟩ := Prog.runs_ret.mp hrest
            exact .switched h hprepare hstatus rfl
      · rename_i hstatus
        obtain ⟨rfl, rfl⟩ := Prog.runs_ret.mp hruns
        exact .answered h hprepare hstatus

theorem attemptRun_of_runs (h : (self.tryForwardBody lib request peer downstream).Runs tr r) :
    AttemptRun lib self request peer downstream tr r := by
  have hhead : AttemptHead (P := P) lib self request peer downstream _ := attemptHead
  generalize self.tryForwardBody lib request peer downstream = program at h hhead
  cases hhead with
  | missing horigin =>
      obtain ⟨rfl, rfl⟩ := Prog.runs_ret.mp h
      exact .missing horigin
  | panic horigin hprepare =>
      obtain ⟨x, -⟩ := Prog.runs_op.mp h
      exact Empty.elim x
  | unprepared horigin hprepare =>
      obtain ⟨rfl, rfl⟩ := Prog.runs_ret.mp h
      exact .unprepared horigin hprepare
  | prepared horigin hprepare =>
      obtain ⟨answer, rest, rfl, hrest⟩ := Prog.runs_op.mp h
      exact runs_respond horigin hprepare hrest

/-! ## What an attempt never does -/

section

variable {bad : (httpSig P).Op → Prop}

theorem respond_avoids (hrelay : ∀ tasks d upstream, ¬ bad (.relay tasks d upstream))
    (tasks : Option UpgradeTasks) (downstream : Option OnUpgrade)
    (answer : Except ClientError ClientResponse) : (respond tasks downstream answer).Avoids bad := by
  cases answer with
  | error e =>
      simp only [respond]
      split <;> trivial
  | ok client =>
      simp only [respond]
      split
      · cases downstream with
        | none => trivial
        | some d => exact ⟨hrelay _ _ _, fun _ => trivial⟩
      · trivial

/-- An attempt panics, sends what it has prepared, and relays. -/
theorem attempt_avoids (o : AttemptOp)
    (hpanic : ∀ p, ¬ NoOrigin o.proxy o.request →
      o.proxy.prepareRequest lib o.request o.peer (isUpgrade o.request.headers) = .error p →
      ¬ bad (.panic p.message))
    (hsend : ∀ prepared, Prepares lib o.proxy o.request o.peer prepared →
      ¬ bad (.request (sent prepared)))
    (hrelay : ∀ tasks d upstream, ¬ bad (.relay tasks d upstream)) :
    (attempt lib o).Avoids bad := by
  have hhead : AttemptHead (P := P) lib o.proxy o.request o.peer o.downstream _ := attemptHead
  unfold attempt
  generalize o.proxy.tryForwardBody lib o.request o.peer o.downstream = program at hhead ⊢
  cases hhead with
  | missing horigin => trivial
  | panic horigin hprepare => exact ⟨hpanic _ horigin hprepare, fun x => Empty.elim x⟩
  | unprepared horigin hprepare => trivial
  | prepared horigin hprepare => exact ⟨hsend _ hprepare, respond_avoids hrelay _ _⟩

end

/-- A request that is `bad` is about to be sent. -/
def Sends (bad : Request GatewayBody → Prop) (o : (httpSig P).Op) : Prop :=
  ∃ out, o = .request out ∧ bad out

theorem attempt_avoids_sends {bad : Request GatewayBody → Prop} (o : AttemptOp)
    (h : ∀ prepared, Prepares lib o.proxy o.request o.peer prepared → ¬ bad (sent prepared)) :
    (attempt (P := P) lib o).Avoids (Sends bad) := by
  apply attempt_avoids o
  · rintro p - - ⟨out, hout, -⟩
    cases hout
  · rintro prepared hprepare ⟨out, hout, hbad⟩
    cases hout
    exact h prepared hprepare hbad
  · rintro tasks d upstream ⟨out, hout, -⟩
    cases hout

end FallbackProxy

end BreezeGateway
