import BreezeGateway.ReplayedRequest

/-!
# Reserved controls

What a client sends under a reserved name changes nothing, and the admission headers that an
upstream gets are those of a ticket that was acquired for the request.
-/

namespace BreezeGateway

open Effects

variable {P Index Cors : Type}

/-! ## Requests that differ in reserved headers -/

/-- Two requests that differ at most in the values of the reserved headers. -/
structure SameButReserved (request request' : Request Incoming) : Prop where
  method : request.method = request'.method
  uri : request.uri = request'.uri
  version : request.version = request'.version
  extensions : request.extensions = request'.extensions
  body : request.body = request'.body
  headers : ∀ n, n ≠ admissionScopeHeader → n ≠ admissionTokenHeader → n ≠ responseCorsHeader →
    request.headers.getAll n = request'.headers.getAll n

theorem SameButReserved.strip {request request' : Request Incoming}
    (h : SameButReserved request request') : Gateway.strip request = Gateway.strip request' := by
  obtain ⟨method, uri, version, headers, extensions, body⟩ := request
  obtain ⟨method', uri', version', headers', extensions', body'⟩ := request'
  obtain ⟨rfl, rfl, rfl, rfl, rfl, hheaders⟩ := h
  have hstripped : ((headers.remove admissionScopeHeader).remove admissionTokenHeader).remove
      responseCorsHeader = ((headers'.remove admissionScopeHeader).remove
        admissionTokenHeader).remove responseCorsHeader := by
    ext1
    funext n
    simp only [HeaderMap.values_remove]
    split
    · rfl
    · rename_i hcors
      split
      · rfl
      · rename_i htoken
        split
        · rfl
        · rename_i hscope
          exact hheaders n hscope htoken hcors
  unfold Gateway.strip
  rw [hstripped]

/-- What a handler is given from outside. -/
inductive HttpReply where
  | provider (result : Option (Except AdmissionError AcquireOutcome))
  | origin (result : Except ClientError ClientResponse)
  | relayed

def httpReply (e : Event (httpSig P)) : HttpReply :=
  match e with
  | ⟨.panic _, x⟩ => Empty.elim x
  | ⟨.acquire .., result⟩ => .provider result
  | ⟨.request _, result⟩ => .origin result
  | ⟨.relay .., _⟩ => .relayed

theorem httpReply_injective (o : (httpSig P).Op) (x y : (httpSig P).Ans o)
    (h : httpReply ⟨o, x⟩ = httpReply ⟨o, y⟩) : x = y := by
  cases o with
  | panic message => exact Empty.elim x
  | acquire provider call timeoutMs => exact HttpReply.provider.inj h
  | request request => exact HttpReply.origin.inj h
  | relay tasks downstream upstream => rfl

/-! ## Tickets on the way of a request -/

def ticketOf (result : Option (Except AdmissionError AcquireOutcome)) : Option AdmissionTicket :=
  match result with
  | some (.ok (.acquired ticket)) => some ticket
  | _ => none

def acquiredTicket (e : Event (httpSig P)) : Option AdmissionTicket :=
  match e with
  | ⟨.acquire .., result⟩ => ticketOf result
  | _ => none

/-- The admission headers are those of one of the tickets, or there are none. -/
def Marked (tickets : List AdmissionTicket) (headers : HeaderMap) : Prop :=
  (headers.getAll admissionScopeHeader = [] ∧ headers.getAll admissionTokenHeader = []) ∨
    ∃ ticket ∈ tickets, headers.getAll admissionScopeHeader = [ticket.scopeValue] ∧
      headers.getAll admissionTokenHeader = [ticket.tokenValue]

/-- A request that becomes `Marked` when it is prepared. -/
def Vouched {B : Type} (tickets : List AdmissionTicket) (request : Request B) : Prop :=
  (∃ ticket ∈ tickets, request.extensions.ticket = some ticket) ∨
    (request.extensions.ticket = none ∧ request.headers.getAll admissionScopeHeader = [] ∧
      request.headers.getAll admissionTokenHeader = [])

theorem Vouched.congr {B C : Type} {tickets : List AdmissionTicket} {request : Request B}
    {request' : Request C} (h : Vouched tickets request)
    (hticket : request'.extensions.ticket = request.extensions.ticket)
    (hheaders : request'.headers = request.headers) : Vouched tickets request' := by
  unfold Vouched
  rw [hticket, hheaders]
  exact h

/-- Requests go out `Marked`; the tickets are those acquired so far. -/
def markedContract : Contract (httpSig P) (List AdmissionTicket) where
  pre tickets
    | .request request => Marked tickets request.headers
    | _ => True
  post tickets o x tickets' := tickets' = tickets ++ (acquiredTicket ⟨o, x⟩).toList

def attemptContract : Contract attemptSig (List AdmissionTicket) where
  pre tickets o := Vouched tickets o.request
  post tickets _ _ tickets' := tickets' = tickets

def vouchedContract : Contract (gatewaySig P) (List AdmissionTicket) where
  pre tickets
    | .call request _ => Vouched tickets request
    | .forward request _ => Vouched tickets request
    | _ => True
  post tickets
    | .acquire .., result, tickets' => tickets' = tickets ++ (ticketOf result).toList
    | _, _, tickets' => tickets' = tickets

variable {tickets : List AdmissionTicket}

namespace FallbackProxy

theorem marked_of_prepares {uris : UriLibrary} {self : FallbackProxy}
    {request prepared : Request GatewayBody} {peer : SocketAddr} (h : Vouched tickets request)
    (hprepare : Prepares uris self request peer prepared) : Marked tickets prepared.headers := by
  have hscope := getAll_prepareRequest (n := admissionScopeHeader) hprepare (by decide)
  have htoken := getAll_prepareRequest (n := admissionTokenHeader) hprepare (by decide)
  rcases h with ⟨ticket, hmem, hticket⟩ | ⟨hticket, hnoScope, hnoToken⟩
  · rw [hticket] at hscope htoken
    refine Or.inr ⟨ticket, hmem, ?_, htoken⟩
    simpa [admissionScopeHeader_ne_token] using hscope
  · rw [hticket] at hscope htoken
    refine Or.inl ⟨hscope.trans ?_, htoken.trans ?_⟩
    · exact preparedValues_absent (by decide) (by decide) hnoScope
    · exact preparedValues_absent (by decide) (by decide) hnoToken

theorem respond_meets (tasks : Option UpgradeTasks) (downstream : Option OnUpgrade)
    (answer : Except ClientError ClientResponse) :
    (respond (P := P) tasks downstream answer).Meets markedContract tickets
      fun tickets' _ => tickets' = tickets := by
  cases answer with
  | error e =>
      simp only [respond]
      split <;> exact rfl
  | ok client =>
      simp only [respond]
      split
      · cases downstream with
        | none => exact rfl
        | some d =>
            refine ⟨trivial, ?_⟩
            rintro x _ rfl
            exact List.append_nil tickets
      · exact rfl

theorem attempt_meets (uris : UriLibrary) (o : AttemptOp) (h : Vouched tickets o.request) :
    (attempt (P := P) uris o).Meets markedContract tickets fun tickets' _ => tickets' = tickets := by
  have hhead : AttemptHead (P := P) uris o.proxy o.request o.peer o.downstream _ := attemptHead
  unfold attempt
  generalize o.proxy.tryForwardBody uris o.request o.peer o.downstream = program at hhead ⊢
  cases hhead with
  | missing horigin => exact rfl
  | panic horigin hprepare => exact ⟨trivial, fun x => Empty.elim x⟩
  | unprepared horigin hprepare => exact rfl
  | @prepared prepared horigin hprepare =>
      have hmarked : Marked tickets prepared.headers := marked_of_prepares h hprepare
      refine ⟨hmarked, ?_⟩
      rintro answer _ rfl
      change (respond _ _ _).Meets _ (tickets ++ []) _
      rw [List.append_nil]
      exact respond_meets _ _ _

variable {self : FallbackProxy} {request : Request Incoming} {peer : SocketAddr}

theorem perform_meets {α : Type} (o : AttemptOp) (f : Attempt → α) (h : Vouched tickets o.request) :
    (f <$> Prog.perform (S := attemptSig) o).Meets attemptContract tickets
      fun tickets' _ => tickets' = tickets :=
  ⟨h, fun _ _ hpost => hpost⟩

theorem forward_meets (h : Vouched tickets request) :
    (self.forward request peer).Meets attemptContract tickets
      fun tickets' _ => tickets' = tickets := by
  have hhead := handOver_head (request.mapBody GatewayBody.incoming)
  have hheaders := handOver_headers (request.mapBody GatewayBody.incoming)
  exact perform_meets (self.forwardAttempt request peer) _ (h.congr hhead.2.2.2 hheaders)

theorem vouched_retry (fallback : FallbackProxy) (collected : Collected) (first : Attempt) :
    Vouched tickets (fallback.retryAttempt request collected peer first).request := by
  refine Or.inr ⟨rfl, ?_, ?_⟩
  · unfold retryAttempt retryRequest HeaderMap.getAll
    simp [HeaderMap.values_remove]
  · unfold retryAttempt retryRequest HeaderMap.getAll
    simp

theorem forwardRecording_meets (h : Vouched tickets request) :
    (self.forwardRecording request peer).Meets attemptContract tickets
      fun tickets' _ => tickets' = tickets := by
  cases hfallback : request.extensions.recordingFallback with
  | none =>
      rw [forwardRecording_direct hfallback]
      exact forward_meets (h.congr rfl rfl)
  | some fallback =>
      rw [forwardRecording_recording hfallback]
      cases request.body.collect with
      | none => exact rfl
      | some collected =>
          have hhead := handOver_head (bare request)
          refine ⟨h.congr hhead.2.2.2 (handOver_headers (bare request)), ?_⟩
          intro first tickets' hpost
          obtain rfl : tickets' = tickets := hpost
          have hvouched : Vouched tickets' (fallback.retryAttempt request collected peer first).request :=
            vouched_retry fallback collected first
          have hreplay := perform_meets _ (fun y : Attempt => orUnavailable y.1) hvouched
          unfold afterRecorder
          cases first.1 with
          | error e => exact hreplay
          | ok response =>
              dsimp only
              split
              · exact hreplay
              · exact rfl

end FallbackProxy

namespace Gateway

variable {lib : GatewayLibraries Index Cors} {g : Gateway P Index Cors} {request : Request Incoming}
  {peer : SocketAddr}

theorem dispatch_meets (service : OriginService) (tickets : List AdmissionTicket)
    (o : (gatewaySig P).Op) (ho : vouchedContract.pre tickets o) :
    (g.dispatch lib service o).Meets markedContract tickets
      fun tickets' x => vouchedContract.post tickets o x tickets' := by
  cases o with
  | panic message => exact ⟨trivial, fun x => Empty.elim x⟩
  | acquire provider call timeoutMs => exact ⟨trivial, fun _ _ hpost => hpost⟩
  | call request peer =>
      have hcall : (service.call lib.cors request peer).Meets attemptContract tickets
          fun tickets' _ => tickets' = tickets := by
        unfold OriginService.call
        rw [Prog.meets_bind]
        exact FallbackProxy.forwardRecording_meets ho
      exact hcall.subst fun _ o ho => FallbackProxy.attempt_meets lib.uris o ho
  | forward request peer =>
      have hforward : (g.fallback.forward request peer).Meets attemptContract tickets
          fun tickets' _ => tickets' = tickets := FallbackProxy.forward_meets ho
      exact hforward.subst fun _ o ho => FallbackProxy.attempt_meets lib.uris o ho

theorem vouched_strip : Vouched tickets (strip request) :=
  Or.inr ⟨rfl, strip_scope, strip_token⟩

theorem vouched_admitted (rule : AdmissionRule)
    (result : Option (Except AdmissionError AcquireOutcome)) :
    Vouched (tickets ++ (ticketOf result).toList)
      (g.admitted (strip request) rule (result.getD (.error .timeout))).2 := by
  by_cases hacquires : ∃ ticket, Acquires rule result ticket
  · obtain ⟨ticket, hacquires⟩ := hacquires
    rw [admitted_of_acquires hacquires]
    obtain ⟨rfl, -⟩ := hacquires
    exact Or.inl ⟨ticket, by simp [ticketOf], rfl⟩
  · rw [admitted_of_not_acquires fun ticket h => hacquires ⟨ticket, h⟩]
    exact vouched_strip

theorem raise_meets {α : Type} (x : Except Panic α) {Q : List AdmissionTicket → α → Prop}
    (h : ∀ a, x = .ok a → Q tickets a) :
    (raise x : Prog (gatewaySig P) α).Meets vouchedContract tickets Q := by
  cases x with
  | error p => exact ⟨trivial, fun x => Empty.elim x⟩
  | ok a => exact h a rfl

theorem handle_meets :
    (g.handle lib request peer).Meets vouchedContract [] fun _ _ => True := by
  unfold handle
  dsimp only
  cases g.preflight lib (strip request) with
  | some response => trivial
  | none =>
      simp only [Prog.meets_bind]
      apply raise_meets
      intro rule _
      have hsend : ∀ (tickets : List AdmissionTicket) (d : Bool × Request Incoming),
          Vouched tickets d.2 →
          (if d.1 then Prog.perform (S := gatewaySig P) (.call d.2 peer)
            else Prog.perform (S := gatewaySig P) (.forward d.2 peer) :
              Prog (gatewaySig P) Response).Meets vouchedContract tickets fun tickets' response =>
                (Prog.ret (g.deliver lib (g.originOf (strip request)) response) :
                  Prog (gatewaySig P) Response).Meets vouchedContract tickets' fun _ _ => True := by
        intro tickets d hd
        split
        · exact ⟨hd, fun _ _ _ => trivial⟩
        · exact ⟨hd, fun _ _ _ => trivial⟩
      cases rule with
      | none => exact hsend [] _ vouched_strip
      | some rule =>
          dsimp only
          rw [Prog.meets_bind]
          apply raise_meets
          intro provider _
          refine ⟨trivial, ?_⟩
          rintro result _ rfl
          exact hsend _ _ (vouched_admitted rule result)

theorem handleOrigin_meets (service : OriginService) :
    (g.handleOrigin lib service request peer).Meets markedContract [] fun _ _ => True :=
  handle_meets.subst (dispatch_meets service)

def addAcquired (tickets : List AdmissionTicket) (e : Event (httpSig P)) : List AdmissionTicket :=
  tickets ++ (acquiredTicket e).toList

theorem foldl_addAcquired (tickets : List AdmissionTicket) (tr : List (Event (httpSig P))) :
    tr.foldl addAcquired tickets = tickets ++ tr.filterMap acquiredTicket := by
  induction tr generalizing tickets with
  | nil => simp
  | cons e tr ih =>
      rw [List.foldl_cons, ih, addAcquired]
      cases hticket : acquiredTicket e with
      | none => simp [hticket]
      | some ticket => simp [hticket]

/-- A request that is sent carries a ticket acquired before, or none. -/
theorem marked_of_steps {service : OriginService} {tr rest : List (Event (httpSig P))}
    {sent : Request GatewayBody} {answer : Except ClientError ClientResponse}
    {q : Prog (httpSig P) Response}
    (h : Prog.Steps (g.handleOrigin lib service request peer)
      (tr ++ ⟨.request sent, answer⟩ :: rest) q) :
    Marked (tr.filterMap acquiredTicket) sent.headers := by
  obtain ⟨k, hsteps⟩ := h.before
  have hnext : ∀ (tickets : List AdmissionTicket) (o : (httpSig P).Op) (x : (httpSig P).Ans o),
      markedContract.post tickets o x (addAcquired tickets ⟨o, x⟩) := fun _ _ _ => rfl
  have hmeets := (handleOrigin_meets service).steps hnext hsteps
  rw [foldl_addAcquired, List.nil_append] at hmeets
  exact hmeets.1

end Gateway

/-- Requests that differ in reserved headers have the same calls of providers, the same requests
upstream and the same response, and what is sent carries only tickets of its own request. -/
theorem reserved_controls {lib : GatewayLibraries Index Cors} {g : Gateway P Index Cors}
    (service : OriginService) {request request' : Request Incoming}
    (h : SameButReserved request request') (peer : SocketAddr) :
    g.handleOrigin lib service request peer = g.handleOrigin lib service request' peer ∧
    (∀ tr tr' response response',
      (g.handleOrigin lib service request peer).Runs tr response →
      (g.handleOrigin lib service request' peer).Runs tr' response' →
      tr.map httpReply = tr'.map httpReply → tr = tr' ∧ response = response') ∧
    ∀ tr sent answer rest q,
      Prog.Steps (g.handleOrigin lib service request peer)
        (tr ++ ⟨.request sent, answer⟩ :: rest) q →
      (sent.headers.getAll admissionScopeHeader = [] ∧
        sent.headers.getAll admissionTokenHeader = []) ∨
      ∃ ticket ∈ tr.filterMap acquiredTicket,
        sent.headers.getAll admissionScopeHeader = [ticket.scopeValue] ∧
          sent.headers.getAll admissionTokenHeader = [ticket.tokenValue] := by
  have hsame : g.handleOrigin lib service request peer = g.handleOrigin lib service request' peer := by
    unfold Gateway.handleOrigin Gateway.handle
    rw [h.strip]
  refine ⟨hsame, ?_, fun _ _ _ _ _ hsteps => Gateway.marked_of_steps hsteps⟩
  intro tr tr' response response' hruns hruns' hreplies
  rw [← hsame] at hruns'
  have hanswers : List.Forall₂ (fun e e' => httpReply e = httpReply e') tr tr' := by
    have heq : List.Forall₂ (fun r r' => r = r') (tr.map httpReply) (tr'.map httpReply) := by
      rw [hreplies]
      exact List.forall₂_same.mpr fun _ _ => rfl
    rwa [List.forall₂_map_left_iff, List.forall₂_map_right_iff] at heq
  exact Prog.runs_determined httpReply_injective hruns hruns' hanswers

def forgedRequest : Request Incoming :=
  { recordedRequest with
    headers := ((recordedRequest.headers.append admissionScopeHeader (.fromStatic "forged")).append
      admissionScopeHeader (.fromStatic "again")).append responseCorsHeader (.fromStatic "forged") }

theorem recorded_forged : SameButReserved recordedRequest forgedRequest := by
  refine ⟨rfl, rfl, rfl, rfl, rfl, ?_⟩
  intro n hscope _ hcors
  unfold forgedRequest HeaderMap.getAll HeaderMap.append
  simp [hscope, hcors]

theorem reserved_controls_forged :
    ∃ tr response,
      (plainGateway.handleOrigin plainLibraries plainService recordedRequest ⟨"10.0.0.1"⟩).Runs
        tr response ∧
      (plainGateway.handleOrigin plainLibraries plainService forgedRequest ⟨"10.0.0.1"⟩).Runs
        tr response ∧ tr.countP isSent = 2 := by
  have hruns : (plainGateway.handleOrigin plainLibraries plainService recordedRequest
      ⟨"10.0.0.1"⟩).Runs
        [⟨.acquire () _ _, some (.ok (.acquired plainTicket))⟩,
          ⟨.request _, .ok (plainResponse 404)⟩, ⟨.request _, .ok (plainResponse 201)⟩] _ :=
    .op (.op (.op (.refl _)))
  have hsame : plainGateway.handleOrigin plainLibraries plainService recordedRequest ⟨"10.0.0.1"⟩ =
      plainGateway.handleOrigin plainLibraries plainService forgedRequest ⟨"10.0.0.1"⟩ :=
    (reserved_controls plainService recorded_forged ⟨"10.0.0.1"⟩).1
  exact ⟨_, _, hruns, hsame ▸ hruns, rfl⟩

end BreezeGateway
