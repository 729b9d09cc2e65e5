import BreezeGateway.ReservedControls
import BreezeGateway.RedisAdmission.ForwardedTicket

/-!
# Tickets in headers

`from_headers` reads back what `attach` has written, whatever the client had sent before.
-/

namespace BreezeGateway

open Effects

namespace AdmissionTicket

/-- What `new` makes, also with an origin. -/
inductive Constructed : AdmissionTicket → Prop where
  | new {scope token : String} {ticket : AdmissionTicket}
      (h : AdmissionTicket.new scope token = .ok ticket) : Constructed ticket
  | withOrigin {ticket ticket' : AdmissionTicket} {origin : Uri} (h : Constructed ticket)
      (horigin : ticket.withOrigin origin = .ok ticket') : Constructed ticket'

/-- The texts of a ticket make a ticket again. -/
theorem Constructed.renewed {ticket : AdmissionTicket} (h : Constructed ticket) :
    ∃ rebuilt, AdmissionTicket.new ticket.scope ticket.token = .ok rebuilt := by
  induction h with
  | @new scope token ticket h =>
      obtain ⟨hscope, htoken⟩ := of_new h
      rw [hscope, htoken]
      exact ⟨ticket, h⟩
  | withOrigin h horigin ih =>
      obtain ⟨hscope, htoken⟩ := of_withOrigin horigin
      rw [hscope, htoken]
      exact ih

/-! ## Reading headers -/

variable {h : HeaderMap}

/-- Each header occurs once, and their texts make the ticket. -/
def Encodes (h : HeaderMap) (ticket : AdmissionTicket) : Prop :=
  ∃ scopeValue tokenValue scope token, h.getAll admissionScopeHeader = [scopeValue] ∧
    h.getAll admissionTokenHeader = [tokenValue] ∧ scopeValue.toStr = some scope ∧
    tokenValue.toStr = some token ∧ AdmissionTicket.new scope token = .ok ticket

theorem new_error {scope token : String} {e : AdmissionError}
    (h : AdmissionTicket.new scope token = .error e) : e = .invalidTicket := by
  unfold AdmissionTicket.new at h
  split at h
  · exact (Except.error.inj h).symm
  · split at h
    · exact (Except.error.inj h).symm
    · split at h
      · exact (Except.error.inj h).symm
      · cases h

theorem fromHeaders_absent (hscope : h.getAll admissionScopeHeader = [])
    (htoken : h.getAll admissionTokenHeader = []) : fromHeaders h = .ok none := by
  have hscope' : h.get admissionScopeHeader = none := congrArg List.head? hscope
  have htoken' : h.get admissionTokenHeader = none := congrArg List.head? htoken
  unfold fromHeaders
  rw [hscope', htoken']

/-- A header that is missing beside the other one, or repeated, is an error. -/
theorem fromHeaders_irregular
    (habsent : ¬ (h.getAll admissionScopeHeader = [] ∧ h.getAll admissionTokenHeader = []))
    (hsingle : ¬ ((h.getAll admissionScopeHeader).length = 1 ∧
      (h.getAll admissionTokenHeader).length = 1)) :
    fromHeaders h = .error .invalidTicket := by
  have hget : ∀ n, h.get n = (h.getAll n).head? := fun _ => rfl
  unfold fromHeaders
  rw [hget, hget]
  cases hscopes : h.getAll admissionScopeHeader with
  | nil =>
      cases htokens : h.getAll admissionTokenHeader with
      | nil => exact absurd ⟨hscopes, htokens⟩ habsent
      | cons token tokens => rfl
  | cons scope scopes =>
      cases htokens : h.getAll admissionTokenHeader with
      | nil => rfl
      | cons token tokens =>
          rw [hscopes, htokens] at hsingle
          exact if_pos (not_and_or.mp hsingle)

theorem fromHeaders_single {scopeValue tokenValue : HeaderValue}
    (hscope : h.getAll admissionScopeHeader = [scopeValue])
    (htoken : h.getAll admissionTokenHeader = [tokenValue]) :
    (∃ ticket, fromHeaders h = .ok (some ticket)) ∨ fromHeaders h = .error .invalidTicket := by
  rw [fromHeaders_eq hscope htoken]
  cases scopeValue.toStr with
  | none => exact Or.inr rfl
  | some scope =>
      cases tokenValue.toStr with
      | none => exact Or.inr rfl
      | some token =>
          dsimp only
          cases hnew : AdmissionTicket.new scope token with
          | ok ticket => exact Or.inl ⟨ticket, rfl⟩
          | error e =>
              obtain rfl := new_error hnew
              exact Or.inr rfl

theorem regular_cases (h : HeaderMap) :
    (h.getAll admissionScopeHeader = [] ∧ h.getAll admissionTokenHeader = []) ∨
    (∃ scopeValue tokenValue, h.getAll admissionScopeHeader = [scopeValue] ∧
      h.getAll admissionTokenHeader = [tokenValue]) ∨
    fromHeaders h = .error .invalidTicket := by
  by_cases habsent : h.getAll admissionScopeHeader = [] ∧ h.getAll admissionTokenHeader = []
  · exact Or.inl habsent
  · by_cases hsingle : (h.getAll admissionScopeHeader).length = 1 ∧
        (h.getAll admissionTokenHeader).length = 1
    · obtain ⟨scopeValue, hscope⟩ := List.length_eq_one_iff.mp hsingle.1
      obtain ⟨tokenValue, htoken⟩ := List.length_eq_one_iff.mp hsingle.2
      exact Or.inr (Or.inl ⟨scopeValue, tokenValue, hscope, htoken⟩)
    · exact Or.inr (Or.inr (fromHeaders_irregular habsent hsingle))

theorem fromHeaders_none_iff : fromHeaders h = .ok none ↔
    h.getAll admissionScopeHeader = [] ∧ h.getAll admissionTokenHeader = [] := by
  constructor
  · intro hnone
    rcases regular_cases h with habsent | ⟨scopeValue, tokenValue, hscope, htoken⟩ | herror
    · exact habsent
    · rcases fromHeaders_single hscope htoken with ⟨ticket, hsome⟩ | herror
      · rw [hnone] at hsome
        cases hsome
      · rw [hnone] at herror
        cases herror
    · rw [hnone] at herror
      cases herror
  · rintro ⟨hscope, htoken⟩
    exact fromHeaders_absent hscope htoken

theorem fromHeaders_some_iff {ticket : AdmissionTicket} :
    fromHeaders h = .ok (some ticket) ↔ Encodes h ticket := by
  constructor
  · intro hsome
    rcases regular_cases h with ⟨hscope, htoken⟩ | ⟨scopeValue, tokenValue, hscope, htoken⟩ | herror
    · rw [fromHeaders_absent hscope htoken] at hsome
      cases hsome
    · obtain ⟨scope, token, hscopeText, htokenText, hnew⟩ := (fromHeaders_iff hscope htoken).mp hsome
      exact ⟨scopeValue, tokenValue, scope, token, hscope, htoken, hscopeText, htokenText, hnew⟩
    · rw [hsome] at herror
      cases herror
  · rintro ⟨scopeValue, tokenValue, scope, token, hscope, htoken, hscopeText, htokenText, hnew⟩
    exact (fromHeaders_iff hscope htoken).mpr ⟨scope, token, hscopeText, htokenText, hnew⟩

theorem fromHeaders_error_of
    (habsent : ¬ (h.getAll admissionScopeHeader = [] ∧ h.getAll admissionTokenHeader = []))
    (hencodes : ∀ ticket, ¬ Encodes h ticket) : fromHeaders h = .error .invalidTicket := by
  rcases regular_cases h with hnone | ⟨scopeValue, tokenValue, hscope, htoken⟩ | herror
  · exact absurd hnone habsent
  · rcases fromHeaders_single hscope htoken with ⟨ticket, hsome⟩ | herror
    · exact absurd (fromHeaders_some_iff.mp hsome) (hencodes ticket)
    · exact herror
  · exact herror

theorem Encodes.values {ticket : AdmissionTicket} (hencodes : Encodes h ticket) :
    h.getAll admissionScopeHeader = [ticket.scopeValue] ∧
      h.getAll admissionTokenHeader = [ticket.tokenValue] := by
  obtain ⟨scopeValue, tokenValue, scope, token, hscope, htoken, hscopeText, htokenText, hnew⟩ :=
    hencodes
  obtain ⟨-, -, hscopeStr, htokenStr⟩ := new_values hnew
  have hscopeValue : scopeValue = ticket.scopeValue := by
    rw [HeaderValue.mk.injEq, bytes_of_fromStr hscopeStr, utf8_of_toStr hscopeText]
  have htokenValue : tokenValue = ticket.tokenValue := by
    rw [HeaderValue.mk.injEq, bytes_of_fromStr htokenStr, utf8_of_toStr htokenText]
  rw [hscope, htoken, hscopeValue, htokenValue]
  exact ⟨rfl, rfl⟩

end AdmissionTicket

/-! ## Writing headers -/

/-- The headers are those of the ticket, and its texts can be read back from them. -/
structure Delivers (h : HeaderMap) (ticket : AdmissionTicket) : Prop where
  scope : h.getAll admissionScopeHeader = [ticket.scopeValue]
  token : h.getAll admissionTokenHeader = [ticket.tokenValue]
  decoded : ∃ rebuilt, AdmissionTicket.fromHeaders h = .ok (some rebuilt) ∧
    rebuilt.scope = ticket.scope ∧ rebuilt.token = ticket.token

theorem delivers_of_values {h : HeaderMap} {ticket : AdmissionTicket}
    (hticket : ticket.Constructed) (hscope : h.getAll admissionScopeHeader = [ticket.scopeValue])
    (htoken : h.getAll admissionTokenHeader = [ticket.tokenValue]) : Delivers h ticket := by
  obtain ⟨rebuilt, hnew⟩ := hticket.renewed
  refine ⟨hscope, htoken, rebuilt, ?_, AdmissionTicket.of_new hnew⟩
  apply AdmissionTicket.fromHeaders_some_iff.mpr
  exact ⟨_, _, _, _, hscope, htoken, ticket.scope_toStr, ticket.token_toStr, hnew⟩

namespace FallbackProxy

/-- The ticket is attached after the filter, so no nomination removes it. -/
theorem delivers_of_prepareRequest {B : Type} {lib : UriLibrary} {self : FallbackProxy}
    {request request' : Request B} {peer : SocketAddr} {upgrade : Bool} {ticket : AdmissionTicket}
    (hticket : ticket.Constructed) (hcarried : request.extensions.ticket = some ticket)
    (h : self.prepareRequest lib request peer upgrade = .ok (.ok request')) :
    Delivers request'.headers ticket := by
  apply delivers_of_values hticket
  · rw [getAll_prepareRequest h (by decide), hcarried]
    dsimp only
    rw [if_neg admissionScopeHeader_ne_token, if_pos rfl]
  · rw [getAll_prepareRequest h (by decide), hcarried]
    dsimp only
    rw [if_pos rfl]

theorem ticket_of_prepareRequest {B : Type} {lib : UriLibrary} {self : FallbackProxy}
    {request request' : Request B} {peer : SocketAddr} {upgrade : Bool}
    (h : self.prepareRequest lib request peer upgrade = .ok (.ok request')) :
    request'.extensions.ticket = request.extensions.ticket := by
  obtain ⟨authority, p, -, -, rfl⟩ := prepareRequest_ok h
  cases hticket : request.extensions.ticket with
  | none => exact hticket
  | some ticket => rfl

def Misses (out : Request GatewayBody) : Prop :=
  ∃ ticket, out.extensions.ticket = some ticket ∧ ticket.Constructed ∧ ¬ Delivers out.headers ticket

theorem attempt_avoids_misses {P : Type} (lib : UriLibrary) (o : AttemptOp) :
    (attempt (P := P) lib o).Avoids (Sends Misses) := by
  apply attempt_avoids_sends o
  rintro prepared hprepare ⟨ticket, hcarried, hticket, hnot⟩
  have hrequest : o.request.extensions.ticket = some ticket := by
    rw [← ticket_of_prepareRequest hprepare]
    exact hcarried
  have hdelivers : Delivers prepared.headers ticket :=
    delivers_of_prepareRequest hticket hrequest hprepare
  exact hnot hdelivers

end FallbackProxy

namespace Gateway

variable {P Index Cors : Type} {lib : GatewayLibraries Index Cors} {g : Gateway P Index Cors}

open FallbackProxy

theorem dispatch_avoids_misses (service : OriginService) (o : (gatewaySig P).Op) :
    (g.dispatch lib service o).Avoids (Sends Misses) := by
  cases o with
  | panic message =>
      refine ⟨?_, fun x => Empty.elim x⟩
      rintro ⟨out, hout, -⟩
      cases hout
  | acquire provider call timeoutMs =>
      refine ⟨?_, fun _ => trivial⟩
      rintro ⟨out, hout, -⟩
      cases hout
  | call request peer =>
      exact (Prog.avoids_never _).subst fun o _ => attempt_avoids_misses lib.uris o
  | forward request peer =>
      exact (Prog.avoids_never _).subst fun o _ => attempt_avoids_misses lib.uris o

theorem delivers_of_steps {service : OriginService} {request : Request Incoming} {peer : SocketAddr}
    {tr : List (Event (httpSig P))} {out : Request GatewayBody}
    {k : Except ClientError ClientResponse → Prog (httpSig P) Response} {ticket : AdmissionTicket}
    (hsteps : Prog.Steps (g.handleOrigin lib service request peer) tr (.op (.request out) k))
    (hcarried : out.extensions.ticket = some ticket) (hticket : ticket.Constructed) :
    Delivers out.headers ticket := by
  have havoids : (g.handleOrigin lib service request peer).Avoids (Sends Misses) :=
    (Prog.avoids_never _).subst fun o _ => dispatch_avoids_misses service o
  by_contra hnot
  exact havoids.of_steps hsteps ⟨out, rfl, ticket, hcarried, hticket, hnot⟩

end Gateway

/-- A ticket reaches the upstream as it was made, and headers are read as tickets in no other
case. -/
theorem ticket_headers_survive :
    (∀ (lib : UriLibrary) (self : FallbackProxy) (request request' : Request Incoming)
      (peer : SocketAddr) (upgrade : Bool) (ticket : AdmissionTicket), ticket.Constructed →
      self.prepareRequest lib (ticket.attach (Gateway.strip request)) peer upgrade =
        .ok (.ok request') → Delivers request'.headers ticket) ∧
    (∀ (P Index Cors : Type) (lib : GatewayLibraries Index Cors) (g : Gateway P Index Cors)
      (service : OriginService) (request : Request Incoming) (peer : SocketAddr)
      (tr : List (Event (httpSig P))) (out : Request GatewayBody)
      (k : Except ClientError ClientResponse → Prog (httpSig P) Response) (ticket : AdmissionTicket),
      Prog.Steps (g.handleOrigin lib service request peer) tr (.op (.request out) k) →
      out.extensions.ticket = some ticket → ticket.Constructed → Delivers out.headers ticket) ∧
    ∀ h : HeaderMap,
      (AdmissionTicket.fromHeaders h = .ok none ↔
        h.getAll admissionScopeHeader = [] ∧ h.getAll admissionTokenHeader = []) ∧
      (∀ ticket, AdmissionTicket.fromHeaders h = .ok (some ticket) ↔
        AdmissionTicket.Encodes h ticket) ∧
      (¬ (h.getAll admissionScopeHeader = [] ∧ h.getAll admissionTokenHeader = []) →
        (∀ ticket, ¬ AdmissionTicket.Encodes h ticket) →
        AdmissionTicket.fromHeaders h = .error .invalidTicket) ∧
      ∀ ticket, AdmissionTicket.fromHeaders h = .ok (some ticket) →
        ∀ (B : Type) (request : Request B),
          (ticket.attach request).headers.getAll admissionScopeHeader =
            h.getAll admissionScopeHeader ∧
          (ticket.attach request).headers.getAll admissionTokenHeader =
            h.getAll admissionTokenHeader := by
  refine ⟨?_, ?_, ?_⟩
  · intro lib self request request' peer upgrade ticket hticket h
    exact FallbackProxy.delivers_of_prepareRequest hticket rfl h
  · intro P Index Cors lib g service request peer tr out k ticket hsteps hcarried hticket
    exact Gateway.delivers_of_steps hsteps hcarried hticket
  · intro h
    refine ⟨AdmissionTicket.fromHeaders_none_iff, fun _ => AdmissionTicket.fromHeaders_some_iff,
      AdmissionTicket.fromHeaders_error_of, ?_⟩
    intro ticket hsome B request
    obtain ⟨hscope, htoken⟩ := (AdmissionTicket.fromHeaders_some_iff.mp hsome).values
    rw [hscope, htoken, FallbackProxy.getAll_attach, FallbackProxy.getAll_attach,
      if_neg admissionScopeHeader_ne_token, if_pos rfl, if_pos rfl]
    exact ⟨rfl, rfl⟩

theorem plainTicket_constructed : plainTicket.Constructed :=
  @AdmissionTicket.Constructed.new "writes" "t0" plainTicket rfl

/-- A request with forged values, admitted and sent. -/
theorem ticket_headers_survive_forged :
    ∃ (e : Event (httpSig Unit)) (out : Request GatewayBody)
      (k : Except ClientError ClientResponse → Prog (httpSig Unit) Response),
      Prog.Steps (plainGateway.handleOrigin plainLibraries plainService forgedRequest ⟨"10.0.0.1"⟩)
        [e] (.op (.request out) k) ∧ Delivers out.headers plainTicket := by
  have hruns : (plainGateway.handleOrigin plainLibraries plainService forgedRequest
      ⟨"10.0.0.1"⟩).Runs
        [⟨.acquire () _ _, some (.ok (.acquired plainTicket))⟩,
          ⟨.request _, .ok (plainResponse 200)⟩] _ :=
    .op (.op (.refl _))
  obtain ⟨k, hsteps⟩ := @Prog.Steps.before (httpSig Unit) Response _ _ [_] [] _ _ hruns
  refine ⟨_, _, k, hsteps, ?_⟩
  exact ticket_headers_survive.2.1 Unit Unit Unit plainLibraries plainGateway plainService
    forgedRequest ⟨"10.0.0.1"⟩ _ _ k plainTicket hsteps rfl plainTicket_constructed

end BreezeGateway
