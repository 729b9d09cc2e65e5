import BreezeGateway.Dispatch

/-!
# No request panics

The checks that the `expect`s and the index of the request path rely on: construction for the
registry and the admissions, the early return of `try_forward_body` for the authority.
-/

namespace BreezeGateway

open Effects

variable {P Index Cors : Type}

def HttpOp.IsPanic : (httpSig P).Op → Prop
  | .panic _ => True
  | _ => False

namespace FallbackProxy

variable {self : FallbackProxy} {request : Request GatewayBody}

theorem authority_of_not_noOrigin (h : ¬ NoOrigin self request) :
    (ticketAuthority request).or self.authority ≠ none := by
  intro hnone
  obtain ⟨hticket, hauthority⟩ := Option.or_eq_none_iff.mp hnone
  refine h ⟨hauthority, ?_⟩
  unfold ticketAuthority at hticket
  cases horigin : request.extensions.ticket.bind AdmissionTicket.origin with
  | none => rfl
  | some origin =>
      obtain ⟨ticket, -, hticket'⟩ := Option.bind_eq_some_iff.mp horigin
      have hsome := Uri.authority_isSome_of_isHttpOrigin (ticket.origin_http origin hticket')
      rw [horigin, Option.bind_some] at hticket
      rw [hticket] at hsome
      cases hsome

theorem attempt_avoids_panic (uris : UriLibrary) (o : AttemptOp) :
    (attempt (P := P) uris o).Avoids HttpOp.IsPanic := by
  apply attempt_avoids o
  · intro p horigin hpanic
    obtain ⟨r, hprepare⟩ : ∃ r,
        o.proxy.prepareRequest uris o.request o.peer (isUpgrade o.request.headers) = .ok r :=
      prepareRequest_total (authority_of_not_noOrigin horigin)
    rw [hprepare] at hpanic
    cases hpanic
  · exact fun _ _ => id
  · exact fun _ _ _ => id

end FallbackProxy

namespace Gateway

variable {lib : GatewayLibraries Index Cors} {g : Gateway P Index Cors}

theorem dispatch_avoids_panic (service : OriginService) (o : (gatewaySig P).Op) (ho : ¬ IsPanic o) :
    (g.dispatch lib service o).Avoids HttpOp.IsPanic := by
  cases o with
  | panic message => exact absurd trivial ho
  | acquire provider call timeoutMs => exact ⟨id, fun _ => trivial⟩
  | call request peer =>
      exact (Prog.avoids_never _).subst fun o _ => FallbackProxy.attempt_avoids_panic lib.uris o
  | forward request peer =>
      exact (Prog.avoids_never _).subst fun o _ => FallbackProxy.attempt_avoids_panic lib.uris o

end Gateway

/-- No answer of the provider, the recorder or the fallback takes a request to a panic, and the
texts of every ticket can be read. -/
theorem request_never_panics {lib : GatewayLibraries Index Cors} {g : Gateway P Index Cors}
    (hlib : lib.router.Positional) (hg : Gateway.Built lib g) (service : OriginService)
    (request : Request Incoming) (peer : SocketAddr) :
    (∀ tr message k,
      ¬ Prog.Steps (g.handleOrigin lib service request peer) tr (.op (.panic message) k)) ∧
    ∀ ticket : AdmissionTicket,
      ticket.scopeValue.toStr = some ticket.scope ∧ ticket.tokenValue.toStr = some ticket.token := by
  refine ⟨?_, fun ticket => ⟨ticket.scope_toStr, ticket.token_toStr⟩⟩
  intro tr message k hsteps
  have hhandle : (g.handle lib request peer).Avoids Gateway.IsPanic :=
    Gateway.handle_avoids_panic hg.checked hlib
  have havoids : (g.handleOrigin lib service request peer).Avoids HttpOp.IsPanic :=
    hhandle.subst (Gateway.dispatch_avoids_panic service)
  exact havoids.of_steps hsteps trivial

theorem request_never_panics_recorded :
    ∃ tr response,
      (plainGateway.handleOrigin plainLibraries plainService recordedRequest ⟨"10.0.0.1"⟩).Runs
        tr response ∧ tr.countP isSent = 2 ∧
      ∀ tr message k, ¬ Prog.Steps (plainGateway.handleOrigin plainLibraries plainService
        recordedRequest ⟨"10.0.0.1"⟩) tr (.op (.panic message) k) := by
  have hruns : (plainGateway.handleOrigin plainLibraries plainService recordedRequest
      ⟨"10.0.0.1"⟩).Runs
        [⟨.acquire () _ _, some (.ok (.acquired plainTicket))⟩,
          ⟨.request _, .ok (plainResponse 404)⟩, ⟨.request _, .ok (plainResponse 201)⟩] _ :=
    .op (.op (.op (.refl _)))
  exact ⟨_, _, hruns, rfl, (request_never_panics plainRouting_positional plainGateway_built
    plainService recordedRequest ⟨"10.0.0.1"⟩).1⟩

end BreezeGateway
