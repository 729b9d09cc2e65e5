import BreezeGateway.Dispatch

/-!
# The replayed request

The request that the fallback gets after a recording attempt is the one it would have got at once.
-/

namespace BreezeGateway

open Effects

/-! ## Frames of a retained body -/

def Frame.bytes : Frame → Bytes
  | .data bytes => bytes
  | .trailers _ => []

def Frame.trailerMap : Frame → Option HeaderMap
  | .data _ => none
  | .trailers map => some map

namespace ReplayBody

def left (self : ReplayBody) : List Frame :=
  (match self.bytes with
    | some bytes => if bytes ≠ [] then [.data bytes] else []
    | none => []) ++ (self.trailers.map Frame.trailers).toList

/-- `Polls b fs b'`: being polled, `b` has yielded `fs` and become `b'`. -/
inductive Polls (b : ReplayBody) : List Frame → ReplayBody → Prop where
  | refl : Polls b [] b
  | frame {fs : List Frame} {b' : ReplayBody} {f : Frame} (h : Polls b fs b')
      (hpoll : b'.pollFrame.1 = some f) : Polls b (fs ++ [f]) b'.pollFrame.2
  | ended {fs : List Frame} {b' : ReplayBody} (h : Polls b fs b') (hpoll : b'.pollFrame.1 = none) :
      Polls b fs b'.pollFrame.2

/-- The bytes retained are never an empty chunk. -/
def WellFormed (self : ReplayBody) : Prop := self.bytes ≠ some []

theorem replayBody_wellFormed (bytes : Bytes) (trailers : Option HeaderMap) :
    (replayBody bytes trailers).WellFormed := by
  unfold WellFormed replayBody
  by_cases hb : bytes = []
  · simp [hb]
  · simp [hb]

theorem replayBody_left (bytes : Bytes) (trailers : Option HeaderMap) :
    (replayBody bytes trailers).left =
      (if bytes ≠ [] then [.data bytes] else []) ++ (trailers.map Frame.trailers).toList := by
  unfold left replayBody
  by_cases hb : bytes = []
  · simp [hb]
  · simp [hb]

variable {b b' : ReplayBody} {fs : List Frame}

theorem pollFrame_wellFormed (h : b.WellFormed) : b.pollFrame.2.WellFormed := by
  obtain ⟨bytes, trailers⟩ := b
  cases bytes with
  | none => exact h
  | some bytes =>
      unfold pollFrame WellFormed
      dsimp only
      split <;> simp

theorem left_pollFrame (b : ReplayBody) :
    b.left = b.pollFrame.1.toList ++ b.pollFrame.2.left := by
  obtain ⟨bytes, trailers⟩ := b
  cases bytes with
  | none => cases trailers <;> rfl
  | some bytes =>
      by_cases hb : bytes = []
      · subst hb
        cases trailers <;> rfl
      · cases trailers with
        | none => simp [left, pollFrame, hb]
        | some trailers => simp [left, pollFrame, hb]

theorem pollFrame_head (b : ReplayBody) : b.pollFrame.1 = b.left.head? := by
  obtain ⟨bytes, trailers⟩ := b
  cases bytes with
  | none => cases trailers <;> rfl
  | some bytes =>
      by_cases hb : bytes = []
      · subst hb
        cases trailers <;> rfl
      · simp [left, pollFrame, hb]

theorem Polls.wellFormed (h : Polls b fs b') (hb : b.WellFormed) : b'.WellFormed := by
  induction h with
  | refl => exact hb
  | frame h hpoll ih => exact pollFrame_wellFormed ih
  | ended h hpoll ih => exact pollFrame_wellFormed ih

/-- Every frame is yielded once, in order. -/
theorem Polls.frames (h : Polls b fs b') : fs ++ b'.left = b.left := by
  induction h with
  | refl => rfl
  | @frame fs b' f h hpoll ih =>
      rw [← ih, left_pollFrame b', hpoll]
      simp
  | @ended fs b' h hpoll ih =>
      rw [← ih, left_pollFrame b', hpoll]
      simp

theorem isEndStream_iff (h : b.WellFormed) : b.isEndStream = true ↔ b.left = [] := by
  obtain ⟨bytes, trailers⟩ := b
  cases bytes with
  | none => cases trailers <;> simp [isEndStream, left]
  | some bytes =>
      have hb : bytes ≠ [] := fun hb => h (congrArg some hb)
      cases trailers <;> simp [isEndStream, left, hb]

/-- The hint is exact once no trailers are left, and then counts the bytes still to come. -/
theorem exact_sizeHint (b : ReplayBody) :
    b.sizeHint.exact =
      if b.left.filterMap Frame.trailerMap = [] then some (b.left.flatMap Frame.bytes).length
      else none := by
  obtain ⟨bytes, trailers⟩ := b
  cases trailers with
  | some trailers =>
      cases bytes with
      | none => rfl
      | some bytes =>
          by_cases hb : bytes = []
          · subst hb
            rfl
          · simp [sizeHint, left, hb, Frame.trailerMap, SizeHint.exact, SizeHint.new]
  | none =>
      cases bytes with
      | none => rfl
      | some bytes =>
          by_cases hb : bytes = []
          · subst hb
            rfl
          · simp [sizeHint, left, hb, Frame.trailerMap, Frame.bytes, SizeHint.exact, SizeHint.setExact]

end ReplayBody

/-! ## The requests an attempt sends -/

/-- The bytes and the trailers that a client reads from a body, unless it breaks. -/
def GatewayBody.content : GatewayBody → Option (Bytes × Option HeaderMap)
  | .incoming body => body.collect.map fun collected => (collected.bytes, collected.trailers)
  | .replay body =>
      some (body.left.flatMap Frame.bytes, (body.left.filterMap Frame.trailerMap).head?)
  | .full bytes => some (bytes, none)

theorem content_replayBody (bytes : Bytes) (trailers : Option HeaderMap) :
    GatewayBody.content (.replay (replayBody bytes trailers)) = some (bytes, trailers) := by
  unfold GatewayBody.content
  dsimp only
  rw [ReplayBody.replayBody_left]
  by_cases hb : bytes = []
  · subst hb
    cases trailers <;> rfl
  · cases trailers <;> simp [hb, Frame.bytes, Frame.trailerMap, List.findSome?]

/-- Two requests that a server cannot tell apart. -/
structure SameSent (request request' : Request GatewayBody) : Prop where
  method : request.method = request'.method
  uri : request.uri = request'.uri
  version : request.version = request'.version
  headers : request.headers = request'.headers
  body : request.body.content = request'.body.content

def sentRequest {P : Type} (e : Event (httpSig P)) : Option (Request GatewayBody) :=
  match e with
  | ⟨.request request, _⟩ => some request
  | _ => none

namespace FallbackProxy

variable {P : Type} {lib : UriLibrary} {self : FallbackProxy}
  {request request' prepared prepared' : Request GatewayBody} {peer : SocketAddr}
  {downstream downstream' : Option OnUpgrade} {tr tr' : List (Event (httpSig P))} {r r' : Attempt}

theorem sentRequest_of_run (h : AttemptRun lib self request peer downstream tr r) :
    (tr.filterMap sentRequest = [] ∧
      (NoOrigin self request ∨
        ∃ e, self.prepareRequest lib request peer (isUpgrade request.headers) = .ok (.error e))) ∨
    ∃ prepared, Prepares lib self request peer prepared ∧ ¬ NoOrigin self request ∧
      tr.filterMap sentRequest = [sent prepared] := by
  cases h with
  | missing h => exact Or.inl ⟨rfl, Or.inl h⟩
  | unprepared h hprepare => exact Or.inl ⟨rfl, Or.inr ⟨_, hprepare⟩⟩
  | connectFailure h hprepare => exact Or.inr ⟨_, hprepare, h, rfl⟩
  | unavailable h hprepare => exact Or.inr ⟨_, hprepare, h, rfl⟩
  | answered h hprepare => exact Or.inr ⟨_, hprepare, h, rfl⟩
  | switched h hprepare => exact Or.inr ⟨_, hprepare, h, rfl⟩
  | unattended h hprepare => exact Or.inr ⟨_, hprepare, h, rfl⟩

/-- Requests without a ticket that differ only in how they carry their body. -/
structure SameHead (request request' : Request GatewayBody) : Prop where
  sent : SameSent request request'
  ticket : request.extensions.ticket = none
  ticket' : request'.extensions.ticket = none

theorem SameHead.refl_left (h : SameHead request request') : SameHead request request :=
  ⟨⟨rfl, rfl, rfl, rfl, rfl⟩, h.ticket, h.ticket⟩

theorem noOrigin_congr (h : SameHead request request') :
    NoOrigin self request ↔ NoOrigin self request' := by
  unfold NoOrigin
  rw [h.ticket, h.ticket']

theorem prepareRequest_unticketed (h : request.extensions.ticket = none) (upgrade : Bool) :
    self.prepareRequest lib request peer upgrade =
      match self.authority with
      | none => .error ⟨"an origin is required before preparing the request"⟩
      | some authority =>
          match lib.build self.scheme authority
              ((request.uri.pathAndQuery.map PathAndQuery.asStr).getD "/") with
          | .error e => .ok (.error e)
          | .ok uri => .ok (.ok { request with
              uri := uri, headers := prepareHeaders request.headers peer upgrade }) := by
  unfold prepareRequest ticketAuthority
  rw [h]
  simp only [Option.bind_none, Option.none_or]
  cases self.authority with
  | none => rfl
  | some authority =>
      simp only [expect]
      change (match lib.build self.scheme authority _ with
        | .error e => _
        | .ok uri => _) = _
      cases lib.build self.scheme authority
          ((request.uri.pathAndQuery.map PathAndQuery.asStr).getD "/") with
      | error e => rfl
      | ok uri =>
          dsimp only
          rw [h]
          rfl

theorem prepareRequest_congr (h : SameHead request request') (upgrade : Bool) :
    (∃ e, self.prepareRequest lib request peer upgrade = .ok (.error e) ∧
      self.prepareRequest lib request' peer upgrade = .ok (.error e)) ∨
    (∃ prepared prepared', self.prepareRequest lib request peer upgrade = .ok (.ok prepared) ∧
      self.prepareRequest lib request' peer upgrade = .ok (.ok prepared') ∧
      SameSent (sent prepared) (sent prepared') ∧
      prepared.headers = prepareHeaders request.headers peer upgrade) ∨
    (∃ p, self.prepareRequest lib request peer upgrade = .error p ∧
      self.prepareRequest lib request' peer upgrade = .error p) := by
  obtain ⟨hmethod, huri, hversion, hheaders, hbody⟩ := h.sent
  rw [prepareRequest_unticketed h.ticket, prepareRequest_unticketed h.ticket', ← huri]
  cases self.authority with
  | none => exact Or.inr (Or.inr ⟨_, rfl, rfl⟩)
  | some authority =>
      dsimp only
      cases lib.build self.scheme authority
          ((request.uri.pathAndQuery.map PathAndQuery.asStr).getD "/") with
      | error e => exact Or.inl ⟨e, rfl, rfl⟩
      | ok uri =>
          refine Or.inr (Or.inl ⟨_, _, rfl, rfl, ⟨hmethod, rfl, hversion, ?_, hbody⟩, rfl⟩)
          exact congrArg (fun headers => prepareHeaders headers peer upgrade) hheaders

theorem sent_congr (h : SameHead request request')
    (hrun : AttemptRun lib self request peer downstream tr r)
    (hrun' : AttemptRun lib self request' peer downstream' tr' r') :
    List.Forall₂ SameSent (tr.filterMap sentRequest) (tr'.filterMap sentRequest) ∧
      ∀ s ∈ tr.filterMap sentRequest,
        s.headers = prepareHeaders request.headers peer (isUpgrade request.headers) := by
  have hupgrade : isUpgrade request'.headers = isUpgrade request.headers :=
    congrArg isUpgrade h.sent.headers.symm
  have horigin : NoOrigin self request ↔ NoOrigin self request' := noOrigin_congr h
  have hcongr := @prepareRequest_congr lib self request request' peer h (isUpgrade request.headers)
  rcases sentRequest_of_run hrun with ⟨hnil, hwhy⟩ | ⟨prepared, hprepare, hno, hone⟩
  · rcases sentRequest_of_run hrun' with ⟨hnil', -⟩ | ⟨prepared', hprepare', hno', -⟩
    · rw [hnil, hnil']
      exact ⟨.nil, by simp⟩
    · exfalso
      unfold Prepares at hprepare'
      rw [hupgrade] at hprepare'
      rcases hwhy with hwhy | ⟨e, hwhy⟩
      · exact hno' (horigin.mp hwhy)
      · rcases hcongr with ⟨e', -, he⟩ | ⟨p, p', hp, -, -, -⟩ | ⟨e', -, he⟩
        · cases he.symm.trans hprepare'
        · cases hp.symm.trans hwhy
        · cases he.symm.trans hprepare'
  · rcases sentRequest_of_run hrun' with ⟨hnil', hwhy⟩ | ⟨prepared', hprepare', hno', hone'⟩
    · exfalso
      unfold Prepares at hprepare
      rw [hupgrade] at hwhy
      rcases hwhy with hwhy | ⟨e, hwhy⟩
      · exact hno (horigin.mpr hwhy)
      · rcases hcongr with ⟨e', he, -⟩ | ⟨p, p', -, hp', -, -⟩ | ⟨e', he, -⟩
        · cases he.symm.trans hprepare
        · cases hp'.symm.trans hwhy
        · cases he.symm.trans hprepare
    · unfold Prepares at hprepare hprepare'
      rw [hupgrade] at hprepare'
      rw [hone, hone']
      rcases hcongr with ⟨e', he, -⟩ | ⟨p, p', hp, hp', hsame, hheaders⟩ | ⟨e', he, -⟩
      · cases he.symm.trans hprepare
      · obtain rfl := Except.ok.inj (Except.ok.inj (hp.symm.trans hprepare))
        obtain rfl := Except.ok.inj (Except.ok.inj (hp'.symm.trans hprepare'))
        refine ⟨.cons hsame .nil, ?_⟩
        intro s hs
        obtain rfl := List.mem_singleton.mp hs
        exact hheaders
      · cases he.symm.trans hprepare

end FallbackProxy

/-! ## The replay of an admitted request -/

open FallbackProxy

section

variable {P Index Cors : Type} {uris : UriLibrary} {lib : CorsLibrary Cors}
  {self : Gateway P Index Cors} {service : OriginService} {incoming recorded : Request Incoming}
  {rule : AdmissionRule} {ticket : AdmissionTicket} {peer : SocketAddr} {response : Response}

theorem admitted_fields
    (h : self.admitted (Gateway.strip incoming) rule (.ok (.acquired ticket)) = (true, recorded)) :
    recorded.method = incoming.method ∧ recorded.uri = incoming.uri ∧
      recorded.version = incoming.version ∧ recorded.body = incoming.body ∧
      recorded.headers = (ticket.attach (Gateway.strip incoming)).headers ∧
      recorded.extensions.recordingFallback = some self.fallback := by
  unfold Gateway.admitted at h
  dsimp only at h
  split at h
  · obtain ⟨-, rfl⟩ := Prod.mk.inj h
    exact ⟨rfl, rfl, rfl, rfl, rfl, rfl⟩
  · cases congrArg Prod.fst h

/-- Attaching a ticket and removing its headers leaves a stripped request as it was. -/
theorem remove_attached (ticket : AdmissionTicket) (incoming : Request Incoming) :
    (((ticket.attach (Gateway.strip incoming)).headers.remove admissionScopeHeader).remove
      admissionTokenHeader) = (Gateway.strip incoming).headers := by
  ext1
  funext n
  unfold AdmissionTicket.attach Gateway.strip
  by_cases ht : n = admissionTokenHeader
  · subst ht
    simp [HeaderMap.values_remove]
  · by_cases hs : n = admissionScopeHeader
    · subst hs
      simp [HeaderMap.values_remove]
    · simp [HeaderMap.values_remove, HeaderMap.values_insert_of_ne, ht, hs]

theorem sameHead_of_recorded {stripped : Request Incoming} {fallback : FallbackProxy}
    {collected : Collected} {x : Attempt} (hmethod : recorded.method = stripped.method)
    (huri : recorded.uri = stripped.uri) (hversion : recorded.version = stripped.version)
    (hheaders : (recorded.headers.remove admissionScopeHeader).remove admissionTokenHeader =
      stripped.headers)
    (hbody : recorded.body = stripped.body) (hticket : stripped.extensions.ticket = none)
    (hcollect : recorded.body.collect = some collected) :
    SameHead (fallback.retryAttempt recorded collected peer x).request
      (fallback.forwardAttempt stripped peer).request := by
  obtain ⟨hm, hu, hv, -⟩ := handOver_head (bare recorded)
  obtain ⟨hm', hu', hv', ht'⟩ := handOver_head (stripped.mapBody GatewayBody.incoming)
  have hh := handOver_headers (bare recorded)
  have hh' := handOver_headers (stripped.mapBody GatewayBody.incoming)
  have hb' := handOver_body (stripped.mapBody GatewayBody.incoming)
  unfold retryAttempt forwardAttempt retryRequest
  generalize handOver (bare recorded) = retry at hm hu hv hh
  generalize handOver (stripped.mapBody GatewayBody.incoming) = forwarded at hm' hu' hv' ht' hh' hb'
  refine ⟨⟨?_, ?_, ?_, ?_, ?_⟩, rfl, ht'.trans hticket⟩
  · exact hm.trans (hmethod.trans hm'.symm)
  · exact hu.trans (huri.trans hu'.symm)
  · exact hv.trans (hversion.trans hv'.symm)
  · dsimp only
    rw [hh, hh']
    exact hheaders
  · dsimp only
    rw [content_replayBody, hb']
    change _ = stripped.body.collect.map _
    rw [← hbody, hcollect]
    rfl

theorem sameHead_retry {collected : Collected} {x : Attempt}
    (h : self.admitted (Gateway.strip incoming) rule (.ok (.acquired ticket)) = (true, recorded))
    (hbody : recorded.body.collect = some collected) :
    SameHead (self.fallback.retryAttempt recorded collected peer x).request
      (self.fallback.forwardAttempt (Gateway.strip incoming) peer).request := by
  obtain ⟨hmethod, huri, hversion, hsame, hheaders, -⟩ := admitted_fields h
  refine sameHead_of_recorded hmethod huri hversion ?_ hsame rfl hbody
  rw [hheaders]
  exact remove_attached ticket incoming

theorem retry_headers {collected : Collected} {x : Attempt}
    (h : self.admitted (Gateway.strip incoming) rule (.ok (.acquired ticket)) = (true, recorded)) :
    (self.fallback.retryAttempt recorded collected peer x).request.headers =
      (Gateway.strip incoming).headers := by
  obtain ⟨-, -, -, -, hheaders, -⟩ := admitted_fields h
  have hhanded : (handOver (bare recorded)).2.headers = recorded.headers :=
    handOver_headers (bare recorded)
  unfold retryAttempt retryRequest
  dsimp only
  rw [hhanded, hheaders]
  exact remove_attached ticket incoming

theorem strip_scope : (Gateway.strip incoming).headers.getAll admissionScopeHeader = [] := by
  unfold Gateway.strip HeaderMap.getAll
  simp [HeaderMap.values_remove]

theorem strip_token : (Gateway.strip incoming).headers.getAll admissionTokenHeader = [] := by
  unfold Gateway.strip HeaderMap.getAll
  simp [HeaderMap.values_remove]

theorem getAll_prepareHeaders_absent {h : HeaderMap} {upgrade : Bool} {n : HeaderName}
    (hfor : n ≠ xForwardedFor) (hproto : n ≠ xForwardedProto) (hhost : n ≠ xForwardedHost)
    (habsent : h.getAll n = []) : (prepareHeaders h peer upgrade).getAll n = [] := by
  rw [getAll_prepareHeaders hfor]
  exact preparedValues_absent hproto hhost habsent

theorem getAll_prepareHeaders_for {h : HeaderMap} {upgrade : Bool} :
    (prepareHeaders h peer upgrade).getAll xForwardedFor =
      (appendForwardedFor (removeHopByHopHeaders h upgrade) peer.ip).getAll xForwardedFor := by
  unfold prepareHeaders HeaderMap.getAll
  cases h.get host with
  | none => exact HeaderMap.values_entryOrInsert_of_ne _ _ xForwardedProto_ne_for.symm
  | some value =>
      dsimp only
      rw [HeaderMap.values_entryOrInsert_of_ne _ _ xForwardedHost_ne_for.symm,
        HeaderMap.values_entryOrInsert_of_ne _ _ xForwardedProto_ne_for.symm]

end

def plainRecorded : Request Incoming :=
  (plainGateway.admitted (Gateway.strip recordedRequest) ⟨"recorder", "writes", 50⟩
    (.ok (.acquired plainTicket))).2

/-- The attempts of a write that the recorder answers with 404. -/
def plainRecorder : Performed (attempt (P := Unit) literalUris) where
  op := plainService.proxy.recorderAttempt plainRecorded ⟨[1, 2, 3], none⟩ ⟨"10.0.0.1"⟩
  answer := (.ok (filtered (plainResponse 404).response), none)
  events := [⟨.request _, .ok (plainResponse 404)⟩]
  runs := .op (.refl _)

def plainRetry : Performed (attempt (P := Unit) literalUris) where
  op := plainGateway.fallback.retryAttempt plainRecorded ⟨[1, 2, 3], none⟩ ⟨"10.0.0.1"⟩
    (.ok (filtered (plainResponse 404).response), none)
  answer := (.ok (filtered (plainResponse 201).response), none)
  events := [⟨.request _, .ok (plainResponse 201)⟩]
  runs := .op (.refl _)

end BreezeGateway
