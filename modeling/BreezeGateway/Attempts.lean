import BreezeGateway.HopByHop
import BreezeGateway.Replay

/-!
# Attempts of an origin service

A call of an `OriginService` makes no attempt, one, or two; the second goes to the fallback.
-/

namespace BreezeGateway

open Effects

section

variable {B : Type}

/-- The request after `remove::<RecordingFallback>()`. -/
def bare (request : Request B) : Request B :=
  { request with extensions := { request.extensions with recordingFallback := none } }

/-- The upgrade handle of an upgrade request, and the request without it. -/
def handOver (request : Request B) : Option OnUpgrade × Request B :=
  if isUpgrade request.headers then (some request.takeUpgrade.1, request.takeUpgrade.2)
  else (none, request)

theorem handOver_headers (request : Request B) :
    (handOver request).2.headers = request.headers := by
  unfold handOver
  split <;> rfl

theorem handOver_congr {C : Type} {request : Request B} {request' : Request C}
    (hheaders : request'.headers = request.headers)
    (hupgrade : request'.extensions.upgrade = request.extensions.upgrade) :
    (handOver request').1 = (handOver request).1 := by
  unfold handOver Request.takeUpgrade
  rw [hheaders, hupgrade]
  split <;> rfl

theorem handOver_body (request : Request B) : (handOver request).2.body = request.body := by
  unfold handOver
  split <;> rfl

theorem handOver_head (request : Request B) :
    (handOver request).2.method = request.method ∧ (handOver request).2.uri = request.uri ∧
      (handOver request).2.version = request.version ∧
      (handOver request).2.extensions.ticket = request.extensions.ticket := by
  unfold handOver
  split <;> exact ⟨rfl, rfl, rfl, rfl⟩

end

theorem runs_map_perform {S : Sig} {α : Type} {o : S.Op} {f : S.Ans o → α} {tr : List (Event S)}
    {a : α} : (f <$> Prog.perform o).Runs tr a ↔ ∃ x, tr = [⟨o, x⟩] ∧ a = f x := by
  rw [Prog.perform, Prog.map_op, Prog.runs_op]
  constructor
  · rintro ⟨x, rest, rfl, h⟩
    obtain ⟨rfl, rfl⟩ := Prog.runs_ret.mp h
    exact ⟨x, rfl, rfl⟩
  · rintro ⟨x, rfl, rfl⟩
    exact ⟨x, [], rfl, Prog.runs_ret.mpr ⟨rfl, rfl⟩⟩

namespace FallbackProxy

def forwardAttempt (self : FallbackProxy) (request : Request Incoming) (peer : SocketAddr) :
    AttemptOp :=
  ⟨self, (handOver (request.mapBody GatewayBody.incoming)).2, peer,
    (handOver (request.mapBody GatewayBody.incoming)).1⟩

def recorderAttempt (self : FallbackProxy) (request : Request Incoming) (collected : Collected)
    (peer : SocketAddr) : AttemptOp :=
  ⟨self, (handOver (bare request)).2.mapBody fun _ =>
    .replay (replayBody collected.bytes collected.trailers), peer, (handOver (bare request)).1⟩

/-- The attempt at the fallback after the recorder has given `first`. -/
def retryAttempt (fallback : FallbackProxy) (request : Request Incoming) (collected : Collected)
    (peer : SocketAddr) (first : Attempt) : AttemptOp :=
  ⟨fallback, retryRequest (handOver (bare request)).2 collected, peer, first.2⟩

/-- The recorder could not be connected, or has answered 404 to a request without upgrade. -/
def Replays (request : Request Incoming) (first : Attempt) : Prop :=
  first.1 = .error .connectFailure ∨
    (isUpgrade request.headers = false ∧
      ∃ response, first.1 = .ok response ∧ response.status = statusNotFound)

variable {self : FallbackProxy} {request : Request Incoming} {peer : SocketAddr}
  {tr : List (Event attemptSig)} {response : Response}

theorem runs_forward : (self.forward request peer).Runs tr response ↔
    ∃ x : Attempt, tr = [⟨self.forwardAttempt request peer, x⟩] ∧ response = orUnavailable x.1 := by
  have hforward : self.forward request peer =
      (fun r : Attempt => orUnavailable r.1) <$>
        Prog.perform (S := attemptSig) (self.forwardAttempt request peer) := by
    rfl
  rw [hforward]
  exact runs_map_perform

/-- What `forward_recording` does, and what it returns. -/
inductive RecordingRun (self : FallbackProxy) (request : Request Incoming) (peer : SocketAddr) :
    List (Event attemptSig) → Response → Prop where
  | direct (x : Attempt) (h : request.extensions.recordingFallback = none) :
      RecordingRun self request peer [⟨self.forwardAttempt (bare request) peer, x⟩]
        (orUnavailable x.1)
  | unread {fallback : FallbackProxy} (h : request.extensions.recordingFallback = some fallback)
      (hbody : request.body.collect = none) :
      RecordingRun self request peer []
        (errorResponse statusBadRequest "failed to read request body")
  | settled {fallback : FallbackProxy} {collected : Collected} {x : Attempt}
      (h : request.extensions.recordingFallback = some fallback)
      (hbody : request.body.collect = some collected) (hx : ¬ Replays request x) :
      RecordingRun self request peer [⟨self.recorderAttempt request collected peer, x⟩]
        (orUnavailable x.1)
  | replayed {fallback : FallbackProxy} {collected : Collected} {x : Attempt} (y : Attempt)
      (h : request.extensions.recordingFallback = some fallback)
      (hbody : request.body.collect = some collected) (hx : Replays request x) :
      RecordingRun self request peer [⟨self.recorderAttempt request collected peer, x⟩,
          ⟨fallback.retryAttempt request collected peer x, y⟩]
        (orUnavailable y.1)

/-- What `forward_recording` does with the result of the recorder. -/
def afterRecorder (fallback : FallbackProxy) (request : Request Incoming) (collected : Collected)
    (peer : SocketAddr) (x : Attempt) : Prog attemptSig Response :=
  let replay := (fun y : Attempt => orUnavailable y.1) <$>
    Prog.perform (S := attemptSig) (fallback.retryAttempt request collected peer x)
  match x.1 with
  | .ok response =>
      if isUpgrade request.headers = false ∧ response.status = statusNotFound then replay
      else .ret response
  | .error _ => replay

theorem forwardRecording_direct (h : request.extensions.recordingFallback = none) :
    self.forwardRecording request peer = self.forward (bare request) peer := by
  unfold forwardRecording
  rw [h]
  rfl

theorem forwardRecording_recording {fallback : FallbackProxy}
    (h : request.extensions.recordingFallback = some fallback) :
    self.forwardRecording request peer =
      match request.body.collect with
      | none => .ret (errorResponse statusBadRequest "failed to read request body")
      | some collected =>
          .op (S := attemptSig) (self.recorderAttempt request collected peer)
            (afterRecorder fallback request collected peer) := by
  have hbody : (handOver (bare request)).2.body = request.body := handOver_body (bare request)
  rw [← hbody]
  unfold forwardRecording
  rw [h]
  rfl

theorem recordingRun_of_runs (h : (self.forwardRecording request peer).Runs tr response) :
    RecordingRun self request peer tr response := by
  cases hfallback : request.extensions.recordingFallback with
  | none =>
      rw [forwardRecording_direct hfallback] at h
      obtain ⟨x, rfl, rfl⟩ := runs_forward.mp h
      exact .direct x hfallback
  | some fallback =>
      cases hbody : request.body.collect with
      | none =>
          rw [forwardRecording_recording hfallback, hbody] at h
          obtain ⟨rfl, rfl⟩ := Prog.runs_ret.mp h
          exact .unread hfallback hbody
      | some collected =>
          rw [forwardRecording_recording hfallback, hbody] at h
          obtain ⟨x, rest, rfl, hrest⟩ := Prog.runs_op.mp h
          obtain ⟨result, downstream⟩ := x
          cases result with
          | error e =>
              obtain ⟨y, rfl, rfl⟩ := runs_map_perform.mp hrest
              exact .replayed y hfallback hbody (Or.inl rfl)
          | ok first =>
              simp only [afterRecorder] at hrest
              split at hrest
              · rename_i hreplays
                obtain ⟨y, rfl, rfl⟩ := runs_map_perform.mp hrest
                exact .replayed y hfallback hbody (Or.inr ⟨hreplays.1, first, rfl, hreplays.2⟩)
              · rename_i hreplays
                obtain ⟨rfl, rfl⟩ := Prog.runs_ret.mp hrest
                refine .settled hfallback hbody ?_
                rintro (hfailed | ⟨hupgrade, response', hok, hstatus⟩)
                · cases hfailed
                · obtain rfl := Except.ok.inj hok
                  exact hreplays ⟨hupgrade, hstatus⟩

end FallbackProxy

/-! ## At most one replay -/

section

variable {P Cors : Type}

def isSent (e : Event (httpSig P)) : Bool :=
  match e with
  | ⟨.request _, _⟩ => true
  | _ => false

def relayed (e : Event (httpSig P)) : Option OnUpgrade :=
  match e with
  | ⟨.relay _ downstream _, _⟩ => some downstream
  | _ => none

open FallbackProxy

variable {uris : UriLibrary} {lib : CorsLibrary Cors} {service : OriginService}
  {request : Request Incoming} {peer : SocketAddr} {response : Response}
  {tr : List (Event (httpSig P))} {calls : List (Performed (attempt (P := P) uris))}

theorem call_cases {tr : List (Event attemptSig)}
    (h : (service.call lib request peer).Runs tr response) :
    ∃ r, RecordingRun service.proxy request peer tr r ∧ response = service.trust lib r := by
  obtain ⟨r, tr₁, tr₂, rfl, hr, hret⟩ := Prog.runs_bind.mp h
  obtain ⟨rfl, rfl⟩ := Prog.runs_ret.mp hret
  rw [List.append_nil]
  exact ⟨r, recordingRun_of_runs hr, rfl⟩

theorem sent_at_most_once (c : Performed (attempt (P := P) uris)) : c.events.countP isSent ≤ 1 := by
  obtain ⟨o, x, tr, h⟩ := c
  have hrun := attemptRun_of_runs h
  cases hrun with
  | missing => exact Nat.zero_le _
  | unprepared => exact Nat.zero_le _
  | _ => exact le_rfl

theorem relayed_cases (c : Performed (attempt (P := P) uris)) :
    c.events.filterMap relayed = [] ∨
      ∃ d r, c.events.filterMap relayed = [d] ∧ c.op.downstream = some d ∧
        c.answer = (.ok r, none) ∧ r.status = statusSwitchingProtocols := by
  obtain ⟨o, x, tr, h⟩ := c
  have hrun := attemptRun_of_runs h
  cases hrun with
  | switched _ _ hstatus hd => exact Or.inr ⟨_, _, rfl, hd, rfl, hstatus⟩
  | _ => exact Or.inl rfl

theorem downstream_of_replays {c : Performed (attempt (P := P) uris)} {first : Attempt}
    (hanswer : c.answer = first) (h : Replays request first) :
    c.events.filterMap relayed = [] ∧ (first.2 = c.op.downstream ∨ first.2 = none) := by
  obtain ⟨o, x, tr, hruns⟩ := c
  obtain rfl : x = first := hanswer
  have hrun := attemptRun_of_runs hruns
  cases hrun with
  | switched _ _ hstatus hd =>
      rcases h with h | ⟨-, r, hr, hr404⟩
      · cases h
      · obtain rfl := Except.ok.inj hr
        cases hstatus.symm.trans hr404
  | unattended => exact ⟨rfl, Or.inr rfl⟩
  | _ => exact ⟨rfl, Or.inl rfl⟩

theorem handOver_some {B : Type} {request : Request B} {d : OnUpgrade}
    (h : (handOver request).1 = some d) :
    isUpgrade request.headers = true ∧ d = request.takeUpgrade.1 := by
  unfold handOver at h
  split at h
  · rename_i hupgrade
    exact ⟨hupgrade, (Option.some.inj h).symm⟩
  · cases h

/-- The attempts of a call: how many there are, where they go, and whose response is returned. -/
def Attempted (lib : CorsLibrary Cors) (service : OriginService) (request : Request Incoming)
    (calls : List (Performed (attempt (P := P) uris))) (response : Response) : Prop :=
  match request.extensions.recordingFallback with
  | none =>
      ∃ c, calls = [c] ∧ c.op.proxy = service.proxy ∧
        response = service.trust lib (orUnavailable c.answer.1)
  | some fallback =>
      (request.body.broken = true → calls = []) ∧
        (request.body.broken = false →
          ∃ first rest, calls = first :: rest ∧ first.op.proxy = service.proxy ∧
            (Replays request first.answer →
              ∃ second, rest = [second] ∧ second.op.proxy = fallback ∧
                response = service.trust lib (orUnavailable second.answer.1)) ∧
            (¬ Replays request first.answer →
              rest = [] ∧ ∃ r, first.answer.1 = .ok r ∧ response = service.trust lib r))

/-- A downstream upgrade is consumed at most once, by the attempt whose response 101 is returned. -/
def Tunnelled (lib : CorsLibrary Cors) (service : OriginService) (request : Request Incoming)
    (calls : List (Performed (attempt (P := P) uris))) (response : Response) : Prop :=
  ((calls.flatMap Performed.events).filterMap relayed).length ≤ 1 ∧
    ∀ c ∈ calls, ∀ d ∈ c.events.filterMap relayed,
      isUpgrade request.headers = true ∧ d = request.takeUpgrade.1 ∧
        ∃ r, c.answer.1 = .ok r ∧ r.status = statusSwitchingProtocols ∧
          response = service.trust lib r

/-- It is enough to look at the last attempt when those before it have left the upgrade alone. -/
theorem tunnelled_last (pre : List (Performed (attempt (P := P) uris)))
    {c : Performed (attempt (P := P) uris)} (hpre : ∀ b ∈ pre, b.events.filterMap relayed = [])
    (hdown : c.op.downstream = (handOver request).1 ∨ c.op.downstream = none)
    (hresponse : response = service.trust lib (orUnavailable c.answer.1)) :
    Tunnelled lib service request (pre ++ [c]) response := by
  have hquiet : (pre.flatMap Performed.events).filterMap relayed = [] := by
    rw [List.filterMap_flatMap, List.flatMap_eq_nil_iff]
    exact hpre
  have hall : ((pre ++ [c]).flatMap Performed.events).filterMap relayed = c.events.filterMap relayed := by
    rw [List.flatMap_append, List.filterMap_append, hquiet]
    simp
  constructor
  · rw [hall]
    rcases relayed_cases c with hnone | ⟨d, r, hone, -⟩
    · simp [hnone]
    · simp [hone]
  · intro b hb d hd
    rcases List.mem_append.mp hb with hb | hb
    · rw [hpre b hb] at hd
      cases hd
    · obtain rfl := List.mem_singleton.mp hb
      rcases relayed_cases b with hnone | ⟨d', r, hone, hd', hanswer, hstatus⟩
      · rw [hnone] at hd
        cases hd
      · rw [hone] at hd
        obtain rfl := List.mem_singleton.mp hd
        rcases hdown with hdown | hdown
        · obtain ⟨hupgrade, htaken⟩ := handOver_some (hdown.symm.trans hd')
          refine ⟨hupgrade, htaken, r, congrArg Prod.fst hanswer, hstatus, ?_⟩
          rw [hresponse, hanswer]
          rfl
        · cases hdown.symm.trans hd'

/-- Without a `RecordingFallback` there is one attempt.  With it there is none if the body cannot be
read; else one at the recorder, and one at the fallback exactly if the recorder's is replayed. -/
theorem replay_at_most_once
    (h : ((service.call lib request peer).subst (attempt uris)).Runs tr response) :
    ∃ calls : List (Performed (attempt (P := P) uris)), tr = calls.flatMap Performed.events ∧
      (∀ c ∈ calls, c.events.countP isSent ≤ 1) ∧
      Attempted lib service request calls response ∧ Tunnelled lib service request calls response := by
  obtain ⟨calls, rfl, hcalls⟩ := Prog.runs_subst.mp h
  obtain ⟨r, hrun, rfl⟩ := call_cases hcalls
  refine ⟨calls, rfl, fun c _ => sent_at_most_once c, ?_⟩
  generalize hevents : calls.map Performed.event = events at hrun
  cases hrun with
  | direct x hfallback =>
      obtain ⟨c, rfl, hc⟩ := Performed.eq_singleton hevents
      obtain ⟨tr, hruns, rfl⟩ := Performed.eq_of_event hc
      refine ⟨?_, tunnelled_last [] (by simp) (Or.inl (handOver_congr rfl rfl)) rfl⟩
      unfold Attempted
      rw [hfallback]
      exact ⟨_, rfl, rfl, rfl⟩
  | unread hfallback hbody =>
      obtain rfl := List.map_eq_nil_iff.mp hevents
      have hbroken : request.body.broken = true := by
        by_contra hbroken
        rw [Incoming.collect, if_neg hbroken] at hbody
        cases hbody
      refine ⟨?_, Nat.zero_le _, by simp⟩
      unfold Attempted
      rw [hfallback]
      refine ⟨fun _ => rfl, ?_⟩
      rw [hbroken]
      intro hfalse
      cases hfalse
  | @settled fallback collected x hfallback hbody hx =>
      obtain ⟨c, rfl, hc⟩ := Performed.eq_singleton hevents
      obtain ⟨tr, hruns, rfl⟩ := Performed.eq_of_event hc
      refine ⟨?_, tunnelled_last [] (by simp) (Or.inl (handOver_congr rfl rfl)) rfl⟩
      unfold Attempted
      rw [hfallback]
      refine ⟨?_, fun _ => ⟨_, [], rfl, rfl, fun hreplays => absurd hreplays hx, fun _ => ⟨rfl, ?_⟩⟩⟩
      · intro hbroken
        rw [Incoming.collect, if_pos hbroken] at hbody
        cases hbody
      · cases hresult : x.1 with
        | ok r => exact ⟨r, rfl, rfl⟩
        | error e => exact absurd (Or.inl hresult) hx
  | @replayed fallback collected x y hfallback hbody hx =>
      obtain ⟨c₁, c₂, rfl, hc₁, hc₂⟩ := Performed.eq_pair hevents
      obtain ⟨tr₁, hruns₁, rfl⟩ := Performed.eq_of_event hc₁
      obtain ⟨tr₂, hruns₂, rfl⟩ := Performed.eq_of_event hc₂
      obtain ⟨hquiet, hdown⟩ := downstream_of_replays (c := ⟨_, x, tr₁, hruns₁⟩) rfl hx
      have hdown' : x.2 = (handOver request).1 ∨ x.2 = none := by
        rcases hdown with hdown | hdown
        · exact Or.inl (hdown.trans (handOver_congr rfl rfl))
        · exact Or.inr hdown
      refine ⟨?_, tunnelled_last [⟨_, x, tr₁, hruns₁⟩] (by simpa using hquiet) hdown' rfl⟩
      unfold Attempted
      rw [hfallback]
      refine ⟨?_, fun _ => ⟨_, _, rfl, rfl, fun _ => ⟨_, rfl, rfl, rfl⟩, fun hnot => absurd hx hnot⟩⟩
      intro hbroken
      rw [Incoming.collect, if_pos hbroken] at hbody
      cases hbody

end

/-! ## One replay -/

/-- One exact `skip` is the only decision; there are no preflights. -/
def plainCors : CorsLibrary Unit where
  validate _ := true
  preflight _ _ := none
  applyResponse _ _ response := response
  takeFromHeaders h :=
    (if h.getAll responseCorsHeader = [.fromStatic "skip"] then .skip else .other 0,
      h.remove responseCorsHeader)

def plainService : OriginService := ⟨⟨"http", some "recorder"⟩, false⟩

def recordedRequest : Request Incoming where
  method := ⟨"POST", by decide⟩
  uri := ⟨none, none, ⟨"/write", none⟩⟩
  version := .http11
  headers := .empty
  extensions := { RequestExtensions.new with recordingFallback := some ⟨"http", some "fallback"⟩ }
  body := ⟨[[1, 2], [3]], none, false⟩

def plainResponse (status : ℕ) : ClientResponse where
  response := ⟨status, .http11, .empty, ⟨none, none⟩, .full []⟩
  cors_none := rfl

theorem replay_at_most_once_recorded :
    ∃ (tr : List (Event (httpSig Unit))) (response : Response)
      (calls : List (Performed (attempt literalUris))),
      ((plainService.call plainCors recordedRequest ⟨"10.0.0.1"⟩).subst
        (attempt literalUris)).Runs tr response ∧
      tr.countP isSent = 2 ∧ response.status = 201 ∧ tr = calls.flatMap Performed.events ∧
      Attempted plainCors plainService recordedRequest calls response := by
  have hruns : ((plainService.call plainCors recordedRequest ⟨"10.0.0.1"⟩).subst
      (attempt (P := Unit) literalUris)).Runs
        [⟨.request _, .ok (plainResponse 404)⟩, ⟨.request _, .ok (plainResponse 201)⟩] _ :=
    .op (.op (.refl _))
  obtain ⟨calls, hcalls, -, hattempted, -⟩ := replay_at_most_once hruns
  exact ⟨_, _, calls, hruns, rfl, rfl, hcalls, hattempted⟩

end BreezeGateway
