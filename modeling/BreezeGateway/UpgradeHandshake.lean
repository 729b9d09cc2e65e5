import BreezeGateway.ReplayedRequest

/-!
# The handshake of an upgrade

An upgrade is decided on the headers of the client and asked for with the headers that are left of
them.  The filter spares `Upgrade`, but it removes `Connection` if a member names it.
-/

namespace BreezeGateway

open Effects

/-- The headers ask for the upgrade that `h` asks for. -/
def AsksUpgrade (h h' : HeaderMap) : Prop :=
  isUpgrade h' = true ∧ h'.getAll upgradeHeader = h.getAll upgradeHeader

/-- A member of `Connection` is the name of this header itself. -/
def namesConnection (h : HeaderMap) : Bool :=
  (h.getAll connection).any fun value => containsToken value.bytes (utf8 "connection")

theorem containsToken_iff {value expected : Bytes} (h : expected.map lowerByte = expected) :
    containsToken value expected = true ↔
      ∃ token ∈ members value, (trimAscii token).map lowerByte = expected := by
  unfold containsToken eqIgnoreAsciiCase
  rw [List.any_eq_true]
  simp only [beq_iff_eq, h]

theorem namesConnection_iff {h : HeaderMap} : namesConnection h = true ↔ connection ∈ nominated h := by
  rw [mem_nominated, namesConnection, List.any_eq_true]
  exact exists_congr fun value => and_congr_right fun _ => containsToken_iff (by decide)

theorem isUpgrade_congr {h h' : HeaderMap} (hconnection : h'.getAll connection = h.getAll connection)
    (hupgrade : h'.getAll upgradeHeader = h.getAll upgradeHeader) : isUpgrade h' = isUpgrade h := by
  have hvalues : h'.values upgradeHeader = h.values upgradeHeader := hupgrade
  unfold isUpgrade HeaderMap.containsKey
  rw [hconnection, hvalues]

theorem not_isUpgrade {h : HeaderMap} (hconnection : h.getAll connection = []) :
    isUpgrade h = false := by
  unfold isUpgrade
  rw [hconnection, List.any_nil, Bool.and_false]

theorem preparedValues_connection (h : HeaderMap) :
    preparedValues h true connection = if namesConnection h then [] else h.getAll connection := by
  have hfixed : connection ∉ hopByHopNames := by decide +kernel
  have hne : connection ≠ upgradeHeader := by decide
  have hkept : (removeHopByHopHeaders h true).getAll connection =
      if namesConnection h then [] else h.getAll connection := by
    unfold HeaderMap.getAll
    rw [values_removeHopByHopHeaders]
    simp only [namesConnection_iff, hfixed, hne, ne_eq, not_false_eq_true, or_true, and_true,
      Bool.true_eq_false, or_false]
  unfold preparedValues
  rw [hkept]
  have hproto : connection ≠ xForwardedProto := by decide
  have hhost : connection ≠ xForwardedHost := by decide
  simp only [hproto, hhost, and_false, if_false]

theorem preparedValues_upgrade (h : HeaderMap) :
    preparedValues h true upgradeHeader = h.getAll upgradeHeader := by
  have hfixed : upgradeHeader ∉ hopByHopNames := by decide +kernel
  have hkept : (removeHopByHopHeaders h true).getAll upgradeHeader = h.getAll upgradeHeader := by
    unfold HeaderMap.getAll
    rw [values_removeHopByHopHeaders]
    simp only [hfixed, ne_eq, not_true_eq_false, Bool.true_eq_false, or_false, and_false, false_and,
      if_false]
  unfold preparedValues
  rw [hkept]
  have hproto : upgradeHeader ≠ xForwardedProto := by decide
  have hhost : upgradeHeader ≠ xForwardedHost := by decide
  simp only [hproto, hhost, and_false, if_false]

namespace FallbackProxy

section

variable {B : Type} {lib : UriLibrary} {self : FallbackProxy} {request request' : Request B}
  {peer : SocketAddr}

theorem asksUpgrade_iff (hupgrade : isUpgrade request.headers = true)
    (h : self.prepareRequest lib request peer true = .ok (.ok request')) :
    AsksUpgrade request.headers request'.headers ↔ namesConnection request.headers = false := by
  have hvalues : ∀ n, n ≠ xForwardedFor → n ≠ admissionTokenHeader → n ≠ admissionScopeHeader →
      request'.headers.getAll n = preparedValues request.headers true n := by
    intro n hfor htoken hscope
    rw [getAll_prepareRequest h hfor]
    cases request.extensions.ticket with
    | none => rfl
    | some ticket => simp only [if_neg htoken, if_neg hscope]
  have hupgrades := (hvalues upgradeHeader (by decide) (by decide) (by decide)).trans
    (preparedValues_upgrade request.headers)
  have hconnections := (hvalues connection (by decide) (by decide) (by decide)).trans
    (preparedValues_connection request.headers)
  cases hnames : namesConnection request.headers with
  | true =>
      rw [hnames, if_pos rfl] at hconnections
      refine iff_of_false ?_ Bool.noConfusion
      rintro ⟨hasks, -⟩
      rw [not_isUpgrade hconnections] at hasks
      cases hasks
  | false =>
      rw [hnames, if_neg Bool.noConfusion] at hconnections
      refine iff_of_true ⟨?_, hupgrades⟩ rfl
      rw [isUpgrade_congr hconnections hupgrades]
      exact hupgrade

end

/-! ## Every request that is sent -/

/-- What an upgrade depends on is the same in both. -/
def SameHandshake (h h' : HeaderMap) : Prop :=
  h'.getAll connection = h.getAll connection ∧ h'.getAll upgradeHeader = h.getAll upgradeHeader

theorem SameHandshake.names {h h' : HeaderMap} (hsame : SameHandshake h h') :
    namesConnection h' = namesConnection h := by
  unfold namesConnection
  rw [hsame.1]

theorem sameHandshake_handOver {B : Type} (request : Request B) :
    SameHandshake request.headers (handOver request).2.headers := by
  rw [handOver_headers]
  exact ⟨rfl, rfl⟩

theorem sameHandshake_retry (request : Request Incoming) (collected : Collected) :
    SameHandshake request.headers (retryRequest request collected).headers := by
  have hkept : ∀ n, n ≠ admissionScopeHeader → n ≠ admissionTokenHeader →
      (retryRequest request collected).headers.getAll n = request.headers.getAll n := by
    intro n hscope htoken
    unfold retryRequest HeaderMap.getAll
    rw [HeaderMap.values_remove_of_ne _ htoken, HeaderMap.values_remove_of_ne _ hscope]
  exact ⟨hkept connection (by decide) (by decide), hkept upgradeHeader (by decide) (by decide)⟩

variable {P : Type} {lib : UriLibrary} {self : FallbackProxy} {peer : SocketAddr}

theorem forwardBody_avoids {request : Request GatewayBody} :
    (self.forwardBody request peer).Avoids fun o : AttemptOp =>
      ¬ SameHandshake request.headers o.request.headers := by
  have hforward : self.forwardBody request peer =
      (fun r : Attempt => orUnavailable r.1) <$>
        Prog.perform (S := attemptSig)
          ⟨self, (handOver request).2, peer, (handOver request).1⟩ := by
    rfl
  rw [hforward]
  exact ⟨not_not_intro (sameHandshake_handOver request), fun _ => trivial⟩

theorem forwardRecording_avoids {request : Request Incoming} :
    (self.forwardRecording request peer).Avoids fun o : AttemptOp =>
      ¬ SameHandshake request.headers o.request.headers := by
  cases hfallback : request.extensions.recordingFallback with
  | none =>
      rw [forwardRecording_direct hfallback]
      exact @forwardBody_avoids self peer ((bare request).mapBody GatewayBody.incoming)
  | some fallback =>
      rw [forwardRecording_recording hfallback]
      cases request.body.collect with
      | none => trivial
      | some collected =>
          have hrecorder : SameHandshake request.headers (handOver (bare request)).2.headers :=
            sameHandshake_handOver (bare request)
          refine ⟨not_not_intro hrecorder, ?_⟩
          intro first
          have hretry : SameHandshake request.headers
              (fallback.retryAttempt request collected peer first).request.headers := by
            have hkept := sameHandshake_retry (handOver (bare request)).2 collected
            exact ⟨hkept.1.trans hrecorder.1, hkept.2.trans hrecorder.2⟩
          unfold afterRecorder
          cases first.1 with
          | error e => exact ⟨not_not_intro hretry, fun _ => trivial⟩
          | ok response =>
              dsimp only
              split
              · exact ⟨not_not_intro hretry, fun _ => trivial⟩
              · trivial

theorem asksUpgrade_of_prepares {h : HeaderMap} {request prepared : Request GatewayBody}
    (hupgrade : isUpgrade h = true) (hsame : SameHandshake h request.headers)
    (hprepare : Prepares lib self request peer prepared) :
    AsksUpgrade h (sent prepared).headers ↔ namesConnection h = false := by
  have hasks : isUpgrade request.headers = true := by
    rw [isUpgrade_congr hsame.1 hsame.2]
    exact hupgrade
  unfold Prepares at hprepare
  rw [hasks] at hprepare
  have hiff := asksUpgrade_iff hasks hprepare
  rw [hsame.names] at hiff
  unfold AsksUpgrade at hiff ⊢
  rwa [hsame.2] at hiff

/-- What is sent in place of attempts that keep the handshake. -/
theorem asksUpgrade_of_steps {α : Type} {p : Prog attemptSig α} {h : HeaderMap}
    (hupgrade : isUpgrade h = true) (hp : p.Avoids fun o : AttemptOp => ¬ SameHandshake h o.request.headers)
    {tr : List (Event (httpSig P))} {out : Request GatewayBody}
    {k : Except ClientError ClientResponse → Prog (httpSig P) α}
    (hsteps : Prog.Steps (p.subst (attempt lib)) tr (.op (.request out) k)) :
    AsksUpgrade h out.headers ↔ namesConnection h = false := by
  have havoids : (p.subst (attempt (P := P) lib)).Avoids
      (Sends fun out => ¬ (AsksUpgrade h out.headers ↔ namesConnection h = false)) := by
    apply hp.subst
    intro o ho
    apply attempt_avoids_sends o
    intro prepared hprepare
    exact not_not_intro (asksUpgrade_of_prepares hupgrade (not_not.mp ho) hprepare)
  by_contra hnot
  exact havoids.of_steps hsteps ⟨out, rfl, hnot⟩

/-- The origin is asked for the upgrade of the client exactly if no member of `Connection` names
this header. -/
theorem upgrade_survives_iff (lib : UriLibrary) (self : FallbackProxy) (peer : SocketAddr) :
    (∀ (B : Type) (request request' : Request B), isUpgrade request.headers = true →
      self.prepareRequest lib request peer true = .ok (.ok request') →
      (AsksUpgrade request.headers request'.headers ↔ namesConnection request.headers = false)) ∧
    (∀ (P : Type) (request : Request GatewayBody) (tr : List (Event (httpSig P)))
      (out : Request GatewayBody) (k : Except ClientError ClientResponse → Prog (httpSig P) Response),
      isUpgrade request.headers = true →
      Prog.Steps ((self.forwardBody request peer).subst (attempt lib)) tr (.op (.request out) k) →
      (AsksUpgrade request.headers out.headers ↔ namesConnection request.headers = false)) ∧
    ∀ (P : Type) (request : Request Incoming) (tr : List (Event (httpSig P)))
      (out : Request GatewayBody) (k : Except ClientError ClientResponse → Prog (httpSig P) Response),
      isUpgrade request.headers = true →
      Prog.Steps ((self.forwardRecording request peer).subst (attempt lib)) tr
        (.op (.request out) k) →
      (AsksUpgrade request.headers out.headers ↔ namesConnection request.headers = false) := by
  refine ⟨?_, ?_, ?_⟩
  · intro B request request' hupgrade h
    exact asksUpgrade_iff hupgrade h
  · intro P request tr out k hupgrade hsteps
    exact asksUpgrade_of_steps hupgrade forwardBody_avoids hsteps
  · intro P request tr out k hupgrade hsteps
    exact asksUpgrade_of_steps hupgrade forwardRecording_avoids hsteps

end FallbackProxy

def upgradeRequest (members : HeaderValue) : Request Incoming :=
  { recordedRequest with
    headers := (HeaderMap.empty.append upgradeHeader (.fromStatic "websocket")).append connection
      members }

/-- The recorder is not reached, and the fallback is asked for the upgrade as well. -/
theorem upgrade_survives_iff_websocket :
    ∃ (e : Event (httpSig Unit)) (out : Request GatewayBody)
      (k : Except ClientError ClientResponse → Prog (httpSig Unit) Response),
      Prog.Steps ((FallbackProxy.forwardRecording ⟨"http", some "recorder"⟩
        (upgradeRequest (.fromStatic "keep-alive, Upgrade")) ⟨"10.0.0.1"⟩).subst
          (attempt literalUris)) [e] (.op (.request out) k) ∧
      AsksUpgrade (upgradeRequest (.fromStatic "keep-alive, Upgrade")).headers out.headers := by
  have hruns : ((FallbackProxy.forwardRecording ⟨"http", some "recorder"⟩
      (upgradeRequest (.fromStatic "keep-alive, Upgrade")) ⟨"10.0.0.1"⟩).subst
        (attempt (P := Unit) literalUris)).Runs
          [⟨.request _, .error ⟨true⟩⟩, ⟨.request _, .ok (plainResponse 200)⟩] _ :=
    .op (.op (.refl _))
  obtain ⟨k, hsteps⟩ := @Prog.Steps.before (httpSig Unit) Response _ _ [_] [] _ _ hruns
  refine ⟨_, _, k, hsteps, ?_⟩
  have hiff := (FallbackProxy.upgrade_survives_iff literalUris ⟨"http", some "recorder"⟩
    ⟨"10.0.0.1"⟩).2.2 Unit _ _ _ k (by decide +kernel) hsteps
  exact hiff.mpr (by decide +kernel)

/-- `Connection: upgrade, connection` is lost with the handshake in it. -/
theorem upgrade_survives_fails :
    isUpgrade (upgradeRequest (.fromStatic "upgrade, connection")).headers = true ∧
    ∃ request', FallbackProxy.prepareRequest literalUris ⟨"http", some "origin"⟩
        (upgradeRequest (.fromStatic "upgrade, connection")) ⟨"10.0.0.1"⟩ true =
          .ok (.ok request') ∧
      isUpgrade request'.headers = false ∧
      request'.headers.getAll upgradeHeader = [.fromStatic "websocket"] := by
  refine ⟨by decide +kernel, _, rfl, by decide +kernel, by decide +kernel⟩

end BreezeGateway
