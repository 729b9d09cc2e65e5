import BreezeGateway.Forwarding

/-!
# What the proxy changes in a message

The hop-by-hop filter and the preparation of a request, name by name.
-/

namespace BreezeGateway

open Effects

/-- A header of one connection only: a fixed name, or one that a member of `Connection` names. -/
def HopByHop (h : HeaderMap) (n : HeaderName) : Prop :=
  n = connection ∨ n = upgradeHeader ∨ n ∈ hopByHopNames ∨
    ∃ value ∈ h.getAll connection, ∃ token ∈ members value.bytes,
      (trimAscii token).map lowerByte = n.bytes

theorem HeaderName.fromBytes_eq_some {bytes : Bytes} {n : HeaderName} :
    HeaderName.fromBytes bytes = some n ↔ bytes.map lowerByte = n.bytes := by
  unfold HeaderName.fromBytes
  constructor
  · intro h
    split at h
    · obtain rfl := Option.some.inj h
      rfl
    · cases h
  · intro h
    have hvalid : isHeaderName (bytes.map lowerByte) = true := by
      rw [h]
      exact n.valid
    rw [dif_pos hvalid]
    cases n
    simp only [Option.some.injEq, HeaderName.mk.injEq]
    exact h

theorem mem_nominated {h : HeaderMap} {n : HeaderName} :
    n ∈ nominated h ↔ ∃ value ∈ h.getAll connection, ∃ token ∈ members value.bytes,
      (trimAscii token).map lowerByte = n.bytes := by
  simp only [nominated, List.mem_filterMap, List.mem_flatMap, HeaderName.fromBytes_eq_some]
  constructor
  · rintro ⟨token, ⟨value, hvalue, htoken⟩, hn⟩
    exact ⟨value, hvalue, token, htoken, hn⟩
  · rintro ⟨value, hvalue, token, htoken, hn⟩
    exact ⟨token, ⟨value, hvalue, htoken⟩, hn⟩

instance (h : HeaderMap) (n : HeaderName) : Decidable (HopByHop h n) :=
  decidable_of_iff (n = connection ∨ n = upgradeHeader ∨ n ∈ hopByHopNames ∨ n ∈ nominated h) <| by
    rw [mem_nominated]
    exact Iff.rfl

theorem values_removeAll (h : HeaderMap) (names : List HeaderName) (n : HeaderName) :
    (names.foldl HeaderMap.remove h).values n = if n ∈ names then [] else h.values n := by
  have hall := HeaderMap.values_foldl_remove h n (fun _ => true) names
  simpa using hall

theorem values_removeHopByHopHeaders (h : HeaderMap) (preserve : Bool) (n : HeaderName) :
    (removeHopByHopHeaders h preserve).values n =
      if (n ∈ nominated h ∧ (preserve = false ∨ n ≠ upgradeHeader)) ∨ n ∈ hopByHopNames ∨
        (preserve = false ∧ (n = connection ∨ n = upgradeHeader)) then [] else h.values n := by
  have hnominated := HeaderMap.values_foldl_remove h n
    (fun name => !preserve || name != upgradeHeader) (nominated h)
  unfold removeHopByHopHeaders
  generalize (nominated h).foldl _ h = h' at hnominated
  cases preserve with
  | false =>
      simp only [Bool.not_false, if_true, HeaderMap.values_remove, values_removeAll, hnominated,
        Bool.true_or, and_true, true_and, true_or]
      by_cases hu : n = upgradeHeader
      · simp [hu]
      · by_cases hc : n = connection
        · simp [hc]
        · by_cases hf : n ∈ hopByHopNames
          · simp [hf]
          · simp [hu, hc, hf]
  | true =>
      simp only [Bool.not_true, Bool.false_eq_true, if_false, values_removeAll, hnominated,
        Bool.false_or, bne_iff_ne, Bool.true_eq_false, false_or, false_and, or_false]
      by_cases hf : n ∈ hopByHopNames
      · simp [hf]
      · simp [hf]

theorem getAll_removeHopByHopHeaders (h : HeaderMap) (n : HeaderName) :
    (removeHopByHopHeaders h false).getAll n = if HopByHop h n then [] else h.getAll n := by
  have hiff : (n ∈ nominated h ∧ (false = false ∨ n ≠ upgradeHeader)) ∨ n ∈ hopByHopNames ∨
      (false = false ∧ (n = connection ∨ n = upgradeHeader)) ↔ HopByHop h n := by
    unfold HopByHop
    rw [← mem_nominated]
    simp only [true_or, and_true, true_and]
    tauto
  unfold HeaderMap.getAll
  rw [values_removeHopByHopHeaders]
  by_cases hn : HopByHop h n
  · rw [if_pos hn, if_pos (hiff.mpr hn)]
  · rw [if_neg hn, if_neg (fun h => hn (hiff.mp h))]

/-! ## Preparing a request -/

theorem values_appendForwardedFor_of_ne {h : HeaderMap} {address : String} {n : HeaderName}
    (hn : n ≠ xForwardedFor) : (appendForwardedFor h address).values n = h.values n := by
  have hinsert : ∀ (h : HeaderMap) (value : HeaderValue),
      (h.insert xForwardedFor value).values n = h.values n :=
    fun h value => HeaderMap.values_insert_of_ne h value hn
  have hremove : (h.remove xForwardedFor).values n = h.values n :=
    HeaderMap.values_remove_of_ne h hn
  unfold appendForwardedFor
  split
  · split
    · dsimp only
      split
      · exact (hinsert _ _).trans hremove
      · exact hremove
    · split
      · exact hinsert _ _
      · rfl
  · split
    · exact hinsert _ _
    · rfl

theorem xForwardedProto_ne_for : xForwardedProto ≠ xForwardedFor := by decide

theorem xForwardedHost_ne_for : xForwardedHost ≠ xForwardedFor := by decide

theorem xForwardedHost_ne_proto : xForwardedHost ≠ xForwardedProto := by decide

theorem http_isValue : (utf8 "http").all isValueByte = true := by decide

/-- The headers of a prepared request, apart from the list of forwarders and the ticket. -/
def preparedValues (h : HeaderMap) (upgrade : Bool) (n : HeaderName) : List HeaderValue :=
  let kept := (removeHopByHopHeaders h upgrade).getAll n
  if kept = [] ∧ n = xForwardedProto then [.fromStatic "http" http_isValue]
  else if kept = [] ∧ n = xForwardedHost then (h.get host).toList
  else kept

theorem preparedValues_absent {h : HeaderMap} {upgrade : Bool} {n : HeaderName}
    (hproto : n ≠ xForwardedProto) (hhost : n ≠ xForwardedHost) (habsent : h.getAll n = []) :
    preparedValues h upgrade n = [] := by
  have hvalues : h.values n = [] := habsent
  unfold preparedValues HeaderMap.getAll
  rw [values_removeHopByHopHeaders, hvalues]
  simp [hproto, hhost]

namespace FallbackProxy

theorem getAll_prepareHeaders {h : HeaderMap} {peer : SocketAddr} {upgrade : Bool}
    {n : HeaderName} (hn : n ≠ xForwardedFor) :
    (prepareHeaders h peer upgrade).getAll n = preparedValues h upgrade n := by
  have happend : ∀ m, m ≠ xForwardedFor →
      (appendForwardedFor (removeHopByHopHeaders h upgrade) peer.ip).values m =
        (removeHopByHopHeaders h upgrade).values m :=
    fun m hm => values_appendForwardedFor_of_ne hm
  unfold prepareHeaders preparedValues HeaderMap.getAll
  by_cases hp : n = xForwardedProto
  · subst hp
    have hproto : ((appendForwardedFor (removeHopByHopHeaders h upgrade) peer.ip).entryOrInsert
        xForwardedProto (.fromStatic "http")).values xForwardedProto =
          if (removeHopByHopHeaders h upgrade).values xForwardedProto = [] then
            [.fromStatic "http"] else (removeHopByHopHeaders h upgrade).values xForwardedProto := by
      rw [HeaderMap.values_entryOrInsert_self, happend _ xForwardedProto_ne_for]
    cases h.get host with
    | none => simp [hproto, xForwardedHost_ne_proto.symm]
    | some value =>
        simp only [HeaderMap.values_entryOrInsert_of_ne _ _ xForwardedHost_ne_proto.symm, hproto]
        simp [xForwardedHost_ne_proto.symm]
  · by_cases hh : n = xForwardedHost
    · subst hh
      cases h.get host with
      | none =>
          simp only [HeaderMap.values_entryOrInsert_of_ne _ _ xForwardedHost_ne_proto,
            happend _ xForwardedHost_ne_for]
          by_cases hkept : (removeHopByHopHeaders h upgrade).values xForwardedHost = []
          · simp [hkept, xForwardedHost_ne_proto]
          · simp [hkept]
      | some value =>
          simp only [HeaderMap.values_entryOrInsert_self,
            HeaderMap.values_entryOrInsert_of_ne _ _ xForwardedHost_ne_proto,
            happend _ xForwardedHost_ne_for]
          simp [xForwardedHost_ne_proto]
    · cases h.get host with
      | none =>
          simp only [HeaderMap.values_entryOrInsert_of_ne _ _ hp, happend _ hn]
          simp [hp, hh]
      | some value =>
          simp only [HeaderMap.values_entryOrInsert_of_ne _ _ hp,
            HeaderMap.values_entryOrInsert_of_ne _ _ hh, happend _ hn]
          simp [hp, hh]

variable {B : Type} {lib : UriLibrary} {self : FallbackProxy} {request request' : Request B}
  {peer : SocketAddr} {upgrade : Bool}

theorem getAll_attach {ticket : AdmissionTicket} {n : HeaderName} :
    (ticket.attach request).headers.getAll n =
      if n = admissionTokenHeader then [ticket.tokenValue]
      else if n = admissionScopeHeader then [ticket.scopeValue] else request.headers.getAll n := by
  unfold AdmissionTicket.attach HeaderMap.getAll
  by_cases ht : n = admissionTokenHeader
  · subst ht
    simp
  · rw [if_neg ht, HeaderMap.values_insert_of_ne _ _ ht]
    by_cases hs : n = admissionScopeHeader
    · subst hs
      simp
    · rw [if_neg hs, HeaderMap.values_insert_of_ne _ _ hs]

theorem getAll_prepareRequest {n : HeaderName}
    (h : self.prepareRequest lib request peer upgrade = .ok (.ok request')) (hn : n ≠ xForwardedFor) :
    request'.headers.getAll n =
      match request.extensions.ticket with
      | some ticket =>
          if n = admissionTokenHeader then [ticket.tokenValue]
          else if n = admissionScopeHeader then [ticket.scopeValue]
          else preparedValues request.headers upgrade n
      | none => preparedValues request.headers upgrade n := by
  obtain ⟨authority, p, -, -, rfl⟩ := prepareRequest_ok h
  cases request.extensions.ticket with
  | none => exact getAll_prepareHeaders hn
  | some ticket =>
      dsimp only
      rw [getAll_attach]
      split
      · rfl
      · split
        · rfl
        · exact getAll_prepareHeaders hn

theorem asStr_prepareRequest (hparse : lib.Reprints)
    (h : self.prepareRequest lib request peer upgrade = .ok (.ok request')) :
    request'.uri.pathAndQuery.map PathAndQuery.asStr =
      some ((request.uri.pathAndQuery.map PathAndQuery.asStr).getD "/") := by
  obtain ⟨authority, p, -, hp, rfl⟩ := prepareRequest_ok h
  have htext : p.asStr = (request.uri.pathAndQuery.map PathAndQuery.asStr).getD "/" := by
    cases hq : request.uri.pathAndQuery with
    | none =>
        rw [hq] at hp
        exact hparse ⟨"/", none⟩ p hp
    | some q =>
        rw [hq] at hp
        exact hparse q p hp
  rw [← htext]
  cases request.extensions.ticket with
  | none => rfl
  | some ticket => rfl

end FallbackProxy

/-! ## The law of filtering -/

/-- The values that survive the filter. -/
def endToEnd (h : HeaderMap) (n : HeaderName) : List HeaderValue :=
  if HopByHop h n then [] else h.getAll n

theorem preparedValues_of_endToEnd (h : HeaderMap) (n : HeaderName) :
    preparedValues h false n =
      if endToEnd h n = [] ∧ n = xForwardedProto then [.fromStatic "http"]
      else if endToEnd h n = [] ∧ n = xForwardedHost then (h.get host).toList
      else endToEnd h n := by
  unfold preparedValues endToEnd
  rw [getAll_removeHopByHopHeaders]

theorem asStr_ne_empty (p : PathAndQuery) : p.asStr ≠ "" := by
  unfold PathAndQuery.asStr
  split
  · decide
  · assumption

/-- The parsing of targets without query and fragment. -/
def literalUris : UriLibrary where
  parsePathAndQuery s :=
    if '?' ∈ s.toList ∨ '#' ∈ s.toList then .error "invalid uri character" else .ok ⟨s, none⟩

theorem literalUris_reprints : literalUris.Reprints := by
  intro p q h
  simp only [literalUris] at h
  split at h
  · cases h
  · obtain rfl := Except.ok.inj h
    exact if_neg (asStr_ne_empty p)

/-- `Connection: close, X-Secret` beside two values of another header. -/
def nominatingHeaders : HeaderMap :=
  (((HeaderMap.empty.append connection (.fromStatic "close, X-Secret")).append
    (.fromStatic "x-secret") (.fromStatic "a")).append
    (.fromStatic "x-kept") (.fromStatic "b")).append (.fromStatic "x-kept") (.fromStatic "c")

end BreezeGateway
