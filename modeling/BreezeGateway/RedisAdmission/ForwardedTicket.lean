import BreezeGateway.HopByHop
import BreezeGateway.RedisAdmission.CommandTrace
import BreezeGateway.Routes

/-!
# Forwarded tickets

A receiver reads a ticket back from headers whose values have lost the blanks around them.
-/

namespace BreezeGateway

open Effects RedisAdmissionProvider

/-! ## Blanks around a value -/

def Padded (bytes : Bytes) : Prop :=
  (∃ b, bytes.head? = some b ∧ isBlank b = true) ∨ ∃ b, bytes.getLast? = some b ∧ isBlank b = true

theorem dropWhile_blank_iff {bytes : Bytes} :
    bytes.dropWhile isBlank = bytes ↔ ∀ b, bytes.head? = some b → isBlank b = false := by
  cases bytes with
  | nil => simp
  | cons b rest =>
      by_cases hb : isBlank b = true
      · rw [List.dropWhile_cons_of_pos hb]
        refine iff_of_false ?_ (by simp [hb])
        intro h
        have hlength := (List.dropWhile_suffix (l := rest) isBlank).length_le
        rw [h] at hlength
        simp at hlength
      · rw [List.dropWhile_cons_of_neg hb]
        exact iff_of_true rfl (by simpa using hb)

theorem trimAscii_eq_iff {bytes : Bytes} : trimAscii bytes = bytes ↔ ¬ Padded bytes := by
  have hleft : ¬ Padded bytes ↔ bytes.dropWhile isBlank = bytes ∧
      bytes.reverse.dropWhile isBlank = bytes.reverse := by
    rw [dropWhile_blank_iff, dropWhile_blank_iff, List.head?_reverse]
    unfold Padded
    simp only [not_or, not_exists, not_and, Bool.not_eq_true]
  rw [hleft]
  constructor
  · intro h
    have hfront : (bytes.dropWhile isBlank).length ≤ bytes.length :=
      (List.dropWhile_suffix _).length_le
    have hback : ((bytes.dropWhile isBlank).reverse.dropWhile isBlank).length ≤
        (bytes.dropWhile isBlank).reverse.length := (List.dropWhile_suffix _).length_le
    have hlength := congrArg List.length h
    unfold trimAscii at hlength
    rw [List.length_reverse] at hlength
    rw [List.length_reverse] at hback
    have hdrop : bytes.dropWhile isBlank = bytes :=
      (List.dropWhile_suffix _).eq_of_length (by omega)
    refine ⟨hdrop, ?_⟩
    unfold trimAscii at h
    rw [hdrop] at h
    exact List.reverse_eq_iff.mp h
  · rintro ⟨hfront, hback⟩
    unfold trimAscii
    rw [hfront, hback, List.reverse_reverse]

/-! ## The wire -/

theorem trimAscii_valid {bytes : Bytes} (h : bytes.all isValueByte = true) :
    (trimAscii bytes).all isValueByte = true := by
  rw [List.all_eq_true] at h ⊢
  intro b hb
  apply h
  unfold trimAscii at hb
  have hmem := (List.dropWhile_sublist isBlank).subset (List.mem_reverse.mp hb)
  exact (List.dropWhile_sublist isBlank).subset (List.mem_reverse.mp hmem)

/-- A field value as it is received over HTTP/1.1. -/
def HeaderValue.received (v : HeaderValue) : HeaderValue := ⟨trimAscii v.bytes, trimAscii_valid v.valid⟩

def HeaderMap.received (h : HeaderMap) : HeaderMap :=
  ⟨fun n => (h.values n).map HeaderValue.received⟩

theorem HeaderValue.received_eq_iff {v : HeaderValue} : v.received = v ↔ ¬ Padded v.bytes := by
  obtain ⟨bytes, valid⟩ := v
  rw [← trimAscii_eq_iff]
  exact HeaderValue.mk.injEq _ _ _ _ ▸ Iff.rfl

/-! ## Texts -/

/-- A space or a tab at one of the ends. -/
def PaddedText (s : String) : Prop :=
  (∃ c, s.toList.head? = some c ∧ (c = ' ' ∨ c = '\t')) ∨
    ∃ c, s.toList.getLast? = some c ∧ (c = ' ' ∨ c = '\t')

theorem isBlank_iff {c : Char} (h : c.toNat < 128) :
    isBlank c.toNat.toUInt8 = true ↔ c = ' ' ∨ c = '\t' := by
  have hchar : ∀ d : Char, d.toNat < 128 → (c.toNat.toUInt8 = d.toNat.toUInt8 ↔ c = d) := by
    intro d hd
    rw [← UInt8.toNat_inj, toUInt8_toNat_of_lt h, toUInt8_toNat_of_lt hd, Char.toNat_inj]
  unfold isBlank
  rw [Bool.or_eq_true, beq_iff_eq, beq_iff_eq]
  exact or_congr (hchar ' ' (by decide)) (hchar '\t' (by decide))

theorem padded_utf8 {s : String} (hs : isAscii s = true) : Padded (utf8 s) ↔ PaddedText s := by
  have hend : ∀ o : Option Char, (∀ c, o = some c → c ∈ s.toList) →
      ((∃ b, o.map (fun c => c.toNat.toUInt8) = some b ∧ isBlank b = true) ↔
        ∃ c, o = some c ∧ (c = ' ' ∨ c = '\t')) := by
    intro o ho
    cases o with
    | none => simp
    | some c =>
        have hc : c.toNat < 128 := by simpa using List.all_eq_true.mp hs c (ho c rfl)
        simpa using isBlank_iff hc
  unfold Padded PaddedText
  rw [utf8_of_isAscii hs, List.head?_map, List.getLast?_map]
  refine or_congr (hend _ ?_) (hend _ ?_)
  · intro c hc
    exact List.mem_of_head? hc
  · intro c hc
    exact List.mem_of_getLast? hc

theorem acquisitionToken_not_padded (random : Fin (2 ^ 128) × Fin (2 ^ 128)) :
    ¬ PaddedText (acquisitionToken random) := by
  have hdigit : ∀ c ∈ (acquisitionToken random).toList, ¬ (c = ' ' ∨ c = '\t') := by
    intro c hc
    unfold acquisitionToken at hc
    rw [String.toList_append, List.mem_append] at hc
    obtain ⟨d, hd, rfl⟩ := hc.elim mem_hex32 mem_hex32
    interval_cases d <;> decide
  rintro (⟨c, hc, hblank⟩ | ⟨c, hc, hblank⟩)
  · exact hdigit c (List.mem_of_head? hc) hblank
  · exact hdigit c (List.mem_of_getLast? hc) hblank

/-! ## The rebuilt ticket -/

namespace AdmissionTicket

theorem fromHeaders_eq {h : HeaderMap} {scopeValue tokenValue : HeaderValue}
    (hscope : h.getAll admissionScopeHeader = [scopeValue])
    (htoken : h.getAll admissionTokenHeader = [tokenValue]) :
    fromHeaders h =
      match scopeValue.toStr, tokenValue.toStr with
      | some scope, some token => (new scope token).map some
      | _, _ => .error .invalidTicket := by
  have hscope' : h.get admissionScopeHeader = some scopeValue := congrArg List.head? hscope
  have htoken' : h.get admissionTokenHeader = some tokenValue := congrArg List.head? htoken
  unfold fromHeaders
  rw [hscope', htoken']
  dsimp only
  rw [hscope, htoken]
  exact if_neg (by simp)

/-- A ticket is rebuilt from its two values if these are the texts of a ticket. -/
theorem fromHeaders_iff {h : HeaderMap} {scopeValue tokenValue : HeaderValue} {ticket : AdmissionTicket}
    (hscope : h.getAll admissionScopeHeader = [scopeValue])
    (htoken : h.getAll admissionTokenHeader = [tokenValue]) :
    fromHeaders h = .ok (some ticket) ↔ ∃ scope token, scopeValue.toStr = some scope ∧
      tokenValue.toStr = some token ∧ new scope token = .ok ticket := by
  rw [fromHeaders_eq hscope htoken]
  cases scopeValue.toStr with
  | none => simp
  | some scope =>
      cases tokenValue.toStr with
      | none => simp
      | some token =>
          cases hnew : new scope token with
          | error e => simp [Except.map, hnew]
          | ok t => simp [Except.map, hnew]

end AdmissionTicket

/-- The headers carry the ticket made of the two texts. -/
def Carries (h : HeaderMap) (scope token : String) : Prop :=
  ∃ made, AdmissionTicket.new scope token = .ok made ∧
    h.getAll admissionScopeHeader = [made.scopeValue] ∧
    h.getAll admissionTokenHeader = [made.tokenValue]

/-- Over the wire a ticket keeps its token, and its scope unless that is padded. -/
theorem Carries.received_iff {h : HeaderMap} {scope token : String} (hcarries : Carries h scope token)
    (htoken : ¬ PaddedText token) :
    (∃ rebuilt, AdmissionTicket.fromHeaders h.received = .ok (some rebuilt) ∧ rebuilt.scope = scope ∧
      rebuilt.token = token) ↔ ¬ PaddedText scope := by
  obtain ⟨made, hnew, hscopes, htokens⟩ := hcarries
  obtain ⟨hscopeAscii, htokenAscii, hscopeStr, htokenStr⟩ := AdmissionTicket.new_values hnew
  have hscopeText := toStr_of_fromStr hscopeAscii hscopeStr
  have htokenText := toStr_of_fromStr htokenAscii htokenStr
  have hkept : made.tokenValue.received = made.tokenValue := by
    rwa [HeaderValue.received_eq_iff, bytes_of_fromStr htokenStr, padded_utf8 htokenAscii]
  have hpadded : made.scopeValue.received = made.scopeValue ↔ ¬ PaddedText scope := by
    rw [HeaderValue.received_eq_iff, bytes_of_fromStr hscopeStr, padded_utf8 hscopeAscii]
  have hscopes' : h.received.getAll admissionScopeHeader = [made.scopeValue.received] :=
    congrArg (List.map HeaderValue.received) hscopes
  have htokens' : h.received.getAll admissionTokenHeader = [made.tokenValue] :=
    (congrArg (List.map HeaderValue.received) htokens).trans (congrArg (fun v => [v]) hkept)
  rw [← hpadded]
  constructor
  · rintro ⟨rebuilt, hfrom, hscope, -⟩
    obtain ⟨scope', token', hscope', -, hrebuilt⟩ :=
      (AdmissionTicket.fromHeaders_iff hscopes' htokens').mp hfrom
    rw [(AdmissionTicket.of_new hrebuilt).1] at hscope
    rw [hscope] at hscope'
    have hbytes : made.scopeValue.received.bytes = made.scopeValue.bytes := by
      rw [← utf8_of_toStr hscope', ← utf8_of_toStr hscopeText]
    exact HeaderValue.mk.injEq _ _ _ _ ▸ hbytes
  · intro hsame
    rw [hsame] at hscopes'
    refine ⟨made, (AdmissionTicket.fromHeaders_iff hscopes' htokens').mpr
      ⟨scope, token, hscopeText, htokenText, hnew⟩, AdmissionTicket.of_new hnew⟩

/-! ## The slot of a ticket -/

/-- Each call on the ticket sends one command, to the key and with the value; `owns` is the
question whether the key holds the value. -/
structure AddressesSlot (Index : Type) (q : RedisAdmissionProvider) (ticket : AdmissionTicket)
    (key : String) (value : Bytes) : Prop where
  complete : ∀ tr r, (q.complete ticket : AdmissionTask Index Bool).run.Runs tr r →
    (commandLog tr).map Prod.fst = [.complete key value]
  renew : ∀ tr r, (q.renew ticket : AdmissionTask Index Bool).run.Runs tr r →
    (commandLog tr).map Prod.fst = [.renew key value q.ttlMs]
  owns : ∀ tr r, (q.owns ticket : AdmissionTask Index Bool).run.Runs tr r →
    ∃ reply, commandLog tr = [(.get key, reply)] ∧ (r = .ok true ↔ reply = .ok (.bulkString value))

section

variable {Index : Type} {q : RedisAdmissionProvider} {ticket : AdmissionTicket} {key : String}
  {value : Bytes}

theorem commandLog_transition {c : Command} {unexpected : String} {tr : List (AdmissionEvent Index)}
    {r : Except AdmissionError Bool}
    (h : (transition c unexpected : AdmissionTask Index Bool).run.Runs tr r) :
    (commandLog tr).map Prod.fst = [c] := by
  have hmeets : (transition c unexpected : AdmissionTask Index Bool).run.Meets
      (Prog.Told fun _ _ => True) [] fun tr _ => (commandLog tr).map Prod.fst = [c] := by
    refine meets_transition trivial ?_ ?_ ?_
    · rintro _ rfl
      rfl
    · rintro _ rfl
      rfl
    · rintro r _ e rfl
      rfl
  exact hmeets.told h

theorem commandLog_owns {tr : List (AdmissionEvent Index)} {r : Except AdmissionError Bool}
    (h : (q.owns ticket : AdmissionTask Index Bool).run.Runs tr r) :
    ∃ reply, commandLog tr = [(.get (q.key ticket.scope), reply)] ∧
      (r = .ok true ↔ reply = .ok (.bulkString (utf8 ticket.token))) := by
  have hmeets : (q.owns ticket : AdmissionTask Index Bool).run.Meets (Prog.Told fun _ _ => True) []
      fun tr r => ∃ reply, commandLog tr = [(.get (q.key ticket.scope), reply)] ∧
        (r = .ok true ↔ reply = .ok (.bulkString (utf8 ticket.token))) := by
    unfold owns
    rw [meets_bind_ok]
    refine meets_command trivial ?_ ?_
    · rintro v _ rfl
      cases v with
      | bulkString bytes => exact ⟨_, rfl, by simp⟩
      | nil => exact ⟨_, rfl, by simp⟩
      | _ => exact ⟨_, rfl, by simp⟩
    · rintro m _ rfl
      exact ⟨_, rfl, by simp⟩
  exact hmeets.told h

theorem addressesSlot_iff :
    AddressesSlot Index q ticket key value ↔ q.key ticket.scope = key ∧ utf8 ticket.token = value := by
  constructor
  · intro h
    have hlog := h.complete [⟨.inl _, .ok (.int 0)⟩] (.ok false) (.op (.refl _))
    obtain ⟨hkey, hvalue⟩ := Command.complete.inj (List.cons.inj hlog).1
    exact ⟨hkey, hvalue⟩
  · rintro ⟨rfl, rfl⟩
    exact ⟨fun _ _ h => commandLog_transition h, fun _ _ h => commandLog_transition h,
      fun _ _ h => commandLog_owns h⟩

end

/-! ## From the gateway to the receiver -/

section

variable {Index : Type} {lib : Libraries Index} {p : RedisAdmissionProvider} {call : Call}
  {tr : List (AdmissionEvent Index)} {ticket : AdmissionTicket}

/-- A returned ticket is made of the scope of the call and of a new token, which is what the
reservation stored. -/
theorem Completed.made (h : Completed lib p call tr ticket) :
    ∃ random ticket₀, AdmissionTicket.new call.scope (acquisitionToken random) = .ok ticket₀ ∧
      ticket.scopeValue = ticket₀.scopeValue ∧ ticket.tokenValue = ticket₀.tokenValue := by
  obtain ⟨quota, pre, hreached, -⟩ := h
  obtain ⟨random, origin, -, hticket⟩ := hreached.ticket rfl
  obtain ⟨ticket₀, hnew, horigin⟩ := except_bind_ok hticket
  obtain ⟨hscope, htoken⟩ := AdmissionTicket.withOrigin_values horigin
  exact ⟨random, ticket₀, hnew, hscope, htoken⟩

theorem Completed.set (h : Completed lib p call tr ticket) {key : String} {value : Bytes} {px : ℕ}
    {reply : Reply} (hmem : (.set key value px, reply) ∈ commandLog tr) :
    key = p.key call.scope ∧ value = utf8 ticket.token := by
  obtain ⟨quota, pre, hreached, rfl⟩ := h
  have hlog : commandLog (pre ++ [(⟨.inr .isParticipating, true⟩ : AdmissionEvent Index),
      ⟨.inr (.dropLookup true), ()⟩]) = commandLog pre := by
    rw [commandLog_append]
    exact List.append_nil _
  rw [hlog] at hmem
  have hplan : Command.set key value px ∈ plan p call quota ticket.token := by
    have hmap := List.mem_map_of_mem (f := Prod.fst) hmem
    rwa [hreached.planned] at hmap
  have hset : Command.set key value px = .set (p.key call.scope) (utf8 ticket.token) p.ttlMs := by
    simpa [plan] using hplan
  obtain ⟨hkey, hvalue, -⟩ := Command.set.inj hset
  exact ⟨hkey, hvalue⟩

theorem key_inj {q : RedisAdmissionProvider} (hkeyPrefix : q.keyPrefix = p.keyPrefix) {scope scope' : String} :
    q.key scope = p.key scope' ↔ scope = scope' := by
  unfold key
  rw [hkeyPrefix]
  exact String.append_right_inj _

/-- What the proxy sends carries the ticket. -/
theorem Completed.carries {B : Type} {uris : UriLibrary} {self : FallbackProxy}
    {request prepared : Request B} {peer : SocketAddr} {upgrade : Bool}
    (h : Completed lib p call tr ticket) (hticket : request.extensions.ticket = some ticket)
    (hprepare : self.prepareRequest uris request peer upgrade = .ok (.ok prepared)) :
    Carries prepared.headers call.scope ticket.token ∧ ¬ PaddedText ticket.token := by
  obtain ⟨random, made, hnew, hscopeValue, htokenValue⟩ := h.made
  obtain ⟨-, htokenAscii, -, htokenStr⟩ := AdmissionTicket.new_values hnew
  have htoken : ticket.token = acquisitionToken random :=
    AdmissionTicket.token_eq (htokenValue ▸ toStr_of_fromStr htokenAscii htokenStr)
  rw [htoken]
  refine ⟨⟨made, hnew, ?_, ?_⟩, acquisitionToken_not_padded random⟩
  · have hvalues := FallbackProxy.getAll_prepareRequest (n := admissionScopeHeader) hprepare (by decide)
    rw [hticket] at hvalues
    simpa [admissionScopeHeader_ne_token, hscopeValue] using hvalues
  · have hvalues := FallbackProxy.getAll_prepareRequest (n := admissionTokenHeader) hprepare (by decide)
    rw [hticket] at hvalues
    simpa [htokenValue] using hvalues

/-- A rebuilt ticket addresses the slot that was reserved if it has the scope and the token. -/
theorem addresses_reserved_iff {q : RedisAdmissionProvider} (hkeyPrefix : q.keyPrefix = p.keyPrefix)
    {rebuilt : AdmissionTicket} :
    AddressesSlot Index q rebuilt (p.key call.scope) (utf8 ticket.token) ↔
      rebuilt.scope = call.scope ∧ rebuilt.token = ticket.token := by
  rw [addressesSlot_iff, key_inj hkeyPrefix, utf8_inj]

/-- The rebuilt ticket addresses the reserved slot exactly when the scope is not padded. -/
theorem receiver_addresses_slot {q : RedisAdmissionProvider} {key : String} {value : Bytes} {px : ℕ}
    {reply : Reply} {B : Type} {uris : UriLibrary} {self : FallbackProxy} {request prepared : Request B}
    {peer : SocketAddr} {upgrade : Bool} (hcall : call.isAcquire = true)
    (hruns : (call.run lib p).Runs tr (.outcome (.ok (.acquired ticket))))
    (hset : (.set key value px, reply) ∈ commandLog tr) (hkeyPrefix : q.keyPrefix = p.keyPrefix)
    (hticket : request.extensions.ticket = some ticket)
    (hprepare : self.prepareRequest uris request peer upgrade = .ok (.ok prepared)) :
    (∃ rebuilt, AdmissionTicket.fromHeaders prepared.headers.received = .ok (some rebuilt) ∧
      AddressesSlot Index q rebuilt key value) ↔ ¬ PaddedText call.scope := by
  have hcompleted : Completed lib p call tr ticket := (tells_call hcall).told hruns _ rfl
  obtain ⟨rfl, rfl⟩ := hcompleted.set hset
  obtain ⟨hcarries, htoken⟩ := hcompleted.carries hticket hprepare
  simp only [addresses_reserved_iff hkeyPrefix]
  exact hcarries.received_iff htoken

end

def ticketedRequest (ticket : AdmissionTicket) : Request Unit where
  method := .get
  uri := ⟨none, none, ⟨"/x", none⟩⟩
  version := .http11
  headers := .empty
  extensions := { RequestExtensions.new with ticket := some ticket }
  body := ()

/-- The events of an acquisition whose commands succeed and whose random numbers are zero. -/
def acquiredEvents (scope : String) : List (AdmissionEvent Unit) :=
  [⟨.inr .isParticipating, true⟩, ⟨.inr .tryLookup, .ok ()⟩,
    ⟨.inl (.get "r"), .ok (.bulkString (utf8 "http://r"))⟩, ⟨.inr .randomToken, (0, 0)⟩,
    ⟨.inl (.set ("p:inflight:" ++ scope) (utf8 (acquisitionToken (0, 0))) 60000), .ok .okay⟩,
    ⟨.inr .isParticipating, true⟩, ⟨.inr (.dropLookup true), ()⟩]

/-- The acquisition of a scope and the request that forwards its ticket. -/
def Forwards (scope : String) (ticket : AdmissionTicket) (prepared : Request Unit) : Prop :=
  ((Call.tryAcquire scope).run soloLibraries ⟨"p", "r", 60000⟩).Runs (acquiredEvents scope)
    (.outcome (.ok (.acquired ticket))) ∧
  FallbackProxy.prepareRequest literalUris ⟨"http", none⟩ (ticketedRequest ticket) ⟨"10.0.0.1"⟩ false =
    .ok (.ok prepared)

theorem receiver_addresses_slot_forwarded :
    ∃ ticket prepared, Forwards "s" ticket prepared ∧
      ∃ rebuilt, AdmissionTicket.fromHeaders prepared.headers.received = .ok (some rebuilt) ∧
        AddressesSlot Unit ⟨"p", "other", 90000⟩ rebuilt "p:inflight:s"
          (utf8 (acquisitionToken (0, 0))) := by
  obtain ⟨ticket, prepared, hruns, hprepare⟩ : ∃ ticket prepared, Forwards "s" ticket prepared :=
    ⟨_, _, .op (.op (.op (.op (.op (.op (.op (.refl _))))))), rfl⟩
  have hset : (.set "p:inflight:s" (utf8 (acquisitionToken (0, 0))) 60000, .ok .okay) ∈
      commandLog (acquiredEvents "s") := List.mem_cons_of_mem _ (List.mem_cons_self ..)
  have hkeyPrefix : (⟨"p", "other", 90000⟩ : RedisAdmissionProvider).keyPrefix = "p" := rfl
  refine ⟨ticket, prepared, ⟨hruns, hprepare⟩, ?_⟩
  exact (receiver_addresses_slot rfl hruns hset hkeyPrefix rfl hprepare).mpr
    (by simp [PaddedText, Call.scope])

/-- The slot of a valid rule that the rebuilt ticket misses. -/
theorem receiver_addresses_slot_fails :
    (AdmissionRule.mk "recorder" " s" 50).isValid = true ∧
    ∃ ticket prepared, Forwards " s" ticket prepared ∧
      (.set "p:inflight: s" (utf8 (acquisitionToken (0, 0))) 60000, .ok .okay) ∈
        commandLog (acquiredEvents " s") ∧
      ¬ ∃ rebuilt, AdmissionTicket.fromHeaders prepared.headers.received = .ok (some rebuilt) ∧
        AddressesSlot Unit ⟨"p", "r", 60000⟩ rebuilt "p:inflight: s"
          (utf8 (acquisitionToken (0, 0))) := by
  refine ⟨by decide +kernel, ?_⟩
  obtain ⟨ticket, prepared, hruns, hprepare⟩ : ∃ ticket prepared, Forwards " s" ticket prepared :=
    ⟨_, _, .op (.op (.op (.op (.op (.op (.op (.refl _))))))), rfl⟩
  have hset : (.set "p:inflight: s" (utf8 (acquisitionToken (0, 0))) 60000, .ok .okay) ∈
      commandLog (acquiredEvents " s") := List.mem_cons_of_mem _ (List.mem_cons_self ..)
  refine ⟨ticket, prepared, ⟨hruns, hprepare⟩, hset, ?_⟩
  have hcompleted : Completed soloLibraries _ (.tryAcquire " s") _ ticket :=
    (tells_call rfl).told hruns _ rfl
  obtain ⟨hcarries, htoken⟩ := hcompleted.carries rfl hprepare
  obtain ⟨hkey, hvalue⟩ := hcompleted.set hset
  rintro ⟨rebuilt, hfrom, hslot⟩
  rw [hkey, hvalue, addresses_reserved_iff rfl] at hslot
  have hpadded : PaddedText " s" := Or.inl ⟨' ', by simp⟩
  exact (hcarries.received_iff htoken).mp ⟨rebuilt, hfrom, hslot⟩ hpadded

end BreezeGateway
