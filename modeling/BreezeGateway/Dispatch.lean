import BreezeGateway.Attempts
import BreezeGateway.Gateway

/-!
# Dispatch

Which gateways can be built, and which of its calls `handle` makes on a request.
-/

namespace BreezeGateway

open Effects

/-! ## Gateways that can be built -/

/-- A selected id is the position of a rule, and the default index holds no rule. -/
structure Routing.Positional {Index : Type} (lib : Routing Index) : Prop where
  lt_length : ∀ rules index method path id, lib.compile rules = .ok index →
    lib.selected index method path = some id → id < rules.length
  default : ∀ method path, lib.selected lib.default method path = none

/-- The tables that `RouteTable::compile` and `RouteTable::empty` make. -/
inductive RouteTable.Built {Index : Type} (lib : Routing Index) : RouteTable Index → Prop where
  | empty : Built lib (.empty lib)
  | compile {config : RoutesConfig} {routes : RouteTable Index}
      (h : RouteTable.compile lib config = .ok routes) : Built lib routes

namespace RouteTable

variable {Index : Type} {lib : Routing Index}

theorem compileRoute_lengths {acc acc' : List (Option AdmissionRule) × List IndexedRouteRule}
    {rule : RouteRule × ℕ} (h : compileRoute acc rule = .ok acc')
    (hacc : acc.1.length = acc.2.length) : acc'.1.length = acc'.2.length := by
  unfold compileRoute at h
  split at h
  · cases h
  · obtain ⟨methods, -, h⟩ := except_bind_ok h
    obtain rfl := Except.ok.inj h
    simp [hacc]

theorem foldlM_lengths {rules : List (RouteRule × ℕ)}
    {acc acc' : List (Option AdmissionRule) × List IndexedRouteRule}
    (h : rules.foldlM compileRoute acc = .ok acc') (hacc : acc.1.length = acc.2.length) :
    acc'.1.length = acc'.2.length :=
  @except_foldlM_ok _ _ _ compileRoute (fun _ acc => acc.1.length = acc.2.length)
    (fun _ _ _ _ hacc h => compileRoute_lengths h hacc) [] rules acc acc' hacc h

theorem Built.lt_length {routes : RouteTable Index} (h : Built lib routes)
    (hlib : lib.Positional) {method : Method} {path : String} {id : ℕ}
    (hid : routes.select lib method path = some id) : id < routes.admissions.length := by
  unfold select at hid
  split at hid
  · cases hid
  · cases h with
    | empty =>
        rw [show lib.selected (RouteTable.empty lib).index method.name path = none from
          hlib.default _ _] at hid
        cases hid
    | @compile config _ h =>
        obtain ⟨exclusions, -, h⟩ := except_bind_ok h
        obtain ⟨exclusions', -, h⟩ := except_bind_ok h
        obtain ⟨⟨admissions, rules⟩, hroutes, h⟩ := except_bind_ok h
        obtain ⟨index, hindex, h⟩ := except_bind_ok h
        obtain rfl := Except.ok.inj h
        have hlengths : admissions.length = rules.length := foldlM_lengths hroutes rfl
        have hcompile : lib.compile rules = .ok index := by
          unfold compileIndex at hindex
          split at hindex
          · rename_i index' hcompile
            obtain rfl := Except.ok.inj hindex
            exact hcompile
          · cases hindex
        change id < admissions.length
        rw [hlengths]
        exact hlib.lt_length _ _ _ _ _ hcompile hid

end RouteTable

inductive Gateway.Built {P Index Cors : Type} (lib : GatewayLibraries Index Cors) :
    Gateway P Index Cors → Prop where
  | new {routes : RouteTable Index} {origin : Uri} {g : Gateway P Index Cors}
      (hroutes : routes.Built lib.router) (h : Gateway.new routes origin = .ok g) : Built lib g
  | withAdmission {routes : RouteTable Index} {origin : Uri} {registry : AdmissionRegistry P}
      {g : Gateway P Index Cors} (hroutes : routes.Built lib.router)
      (h : Gateway.withAdmission routes origin registry = .ok g) : Built lib g
  | withRecordingAdmission {g g' : Gateway P Index Cors} {rule : AdmissionRule} (hg : Built lib g)
      (h : g.withRecordingAdmission rule = .ok g') : Built lib g'
  | withCors {g g' : Gateway P Index Cors} {cors : Cors} (hg : Built lib g)
      (h : g.withCors lib.cors cors = .ok g') : Built lib g'

namespace Gateway

variable {P Index Cors : Type} {lib : GatewayLibraries Index Cors} {g : Gateway P Index Cors}

structure Checked (lib : GatewayLibraries Index Cors) (g : Gateway P Index Cors) : Prop where
  routes : g.routes.Built lib.router
  provider : ∀ rule, some rule ∈ g.routes.admissions → g.admission.get rule.provider ≠ none
  recording : ∀ rule, g.recordingAdmission = some rule → g.admission.get rule.provider ≠ none

theorem get_of_missingProvider {registry : AdmissionRegistry P}
    {admissions : List (Option AdmissionRule × ℕ)} (h : missingProvider registry admissions = none)
    {rule : AdmissionRule} {i : ℕ} (hmem : (some rule, i) ∈ admissions) :
    registry.get rule.provider ≠ none := by
  induction admissions with
  | nil => cases hmem
  | cons entry rest ih =>
      obtain ⟨admission, route⟩ := entry
      cases admission with
      | none =>
          rcases List.mem_cons.mp hmem with heq | hmem
          · cases heq
          · exact ih h hmem
      | some first =>
          unfold missingProvider at h
          split at h
          · cases h
          · rename_i hsome
            rcases List.mem_cons.mp hmem with heq | hmem
            · obtain ⟨heq, -⟩ := Prod.mk.inj heq
              obtain rfl := Option.some.inj heq
              intro hnone
              exact hsome (by rw [hnone]; rfl)
            · exact ih h hmem

theorem checked_of_withAdmission {routes : RouteTable Index} {origin : Uri}
    {registry : AdmissionRegistry P} (hroutes : routes.Built lib.router)
    (h : withAdmission routes origin registry = .ok g) : g.Checked lib := by
  unfold withAdmission at h
  split at h
  · cases h
  · rename_i hmissing
    split at h
    · cases h
    · obtain rfl := Except.ok.inj h
      refine ⟨hroutes, ?_, by simp⟩
      intro rule hrule
      obtain ⟨i, hi, hget⟩ := List.mem_iff_getElem.mp hrule
      apply get_of_missingProvider hmissing (i := i)
      rw [List.mem_zipIdx_iff_getElem?]
      rw [List.getElem?_eq_getElem hi]
      exact congrArg some hget

theorem Built.checked (h : Built lib g) : g.Checked lib := by
  induction h with
  | new hroutes h => exact checked_of_withAdmission hroutes h
  | withAdmission hroutes h => exact checked_of_withAdmission hroutes h
  | withRecordingAdmission hg h ih =>
      unfold Gateway.withRecordingAdmission at h
      split at h
      · cases h
      · split at h
        · cases h
        · rename_i hsome
          obtain rfl := Except.ok.inj h
          refine ⟨ih.routes, ih.provider, ?_⟩
          rintro rule ⟨⟩ hnone
          exact hsome (by rw [hnone]; rfl)
  | withCors hg h ih =>
      unfold Gateway.withCors at h
      split at h
      · cases h
      · obtain rfl := Except.ok.inj h
        exact ⟨ih.routes, ih.provider, ih.recording⟩

/-! ## The rule of a request -/

variable (lib g)

/-- The rule that decides about a request: none if it is excluded, else the recording rule, else
the rule of the first route that matches. -/
def applies (request : Request Incoming) : Option AdmissionRule :=
  if g.routes.isExcluded lib.router request.method request.uri.path then none
  else
    match g.recordingAdmission with
    | some rule => some rule
    | none => (g.selected lib request).bind fun id => (g.routes.admissions[id]?).join

variable {lib g}

theorem rule_eq (hg : g.Checked lib) (hlib : lib.router.Positional) (request : Request Incoming) :
    g.rule lib request = .ok (g.applies lib request) := by
  unfold rule applies globalRule
  by_cases hexcluded : g.routes.isExcluded lib.router request.method request.uri.path = true
  · have hselected : g.selected lib request = none := if_pos hexcluded
    rw [if_pos hexcluded, hselected]
    cases g.recordingAdmission with
    | none => rfl
    | some rule => simp [hexcluded]
  · rw [if_neg hexcluded]
    cases g.recordingAdmission with
    | some rule => simp [Option.filter, hexcluded]
    | none =>
        dsimp only [Option.filter]
        cases hselected : g.selected lib request with
        | none => rfl
        | some id =>
            have hid : id < g.routes.admissions.length := hg.routes.lt_length hlib hselected
            dsimp only [Option.bind]
            unfold routeRule
            rw [List.getElem?_eq_getElem hid]
            rfl

theorem provider_of_applies (hg : g.Checked lib) {request : Request Incoming} {rule : AdmissionRule}
    (h : g.applies lib request = some rule) : ∃ provider, g.admission.get rule.provider = some provider := by
  apply Option.ne_none_iff_exists'.mp
  unfold applies at h
  split at h
  · cases h
  · split at h
    · rename_i hrecording
      obtain rfl := Option.some.inj h
      exact hg.recording _ hrecording
    · obtain ⟨id, -, hid⟩ := Option.bind_eq_some_iff.mp h
      rw [Option.join_eq_some_iff] at hid
      exact hg.provider rule (List.mem_of_getElem? hid)

/-! ## The runs of `handle` -/

variable (lib g)

/-- Where the request goes, by the rule that applies to it. -/
def decide (request : Request Incoming) : Option AdmissionRule →
    Prog (gatewaySig P) (Bool × Request Incoming)
  | none => .ret ((g.selected lib request).isSome, request)
  | some rule =>
      match g.admission.get rule.provider with
      | none => .op (.panic "configured providers were validated at construction") nofun
      | some provider =>
          .op (.acquire provider (g.providerCall lib request rule) rule.acquireTimeoutMs)
            fun result : Option (Except AdmissionError AcquireOutcome) =>
              .ret (g.admitted request rule (result.getD (.error .timeout)))

/-- The `Origin` header, as far as CORS is configured. -/
def originOf (request : Request Incoming) : Option HeaderValue :=
  if g.cors.isSome then request.headers.get originHeader else none

def send (origin : Option HeaderValue) (peer : SocketAddr) (d : Bool × Request Incoming) :
    Prog (gatewaySig P) Response :=
  if d.1 then .op (.call d.2 peer) fun x : Response => .ret (g.deliver lib origin x)
  else .op (.forward d.2 peer) fun x : Response => .ret (g.deliver lib origin x)

variable {lib g} {request : Request Incoming} {peer : SocketAddr} {response : Response}

theorem handle_preflight (h : g.preflight lib (strip request) = some response) :
    g.handle lib request peer = .ret response := by
  unfold handle
  dsimp only
  rw [h]

theorem handle_eq (hg : g.Checked lib) (hlib : lib.router.Positional)
    (h : g.preflight lib (strip request) = none) :
    g.handle lib request peer =
      g.decide lib (strip request) (g.applies lib (strip request)) >>=
        g.send lib (g.originOf (strip request)) peer := by
  unfold handle
  dsimp only
  rw [h, rule_eq hg hlib]
  dsimp only [raise, Prog.ret_bind]
  generalize strip request = r
  have hsend : ∀ d : Bool × Request Incoming,
      ((if d.1 then Prog.perform (S := gatewaySig P) (.call d.2 peer)
        else Prog.perform (S := gatewaySig P) (.forward d.2 peer) : Prog (gatewaySig P) Response) >>=
          fun response => .ret (g.deliver lib (g.originOf r) response)) =
        g.send lib (g.originOf r) peer d := by
    intro d
    unfold send
    split <;> rfl
  cases g.applies lib r with
  | none => exact hsend _
  | some rule =>
      dsimp only [decide]
      cases g.admission.get rule.provider with
      | none => exact congrArg (Prog.op (S := gatewaySig P) _) (funext fun x : Empty => x.elim)
      | some provider => exact congrArg (Prog.op (S := gatewaySig P) _) (funext fun x => hsend _)

/-- The provider has given a ticket for the scope of the rule. -/
def Acquires (rule : AdmissionRule) (result : Option (Except AdmissionError AcquireOutcome))
    (ticket : AdmissionTicket) : Prop :=
  result = some (.ok (.acquired ticket)) ∧ ticket.scope = rule.scope

/-- A request with its ticket, to be replayed at the fallback of the gateway. -/
def record (g : Gateway P Index Cors) (ticket : AdmissionTicket) (request : Request Incoming) :
    Request Incoming :=
  { ticket.attach request with
    extensions := { (ticket.attach request).extensions with recordingFallback := some g.fallback } }

theorem admitted_of_acquires {rule : AdmissionRule}
    {result : Option (Except AdmissionError AcquireOutcome)} {ticket : AdmissionTicket}
    (h : Acquires rule result ticket) :
    g.admitted request rule (result.getD (.error .timeout)) = (true, g.record ticket request) := by
  obtain ⟨rfl, hscope⟩ := h
  exact if_pos hscope

theorem admitted_of_not_acquires {rule : AdmissionRule}
    {result : Option (Except AdmissionError AcquireOutcome)}
    (h : ∀ ticket, ¬ Acquires rule result ticket) :
    g.admitted request rule (result.getD (.error .timeout)) = (false, request) := by
  cases result with
  | none => rfl
  | some result =>
      cases result with
      | error e => rfl
      | ok outcome =>
          cases outcome with
          | acquired ticket => exact if_neg fun hscope => h ticket ⟨rfl, hscope⟩
          | _ => rfl

/-- What happens to a stripped request that is no preflight. -/
inductive Dispatched (lib : GatewayLibraries Index Cors) (g : Gateway P Index Cors)
    (r : Request Incoming) (peer : SocketAddr) : List (Event (gatewaySig P)) → Response → Prop where
  | matched (x : Response) (hrule : g.applies lib r = none)
      (hselected : (g.selected lib r).isSome = true) :
      Dispatched lib g r peer [⟨.call r peer, x⟩] (g.deliver lib (g.originOf r) x)
  | unmatched (x : Response) (hrule : g.applies lib r = none)
      (hselected : (g.selected lib r).isSome = false) :
      Dispatched lib g r peer [⟨.forward r peer, x⟩] (g.deliver lib (g.originOf r) x)
  | admitted {rule : AdmissionRule} {provider : P} {ticket : AdmissionTicket}
      (result : Option (Except AdmissionError AcquireOutcome)) (x : Response)
      (hrule : g.applies lib r = some rule) (hprovider : g.admission.get rule.provider = some provider)
      (hacquires : Acquires rule result ticket) :
      Dispatched lib g r peer
        [⟨.acquire provider (g.providerCall lib r rule) rule.acquireTimeoutMs, result⟩,
          ⟨.call (g.record ticket r) peer, x⟩] (g.deliver lib (g.originOf r) x)
  | refused {rule : AdmissionRule} {provider : P}
      (result : Option (Except AdmissionError AcquireOutcome)) (x : Response)
      (hrule : g.applies lib r = some rule) (hprovider : g.admission.get rule.provider = some provider)
      (hrefused : ∀ ticket, ¬ Acquires rule result ticket) :
      Dispatched lib g r peer
        [⟨.acquire provider (g.providerCall lib r rule) rule.acquireTimeoutMs, result⟩,
          ⟨.forward r peer, x⟩] (g.deliver lib (g.originOf r) x)

theorem runs_send {origin : Option HeaderValue} {d : Bool × Request Incoming}
    {tr : List (Event (gatewaySig P))} (h : (g.send lib origin peer d).Runs tr response) :
    ∃ x, response = g.deliver lib origin x ∧
      ((d.1 = true ∧ tr = [⟨.call d.2 peer, x⟩]) ∨ (d.1 = false ∧ tr = [⟨.forward d.2 peer, x⟩])) := by
  unfold send at h
  split at h
  · rename_i hmatched
    obtain ⟨x, rest, rfl, hrest⟩ := Prog.runs_op.mp h
    obtain ⟨rfl, rfl⟩ := Prog.runs_ret.mp hrest
    exact ⟨x, rfl, Or.inl ⟨hmatched, rfl⟩⟩
  · rename_i hmatched
    obtain ⟨x, rest, rfl, hrest⟩ := Prog.runs_op.mp h
    obtain ⟨rfl, rfl⟩ := Prog.runs_ret.mp hrest
    exact ⟨x, rfl, Or.inr ⟨Bool.eq_false_of_not_eq_true hmatched, rfl⟩⟩

theorem dispatched_of_runs (hg : g.Checked lib) (hlib : lib.router.Positional)
    {tr : List (Event (gatewaySig P))} (h : (g.handle lib request peer).Runs tr response) :
    (g.preflight lib (strip request) = some response ∧ tr = []) ∨
      (g.preflight lib (strip request) = none ∧
        Dispatched lib g (strip request) peer tr response) := by
  cases hpreflight : g.preflight lib (strip request) with
  | some answer =>
      rw [handle_preflight hpreflight] at h
      obtain ⟨rfl, rfl⟩ := Prog.runs_ret.mp h
      exact Or.inl ⟨rfl, rfl⟩
  | none =>
      rw [handle_eq hg hlib hpreflight] at h
      obtain ⟨d, tr₁, tr₂, rfl, hd, hsent⟩ := Prog.runs_bind.mp h
      obtain ⟨x, rfl, hx⟩ := runs_send hsent
      refine Or.inr ⟨rfl, ?_⟩
      cases hrule : g.applies lib (strip request) with
      | none =>
          rw [hrule] at hd
          obtain ⟨rfl, rfl⟩ := Prog.runs_ret.mp hd
          rcases hx with ⟨hmatched, rfl⟩ | ⟨hmatched, rfl⟩
          · exact .matched x hrule hmatched
          · exact .unmatched x hrule hmatched
      | some rule =>
          obtain ⟨provider, hprovider⟩ := provider_of_applies hg hrule
          rw [hrule] at hd
          simp only [decide, hprovider] at hd
          obtain ⟨result, rest, rfl, hrest⟩ := Prog.runs_op.mp hd
          obtain ⟨rfl, rfl⟩ := Prog.runs_ret.mp hrest
          by_cases hacquires : ∃ ticket, Acquires rule result ticket
          · obtain ⟨ticket, hacquires⟩ := hacquires
            rw [admitted_of_acquires hacquires] at hx
            rcases hx with ⟨-, rfl⟩ | ⟨hfalse, -⟩
            · exact .admitted result x hrule hprovider hacquires
            · cases hfalse
          · have hrefused : ∀ ticket, ¬ Acquires rule result ticket :=
              fun ticket hticket => hacquires ⟨ticket, hticket⟩
            rw [admitted_of_not_acquires hrefused] at hx
            rcases hx with ⟨hfalse, -⟩ | ⟨-, rfl⟩
            · cases hfalse
            · exact .refused result x hrule hprovider hrefused

theorem providerCall_eq {r : Request Incoming} {rule : AdmissionRule}
    (h : g.applies lib r = some rule) :
    g.providerCall lib r rule =
      if g.recordingAdmission.isSome then .tryAcquireRequest rule.scope r.uri.path
      else .tryAcquire rule.scope := by
  unfold applies at h
  split at h
  · cases h
  · rename_i hexcluded
    unfold providerCall globalRule
    cases g.recordingAdmission with
    | none => rfl
    | some rule => simp [Option.filter, hexcluded]

/-! ## The dispatch law -/

def acquisition (e : Event (gatewaySig P)) :
    Option (P × ProviderCall × Option (Except AdmissionError AcquireOutcome)) :=
  match e with
  | ⟨.acquire provider call _, result⟩ => some (provider, call, result)
  | _ => none

def called (e : Event (gatewaySig P)) : Option (Request Incoming) :=
  match e with
  | ⟨.call request _, _⟩ => some request
  | _ => none

def forwarded (e : Event (gatewaySig P)) : Option (Request Incoming) :=
  match e with
  | ⟨.forward request _, _⟩ => some request
  | _ => none

def IsPanic : (gatewaySig P).Op → Prop
  | .panic _ => True
  | _ => False

theorem handle_avoids_panic (hg : g.Checked lib) (hlib : lib.router.Positional) :
    (g.handle lib request peer).Avoids IsPanic := by
  cases hpreflight : g.preflight lib (strip request) with
  | some answer =>
      rw [handle_preflight hpreflight]
      trivial
  | none =>
      rw [handle_eq hg hlib hpreflight]
      apply Prog.Avoids.bind
      · cases hrule : g.applies lib (strip request) with
        | none => trivial
        | some rule =>
            obtain ⟨provider, hprovider⟩ := provider_of_applies hg hrule
            simp only [decide, hprovider]
            exact ⟨id, fun _ => trivial⟩
      · intro d
        unfold send
        split
        · exact ⟨id, fun _ => trivial⟩
        · exact ⟨id, fun _ => trivial⟩

theorem selected_of_excluded {r : Request Incoming}
    (h : g.routes.isExcluded lib.router r.method r.uri.path = true) :
    g.applies lib r = none ∧ g.selected lib r = none :=
  ⟨if_pos h, if_pos h⟩

/-- The first case of the dispatch law: a rule applied, and the provider gave its ticket. -/
def Admits (lib : GatewayLibraries Index Cors) (g : Gateway P Index Cors) (r : Request Incoming)
    (tr : List (Event (gatewaySig P))) (ticket : AdmissionTicket) : Prop :=
  ∃ rule a, g.applies lib r = some rule ∧ a ∈ tr.filterMap acquisition ∧ Acquires rule a.2.2 ticket

/-- A request that carries the ticket `t` and is to be replayed at `f`. -/
structure Carries (m : Request Incoming) (t : AdmissionTicket) (f : FallbackProxy) : Prop where
  ticket : m.extensions.ticket = some t
  scope : m.headers.getAll admissionScopeHeader = [t.scopeValue]
  token : m.headers.getAll admissionTokenHeader = [t.tokenValue]
  fallback : m.extensions.recordingFallback = some f

/-- A request without ticket, which keeps what `request` had as `RecordingFallback`: nothing, unless
it comes from the dispatch of another gateway. -/
structure Plain (m request : Request Incoming) : Prop where
  ticket : m.extensions.ticket = none
  scope : m.headers.getAll admissionScopeHeader = []
  token : m.headers.getAll admissionTokenHeader = []
  fallback : m.extensions.recordingFallback = request.extensions.recordingFallback

theorem carries_record {t : AdmissionTicket} {r : Request Incoming} :
    Carries (g.record t r) t g.fallback := by
  refine ⟨rfl, ?_, ?_, rfl⟩
  · change (t.attach r).headers.getAll admissionScopeHeader = _
    rw [FallbackProxy.getAll_attach, if_neg admissionScopeHeader_ne_token, if_pos rfl]
  · change (t.attach r).headers.getAll admissionTokenHeader = _
    rw [FallbackProxy.getAll_attach, if_pos rfl]

theorem plain_strip : Plain (strip request) request := by
  refine ⟨rfl, ?_, ?_, rfl⟩
  · unfold strip HeaderMap.getAll
    simp [HeaderMap.values_remove]
  · unfold strip HeaderMap.getAll
    simp [HeaderMap.values_remove]

end Gateway

/-! ## A gateway that records everything -/

def plainRouting : Routing Unit where
  compile _ := .ok ()
  selected _ _ _ := none
  isMatch _ _ _ := false
  default := ()

theorem plainRouting_positional : plainRouting.Positional where
  lt_length := by
    intro rules index method path id _ h
    cases h
  default _ _ := rfl

def plainLibraries : GatewayLibraries Unit Unit := ⟨plainRouting, literalUris, plainCors⟩

def plainGateway : Gateway Unit Unit Unit where
  routes := .empty plainRouting
  fallback := ⟨"http", some "fallback"⟩
  admission := ⟨fun name => if name = "recorder" then some () else none⟩
  recordingAdmission := some ⟨"recorder", "writes", 50⟩
  cors := none

theorem plainGateway_built_of {lib : GatewayLibraries Unit Unit} (hlib : lib.router = plainRouting) :
    Gateway.Built lib plainGateway := by
  have hnew : Gateway.withAdmission (.empty plainRouting) ⟨some "http", some "fallback", ⟨"", none⟩⟩
      plainGateway.admission = .ok { plainGateway with recordingAdmission := none } := rfl
  have hvalid : (AdmissionRule.mk "recorder" "writes" 50).isValid = true := by decide +kernel
  have hrecording : Gateway.withRecordingAdmission { plainGateway with recordingAdmission := none }
      ⟨"recorder", "writes", 50⟩ = .ok plainGateway := by
    unfold Gateway.withRecordingAdmission
    rw [hvalid]
    rfl
  have hroutes : RouteTable.Built lib.router (.empty plainRouting) := hlib ▸ .empty
  exact .withRecordingAdmission (.withAdmission hroutes hnew) hrecording

theorem plainGateway_built : Gateway.Built plainLibraries plainGateway := plainGateway_built_of rfl

def plainTicket : AdmissionTicket where
  scopeValue := .fromStatic "writes"
  tokenValue := .fromStatic "t0"
  origin := none
  scope_visible := by decide
  token_visible := by decide
  origin_http := noOrigin_http

namespace Gateway

end Gateway

end BreezeGateway
