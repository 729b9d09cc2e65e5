import BreezeGateway.RedisAdmission.KeyLease
import BreezeGateway.RedisAdmission.Lease
import BreezeGateway.RedisAdmission.Provider

/-!
# Recorder registrations

`src/redis_admission/registration.rs`, and any number of registrations on one key together with
the lookups of `acquire`.  The text of a registration is the lease token and the address at once.
-/

namespace BreezeGateway

open Effects Effects.Network

/-- Equal as the `PartialEq` of `http::Uri` compares. -/
def Uri.Same (u v : Uri) : Prop :=
  u.scheme = v.scheme ∧ u.authority = v.authority ∧ u.path = v.path ∧ u.query = v.query

theorem Uri.Same.isHttpOrigin {u v : Uri} (h : u.Same v) : u.isHttpOrigin = v.isHttpOrigin := by
  obtain ⟨hscheme, hauthority, hpath, hquery⟩ := h
  unfold Uri.isHttpOrigin
  rw [hscheme, hauthority, hpath, hquery]

/-- What a registration takes from other crates. -/
structure RegistrationLibraries (Index : Type) extends Libraries Index where
  /-- `Uri::to_string`. -/
  displayUri : Uri → String
  /-- `serde_json::to_string::<Address>`. -/
  encodeAddress : Address → Except String String

/-- A struct is written as a JSON object, and read back with its strings. -/
structure RegistrationLibraries.RoundTrips {Index : Type} (lib : RegistrationLibraries Index) :
    Prop where
  object : ∀ address text, lib.encodeAddress address = .ok text → text.toList.head? = some '{'
  address : ∀ address text, lib.encodeAddress address = .ok text →
    lib.decodeAddress text = some address
  uri : ∀ uri : Uri, uri.isHttpOrigin = true →
    ∃ parsed, lib.parseUri (lib.displayUri uri) = .ok parsed ∧ parsed.Same uri

/-- One owner per discovery key. -/
structure RecorderRegistration where
  key : String
  value : String
  ttlMs : ℕ
deriving DecidableEq

abbrev noSig : Sig := ⟨Empty, nofun⟩

abbrev RegistrationTask (α : Type) := Task noSig α

namespace RecorderRegistration

section

variable {Index : Type} (lib : RegistrationLibraries Index)

def new (key : String) (url : Uri) (ttl : ℕ) (owner : Fin (2 ^ 128)) :
    Except AdmissionError RecorderRegistration := do
  let _ ← AdmissionTicket.new "registration" "validation" >>= (·.withOrigin url)
  if key = "" ∨ asMillis ttl = 0 ∨ asMillis ttl > i64Max ∨ subsecNanos ttl % 1000000 ≠ 0 then
    throw (.backend "registration key and whole-millisecond TTL must be valid")
  else
    match lib.encodeAddress ⟨lib.displayUri url, hex32 owner⟩ with
    | .error message => throw (.backend message)
    | .ok value => pure ⟨key, value, asMillis ttl⟩

end

section

variable (self : RecorderRegistration)

def unexpectedResponse : String := "unexpected Redis registration response"

def register : RegistrationTask Bool := reserve self.key self.value self.ttlMs

def renew : RegistrationTask Bool :=
  transition (.renew self.key (utf8 self.value) self.ttlMs) unexpectedResponse

def unregister : RegistrationTask Bool :=
  transition (.complete self.key (utf8 self.value)) unexpectedResponse

end

/-! ## Construction -/

variable {Index : Type} {lib : RegistrationLibraries Index} {key : String} {url : Uri} {ttl : ℕ}
  {owner : Fin (2 ^ 128)} {registration : RecorderRegistration}

structure BuiltFrom (lib : RegistrationLibraries Index) (key : String) (url : Uri) (ttl : ℕ)
    (owner : Fin (2 ^ 128)) (registration : RecorderRegistration) : Prop where
  origin : url.isHttpOrigin = true
  key : registration.key = key
  value : lib.encodeAddress ⟨lib.displayUri url, hex32 owner⟩ = .ok registration.value
  ttl : millis registration.ttlMs = ttl

theorem builtFrom_of_new (h : new lib key url ttl owner = .ok registration) :
    BuiltFrom lib key url ttl owner registration := by
  unfold new at h
  obtain ⟨ticket', horigin, h⟩ := except_bind_ok h
  obtain ⟨ticket, -, horigin⟩ := except_bind_ok horigin
  have hhttp : url.isHttpOrigin = true := by
    unfold AdmissionTicket.withOrigin at horigin
    split at horigin
    · assumption
    · cases horigin
  split at h
  · cases h
  · rename_i hcheck
    simp only [subsecNanos, not_or, not_not] at hcheck
    obtain ⟨-, -, -, hwhole⟩ := hcheck
    cases hvalue : lib.encodeAddress ⟨lib.displayUri url, hex32 owner⟩ with
    | error message =>
        rw [hvalue] at h
        cases h
    | ok value =>
        rw [hvalue] at h
        obtain rfl := Except.ok.inj h
        refine ⟨hhttp, rfl, hvalue, ?_⟩
        dsimp only
        unfold millis asMillis
        omega

theorem BuiltFrom.discovered (hlib : lib.RoundTrips) (h : BuiltFrom lib key url ttl owner registration) :
    ∃ origin, registrationOrigin lib.toLibraries (utf8 registration.value) = .ok origin ∧ origin.Same url := by
  obtain ⟨parsed, hparse, hsame⟩ := hlib.uri url h.origin
  refine ⟨parsed, ?_, hsame⟩
  have hobject : (trimStart registration.value).head? = some '{' := by
    have hhead := hlib.object _ _ h.value
    unfold trimStart
    cases hchars : registration.value.toList with
    | nil =>
        rw [hchars] at hhead
        cases hhead
    | cons c rest =>
        rw [hchars] at hhead
        obtain rfl := Option.some.inj hhead
        rfl
  have haddress := hlib.address _ _ h.value
  simp only [registrationOrigin, fromUtf8_utf8, Option.elim_some, hobject, haddress,
    hex32_not_blank, if_true, Bool.false_eq_true, if_false, pure_bind, hparse]
  rfl

end RecorderRegistration

/-! ## Registrations on one key -/

structure Registrar {Index : Type} (lib : RegistrationLibraries Index) (key : String) where
  url : Uri
  ttl : ℕ
  owner : Fin (2 ^ 128)
  registration : RecorderRegistration
  new_eq : RecorderRegistration.new lib key url ttl owner = .ok registration

inductive RegistrationCall (G : Type) where
  | register (g : G)
  | renew (g : G)
  | unregister (g : G)
  /-- The lookup of the recorder in `acquire`. -/
  | lookup

inductive RegistrationResult where
  | done (r : Except AdmissionError Bool)
  | found (r : Except AdmissionError (Option Uri))

structure RegistrationDeployment {Index : Type} (lib : RegistrationLibraries Index)
    (G T Lane : Type) where
  key : String
  registrar : G → Registrar lib key
  call : T → RegistrationCall G
  lane : T → Lane
  /-- The writes of everybody else. -/
  others : ℕ → Db → Db → Prop

namespace RegistrationDeployment

variable {Index G T Lane : Type} {lib : RegistrationLibraries Index}
  (D : RegistrationDeployment lib G T Lane)

def registration (g : G) : RecorderRegistration := (D.registrar g).registration

def value (g : G) : Bytes := utf8 (D.registration g).value

def lookup : RegistrationTask (Option Uri) := do
  Task.ofResult (RedisAdmissionProvider.recorderOrigin lib.toLibraries
    (← Task.command (.get D.key)))

def run : RegistrationCall G → Prog (redisSig noSig) RegistrationResult
  | .register g => .done <$> (D.registration g).register.run
  | .renew g => .done <$> (D.registration g).renew.run
  | .unregister g => .done <$> (D.registration g).unregister.run
  | .lookup => .found <$> D.lookup.run

def command : RegistrationCall G → Command
  | .register g => .set D.key (D.value g) (D.registration g).ttlMs
  | .renew g => .renew D.key (D.value g) (D.registration g).ttlMs
  | .unregister g => .complete D.key (D.value g)
  | .lookup => .get D.key

def network : Network Command Reply noSig Db Unit T Lane Unit RegistrationResult where
  exec := Db.exec
  conveys := Conveys
  garbled := Malformed
  lane := D.lane
  environment := D.others
  launch _ _ t p _ := p = D.run (D.call t)
  act _ _ _ l := nomatch l
  suspends l := nomatch l
  finish _ _ _ _ := ()
  cancel _ _ _ _ := ()

abbrev RegistrationWorld (T Lane : Type) :=
  World Command Reply noSig Db Unit T Lane RegistrationResult

abbrev RegistrationLabel (T : Type) := Label Command Reply noSig T Unit RegistrationResult

abbrev RegistrationHistory (T : Type) := History Command Reply noSig T Unit RegistrationResult

/-- The key reads as the text of the registration. -/
def Live (w : RegistrationWorld T Lane) (g : G) : Prop :=
  w.db.strings.read w.now D.key = some (D.value g)

instance (w : RegistrationWorld T Lane) (g : G) : Decidable (D.Live w g) :=
  inferInstanceAs (Decidable (_ = _))

def Registered (g : G) (l : RegistrationLabel T) : Prop :=
  executed l = some (D.command (.register g), Db.setReply true)

def Renewed (g : G) (l : RegistrationLabel T) : Prop :=
  executed l = some (D.command (.renew g), Db.transitionReply true)

def Unregistered (g : G) (l : RegistrationLabel T) : Prop :=
  executed l = some (D.command (.unregister g), Db.transitionReply true)

variable {D} {g g' : G} {t : T}

theorem builtFrom (g : G) : RecorderRegistration.BuiltFrom lib D.key (D.registrar g).url
    (D.registrar g).ttl (D.registrar g).owner (D.registration g) :=
  RecorderRegistration.builtFrom_of_new (D.registrar g).new_eq

theorem value_injective (hlib : lib.RoundTrips)
    (howners : Function.Injective fun g => hex32 (D.registrar g).owner) :
    Function.Injective D.value := by
  intro g g' h
  have htext : (D.registration g).value = (D.registration g').value := utf8_injective h
  have haddress := hlib.address _ _ (D.builtFrom g).value
  rw [htext, hlib.address _ _ (D.builtFrom g').value] at haddress
  exact howners (Address.mk.inj (Option.some.inj haddress)).2.symm

theorem run_sendsOnly (call : RegistrationCall G) :
    (D.run call).Meets ((noTale noSig).contract (sendsOnly noSig (· = D.command call))) ()
      fun _ _ => True := by
  have hkey : ∀ g, (D.registration g).key = D.key := fun g => (D.builtFrom g).key
  have htransition : ∀ {c : Command} {unexpected : String}, c = D.command call →
      (RegistrationResult.done <$> (transition c unexpected : RegistrationTask Bool).run).Meets
        ((noTale noSig).contract (sendsOnly noSig (· = D.command call))) () fun _ _ => True := by
    intro c unexpected hc
    exact Prog.meets_map.mpr (meets_transition hc (fun _ _ => trivial) (fun _ _ => trivial)
      fun _ _ _ _ => trivial)
  cases call with
  | register g =>
      refine Prog.meets_map.mpr (meets_reserve ?_ (fun _ _ _ _ => trivial) (fun _ _ => trivial)
        fun _ _ _ _ => trivial)
      rw [hkey]
      rfl
  | renew g =>
      apply htransition
      rw [hkey]
      rfl
  | unregister g =>
      apply htransition
      rw [hkey]
      rfl
  | lookup =>
      refine Prog.meets_map.mpr ?_
      unfold lookup
      rw [meets_bind_ok]
      refine meets_command rfl ?_ ?_
      · intros
        trivial
      · intros
        trivial

/-- Whatever the client sees of the reply, the call returns `x`. -/
def Answers (D : RegistrationDeployment lib G T Lane) (call : RegistrationCall G) (r : Reply)
    (x : RegistrationResult) : Prop :=
  ∀ r', Conveys (D.command call) r r' → (D.run call).Runs [⟨.inl (D.command call), r'⟩] x

theorem run_renew (g : G) : D.run (.renew g) =
    .done <$> (transition (D.command (.renew g)) RecorderRegistration.unexpectedResponse).run := by
  simp only [run, RecorderRegistration.renew, command, (D.builtFrom g).key, value]

theorem run_unregister (g : G) : D.run (.unregister g) =
    .done <$> (transition (D.command (.unregister g)) RecorderRegistration.unexpectedResponse).run := by
  simp only [run, RecorderRegistration.unregister, command, (D.builtFrom g).key, value]

theorem answers_false {call : RegistrationCall G} (h : call = .renew g ∨ call = .unregister g) :
    D.Answers call (Db.transitionReply false) (.done (.ok false)) := by
  rintro r' (rfl | ⟨h', -⟩)
  · rcases h with rfl | rfl
    · rw [run_renew]
      exact .op (.refl _)
    · rw [run_unregister]
      exact .op (.refl _)
  · cases h'

theorem exec_of_not_live {call : RegistrationCall G} (h : call = .renew g ∨ call = .unregister g)
    {now : ℕ} {db : Db} (hlive : db.strings.read now D.key ≠ some (D.value g)) :
    db.exec now (D.command call) = (db, Db.transitionReply false) := by
  rcases h with rfl | rfl
  · simp only [command, Db.exec, Store.extendIf, if_neg hlive]
  · simp only [command, Db.exec, Store.removeIf, if_neg hlive]

theorem answers_found (hlib : lib.RoundTrips) (g : G) :
    ∃ origin, D.Answers .lookup (Db.readReply (some (D.value g))) (.found (.ok (some origin))) ∧
      origin.Same (D.registrar g).url := by
  obtain ⟨origin, horigin, hsame⟩ := (D.builtFrom g).discovered hlib
  refine ⟨origin, ?_, hsame⟩
  rintro r' (rfl | ⟨h, -⟩)
  · have hfound : RedisAdmissionProvider.recorderOrigin lib.toLibraries (.bulkString (D.value g)) =
        .ok (some origin) := by
      simp only [RedisAdmissionProvider.recorderOrigin, value, horigin]
      rfl
    refine .op ?_
    change Prog.Steps (.ret (RegistrationResult.found
      (RedisAdmissionProvider.recorderOrigin lib.toLibraries _))) _ _
    rw [hfound]
    exact .refl _
  · cases h

section

variable [DecidableEq T] [DecidableEq Lane] {w₀ w w' : RegistrationWorld T Lane}
  {l : RegistrationLabel T} {ls : RegistrationHistory T}

theorem executed_command (hidle : ∀ t, w₀.threads t = none) (hempty : ∀ lane, w₀.strays lane = [])
    (hrun : D.network.Run w₀ ls w) {x : ℕ × RegistrationLabel T} (hx : x ∈ ls) {c : Command}
    {r : Reply} (h : executed x.2 = some (c, r)) : ∃ call, c = D.command call := by
  have hlaunch : ∀ now mem t p mem', D.network.launch now mem t p mem' →
      p.Meets ((noTale noSig).contract (sendsOnly noSig (· = D.command (D.call t)))) ()
        fun _ _ => True := by
    rintro now mem t p mem' rfl
    exact run_sendsOnly _
  obtain ⟨t, ht⟩ := executed_sendsOnly hlaunch hidle hempty hrun hx h
  exact ⟨_, ht⟩

omit [DecidableEq T] [DecidableEq Lane] in
theorem registered_or_renewed_of_grants (hvalue : Function.Injective D.value) {c : Command}
    {r : Reply} {px : ℕ} (hcall : ∃ call, c = D.command call) (h : executed l = some (c, r))
    (hgrant : Grants D.key (D.value g) px c r) : D.Registered g l ∨ D.Renewed g l := by
  obtain ⟨call, rfl⟩ := hcall
  generalize hc : D.command call = c at h hgrant
  cases hgrant with
  | set =>
      left
      cases call with
      | register g' =>
          obtain ⟨-, hv, hpx⟩ := Command.set.inj hc
          obtain rfl := hvalue hv
          unfold Registered
          rw [h, ← hc]
      | _ => cases hc
  | renew =>
      right
      cases call with
      | renew g' =>
          obtain ⟨-, hv, hpx⟩ := Command.renew.inj hc
          obtain rfl := hvalue hv
          unfold Renewed
          rw [h, ← hc]
      | _ => cases hc

end

end RegistrationDeployment

/-! ## Two recorders -/

def isPlain (s : String) : Bool :=
  s.toList.all fun c => c != '"' && c != '\\' && decide (32 ≤ c.toNat)

/-- What the quotation marks of a plain address separate. -/
def addressParts (url owner : List Char) : List (List Char) :=
  [['\x7b'], "url".toList, [':'], url, [','], "owner".toList, [':'], owner, ['\x7d']]

/-- The libraries on plain addresses and origins without a port to normalise. -/
def addressLibraries : RegistrationLibraries Unit where
  compile _ := .ok ()
  selected _ _ _ := none
  isMatch _ _ _ := false
  parseUri text :=
    if "http://".toList <+: text.toList ∧ text.toList.getLast? = some '/' then
      .ok ⟨some "http", some (String.ofList (text.toList.drop 7).dropLast), ⟨"/", none⟩⟩
    else .error "invalid uri"
  decodePolicy _ := .error "invalid policy"
  decodeAddress text :=
    match text.toList.splitOn '"' with
    | [_, _, _, url, _, _, _, owner, _] =>
        if text.toList.splitOn '"' = addressParts url owner then
          some ⟨String.ofList url, String.ofList owner⟩
        else none
    | _ => none
  displayUri uri :=
    uri.scheme.elim "" (· ++ "://") ++ uri.authority.getD "" ++ uri.path ++ uri.query.elim "" ("?" ++ ·)
  encodeAddress address :=
    if isPlain address.url ∧ isPlain address.owner then
      .ok (String.ofList (['"'].intercalate (addressParts address.url.toList address.owner.toList)))
    else .error "escapes are not supported"

theorem splitOn_addressParts {url owner : String} (hurl : isPlain url = true)
    (howner : isPlain owner = true) :
    (['"'].intercalate (addressParts url.toList owner.toList)).splitOn '"' =
      addressParts url.toList owner.toList := by
  have hplain : ∀ s : String, isPlain s = true → '"' ∉ s.toList := by
    intro s hs hmem
    have hc := List.all_eq_true.mp hs _ hmem
    simp at hc
  apply List.splitOn_intercalate
  · intro part hpart
    simp only [addressParts, List.mem_cons, List.not_mem_nil, or_false] at hpart
    rcases hpart with rfl | rfl | rfl | rfl | rfl | rfl | rfl | rfl | rfl
    · decide
    · decide
    · decide
    · exact hplain url hurl
    · decide
    · decide
    · decide
    · exact hplain owner howner
    · decide
  · simp [addressParts]

theorem addressLibraries_roundTrips : addressLibraries.RoundTrips where
  object address text h := by
    simp only [addressLibraries] at h
    split at h
    · obtain rfl := Except.ok.inj h
      rw [String.toList_ofList]
      rfl
    · cases h
  address address text h := by
    simp only [addressLibraries] at h ⊢
    split at h
    · rename_i hplain
      obtain rfl := Except.ok.inj h
      rw [String.toList_ofList, splitOn_addressParts hplain.1 hplain.2]
      simp [addressParts, String.ofList_toList]
    · cases h
  uri uri h := by
    simp only [Uri.isHttpOrigin, Bool.and_eq_true, beq_iff_eq, Option.isNone_iff_eq_none] at h
    obtain ⟨⟨⟨hscheme, hauthority⟩, hpath⟩, hquery⟩ := h
    obtain ⟨authority, hauthority⟩ := Option.isSome_iff_exists.mp hauthority
    have htext : (addressLibraries.displayUri uri).toList =
        "http://".toList ++ (authority.toList ++ ['/']) := by
      have hdisplay : addressLibraries.displayUri uri = "http" ++ "://" ++ authority ++ "/" ++ "" := by
        simp only [addressLibraries, hscheme, hauthority, hpath, hquery, Option.elim_some,
          Option.elim_none, Option.getD_some]
      rw [hdisplay]
      simp only [String.toList_append, List.append_assoc]
      rfl
    refine ⟨⟨some "http", some authority, ⟨"/", none⟩⟩, ?_, ?_⟩
    · simp only [addressLibraries] at htext ⊢
      have hlast : ("http://".toList ++ (authority.toList ++ ['/'])).getLast? = some '/' := by
        rw [← List.append_assoc, List.getLast?_concat]
      rw [htext, if_pos ⟨List.prefix_append _ _, hlast⟩]
      simp [String.ofList_toList]
    · exact ⟨hscheme.symm, hauthority.symm, hpath.symm, hquery.symm⟩

def pairUrl : Uri := ⟨some "http", some "r", ⟨"/", none⟩⟩

def pairOwner (g : Bool) : Fin (2 ^ 128) := ⟨if g then 1 else 0, by cases g <;> decide⟩

def pairText (owner : Fin (2 ^ 128)) : String :=
  String.ofList (['"'].intercalate (addressParts "http://r/".toList (hex32 owner).toList))

/-- Two recorders compete for a key of thirty seconds. -/
def pairDeployment : RegistrationDeployment addressLibraries Bool Bool Bool where
  key := "recorder"
  registrar g :=
    ⟨pairUrl, seconds 30, pairOwner g, ⟨"recorder", pairText (pairOwner g), 30000⟩, by
      cases g <;> decide +kernel⟩
  call t := if t then .lookup else .register false
  lane := id
  others _ db db' := db' = db

def pairStart : RegistrationDeployment.RegistrationWorld Bool Bool where
  now := 0
  db := ⟨fun _ => none, fun _ _ => none⟩
  mem := ()
  threads _ := none
  strays _ := []

end BreezeGateway
