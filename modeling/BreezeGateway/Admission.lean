import BreezeGateway.Http.Header
import BreezeGateway.Http.Uri

/-!
# Admission tickets and outcomes

`src/admission.rs`.  The fields of a ticket are private in the source, so the only tickets are
those of `new`, `with_origin` and `from_headers`; here a ticket carries what these establish.
-/

namespace BreezeGateway

def admissionScopeHeader : HeaderName := .fromStatic "x-breeze-admission-scope"

def admissionTokenHeader : HeaderName := .fromStatic "x-breeze-admission-token"

theorem admissionScopeHeader_ne_token : admissionScopeHeader ≠ admissionTokenHeader := by decide

/-- `AdmissionError`; a boxed source is kept as its text. -/
inductive AdmissionError where
  | backend (message : String)
  | timeout
  | invalidTicket
  | invalidRecorderUrl
  | participationLost
deriving DecidableEq

theorem except_bind_ok {ε α β : Type} {x : Except ε α} {f : α → Except ε β} {b : β}
    (h : (x >>= f) = .ok b) : ∃ a, x = .ok a ∧ f a = .ok b := by
  cases x with
  | error e => cases h
  | ok a => exact ⟨a, rfl, h⟩

/-- What every step of a loop preserves, with the elements already taken. -/
theorem except_foldlM_ok {ε α β : Type} {f : β → α → Except ε β} {P : List α → β → Prop}
    (hstep : ∀ done x acc acc', P done acc → f acc x = .ok acc' → P (done ++ [x]) acc')
    {done rest : List α} {acc result : β} (hacc : P done acc)
    (h : rest.foldlM f acc = .ok result) : P (done ++ rest) result := by
  induction rest generalizing done acc with
  | nil =>
      obtain rfl := Except.ok.inj h
      rwa [List.append_nil]
  | cons x rest ih =>
      rw [List.foldlM_cons] at h
      obtain ⟨acc', hx, h⟩ := except_bind_ok h
      rw [← List.singleton_append, ← List.append_assoc]
      exact ih (hstep done x acc acc' hacc hx) h

theorem toUInt8_toNat_of_lt {n : ℕ} (h : n < 128) : n.toUInt8.toNat = n := by
  rw [Nat.toUInt8_eq, UInt8.toNat_ofNat']
  omega

theorem utf8EncodeChar_of_lt {c : Char} (h : c.toNat < 128) :
    String.utf8EncodeChar c = [c.toNat.toUInt8] := by
  have hval : c.val ≤ 127 := UInt32.le_iff_toNat_le.mpr (Nat.le_of_lt_succ h)
  exact String.utf8EncodeChar_eq_singleton (Char.utf8Size_eq_one_iff.mpr hval)

theorem utf8_of_isAscii {s : String} (h : isAscii s = true) :
    utf8 s = s.toList.map fun c => c.toNat.toUInt8 := by
  have hchars : ∀ c ∈ s.toList, String.utf8EncodeChar c = [c.toNat.toUInt8] := fun c hc =>
    utf8EncodeChar_of_lt (by simpa using List.all_eq_true.mp h c hc)
  calc
    utf8 s = s.toList.flatMap fun c => [c.toNat.toUInt8] := List.flatMap_congr hchars
    _ = s.toList.map fun c => c.toNat.toUInt8 := List.map_eq_flatMap.symm

theorem visible_of_value_byte {b : UInt8} (hlt : b < 128) (h : isValueByte b = true) :
    isVisibleAscii b = true := by
  simp only [isValueByte, isVisibleAscii, Bool.or_eq_true, Bool.and_eq_true, decide_eq_true_eq,
    bne_iff_ne, beq_iff_eq, ne_eq] at h ⊢
  rcases h with ⟨hle, hne⟩ | rfl
  · refine Or.inl ⟨hle, ?_⟩
    have hne' : b.toNat ≠ 127 := fun hc => hne (UInt8.toNat_inj.mp hc)
    rw [UInt8.lt_iff_toNat_lt] at hlt ⊢
    simp only [UInt8.reduceToNat] at hlt ⊢
    omega
  · exact Or.inr rfl

theorem visible_of_isAscii {s : String} {v : HeaderValue} (hs : isAscii s = true)
    (hv : HeaderValue.fromStr s = some v) : v.bytes.all isVisibleAscii = true := by
  unfold HeaderValue.fromStr HeaderValue.fromBytes at hv
  split at hv
  · rename_i hvalid
    obtain rfl := Option.some.inj hv
    rw [List.all_eq_true] at hvalid ⊢
    intro b hb
    have hlt : b < 128 := by
      rw [show (⟨utf8 s, _⟩ : HeaderValue).bytes = utf8 s from rfl, utf8_of_isAscii hs,
        List.mem_map] at hb
      obtain ⟨c, hc, rfl⟩ := hb
      have hc' : c.toNat < 128 := by simpa using List.all_eq_true.mp hs c hc
      rw [UInt8.lt_iff_toNat_lt, toUInt8_toNat_of_lt hc']
      exact hc'
    exact visible_of_value_byte hlt (hvalid b hb)
  · cases hv

theorem bytes_of_fromStr {s : String} {v : HeaderValue} (hv : HeaderValue.fromStr s = some v) :
    v.bytes = utf8 s := by
  unfold HeaderValue.fromStr HeaderValue.fromBytes at hv
  split at hv
  · obtain rfl := Option.some.inj hv
    rfl
  · cases hv

theorem ofNat_toUInt8_of_lt {c : Char} (h : c.toNat < 128) :
    Char.ofNat c.toNat.toUInt8.toNat = c := by
  rw [toUInt8_toNat_of_lt h, Char.ofNat_toNat]

theorem toStr_of_fromStr {s : String} {v : HeaderValue} (hs : isAscii s = true)
    (hv : HeaderValue.fromStr s = some v) : v.toStr = some s := by
  have hvisible := visible_of_isAscii hs hv
  have hchars : (v.bytes.map fun b => Char.ofNat b.toNat) = s.toList := by
    rw [bytes_of_fromStr hv, utf8_of_isAscii hs, List.map_map]
    conv_rhs => rw [← List.map_id s.toList]
    refine List.map_congr_left fun c hc => ?_
    have hc' : c.toNat < 128 := by simpa using List.all_eq_true.mp hs c hc
    exact ofNat_toUInt8_of_lt hc'
  rw [HeaderValue.toStr, if_pos hvisible, hchars, String.ofList_toList]

theorem toNat_ofNat_of_lt {n : ℕ} (h : n < 128) : (Char.ofNat n).toNat = n := by
  have hvalid : n.isValidChar := Or.inl (by omega)
  unfold Char.ofNat
  rw [dif_pos hvalid]
  rfl

theorem utf8_of_toStr {v : HeaderValue} {s : String} (h : v.toStr = some s) : utf8 s = v.bytes := by
  unfold HeaderValue.toStr at h
  split at h
  · rename_i hvisible
    obtain rfl := Option.some.inj h
    have hbyte : ∀ b ∈ v.bytes, String.utf8EncodeChar (Char.ofNat b.toNat) = [b] := by
      intro b hb
      have hlt : b.toNat < 128 := by
        have hv := List.all_eq_true.mp hvisible b hb
        simp only [isVisibleAscii, Bool.or_eq_true, Bool.and_eq_true, decide_eq_true_eq,
          beq_iff_eq] at hv
        rcases hv with ⟨-, hlt⟩ | rfl
        · exact Nat.lt_succ_of_lt (UInt8.lt_iff_toNat_lt.mp hlt)
        · decide
      have hchar : (Char.ofNat b.toNat).toNat = b.toNat := toNat_ofNat_of_lt hlt
      rw [utf8EncodeChar_of_lt (by omega), hchar]
      exact congrArg (fun b => [b]) (UInt8.ofNat_toNat)
    unfold utf8
    rw [String.toList_ofList, List.flatMap_map]
    exact (List.flatMap_congr hbyte).trans (by simp)
  · cases h

structure AdmissionTicket where
  scopeValue : HeaderValue
  tokenValue : HeaderValue
  origin : Option Uri
  scope_visible : scopeValue.bytes.all isVisibleAscii = true
  token_visible : tokenValue.bytes.all isVisibleAscii = true
  origin_http : ∀ u, origin = some u → u.isHttpOrigin = true

theorem noOrigin_http : ∀ u, (none : Option Uri) = some u → u.isHttpOrigin = true := nofun

namespace AdmissionTicket

def new (scope token : String) : Except AdmissionError AdmissionTicket :=
  if h : trimIsEmpty scope || trimIsEmpty token || !isAscii scope || !isAscii token then
    .error .invalidTicket
  else
    match hs : HeaderValue.fromStr scope with
    | none => .error .invalidTicket
    | some scopeValue =>
        match ht : HeaderValue.fromStr token with
        | none => .error .invalidTicket
        | some tokenValue =>
            .ok ⟨scopeValue, tokenValue, none, visible_of_isAscii (by simp_all) hs,
              visible_of_isAscii (by simp_all) ht, by simp⟩

/-- `scope()`; its `expect` is discharged by the field. -/
def scope (t : AdmissionTicket) : String :=
  t.scopeValue.toStr.get (by simp [HeaderValue.toStr, t.scope_visible])

/-- `token()`; its `expect` is discharged by the field. -/
def token (t : AdmissionTicket) : String :=
  t.tokenValue.toStr.get (by simp [HeaderValue.toStr, t.token_visible])

def withOrigin (t : AdmissionTicket) (origin : Uri) : Except AdmissionError AdmissionTicket :=
  if h : origin.isHttpOrigin = true then
    .ok { t with origin := some origin, origin_http := by rintro u ⟨⟩; exact h }
  else .error .invalidRecorderUrl

def fromHeaders (headers : HeaderMap) : Except AdmissionError (Option AdmissionTicket) :=
  match headers.get admissionScopeHeader, headers.get admissionTokenHeader with
  | none, none => .ok none
  | some scope, some token =>
      if (headers.getAll admissionScopeHeader).length ≠ 1 ∨
          (headers.getAll admissionTokenHeader).length ≠ 1 then .error .invalidTicket
      else
        match scope.toStr, token.toStr with
        | some scope, some token => (new scope token).map some
        | _, _ => .error .invalidTicket
  | _, _ => .error .invalidTicket

theorem scope_toStr (t : AdmissionTicket) : t.scopeValue.toStr = some t.scope := by
  simp [scope]

theorem token_toStr (t : AdmissionTicket) : t.tokenValue.toStr = some t.token := by
  simp [token]

theorem token_eq {t : AdmissionTicket} {token : String} (h : t.tokenValue.toStr = some token) :
    t.token = token := by
  simp [AdmissionTicket.token, h]

theorem scope_eq {t : AdmissionTicket} {scope : String} (h : t.scopeValue.toStr = some scope) :
    t.scope = scope := by
  simp [AdmissionTicket.scope, h]

theorem new_values {scope token : String} {t : AdmissionTicket} (h : new scope token = .ok t) :
    isAscii scope = true ∧ isAscii token = true ∧ HeaderValue.fromStr scope = some t.scopeValue ∧
      HeaderValue.fromStr token = some t.tokenValue := by
  unfold new at h
  split at h
  · cases h
  · rename_i hcheck
    have hascii : isAscii scope = true ∧ isAscii token = true := by
      simp only [Bool.or_eq_true, not_or, Bool.not_eq_eq_eq_not, Bool.not_true,
        Bool.not_eq_false] at hcheck
      exact ⟨hcheck.1.2, hcheck.2⟩
    split at h
    · cases h
    · rename_i scopeValue hs
      split at h
      · cases h
      · rename_i tokenValue ht
        obtain rfl := Except.ok.inj h
        exact ⟨hascii.1, hascii.2, hs, ht⟩

theorem of_new {scope token : String} {t : AdmissionTicket} (h : new scope token = .ok t) :
    t.scope = scope ∧ t.token = token := by
  obtain ⟨hscope, htoken, hs, ht⟩ := new_values h
  exact ⟨scope_eq (toStr_of_fromStr hscope hs), token_eq (toStr_of_fromStr htoken ht)⟩

theorem withOrigin_values {t t' : AdmissionTicket} {origin : Uri} (h : t.withOrigin origin = .ok t') :
    t'.scopeValue = t.scopeValue ∧ t'.tokenValue = t.tokenValue := by
  unfold withOrigin at h
  split at h
  · obtain rfl := Except.ok.inj h
    exact ⟨rfl, rfl⟩
  · cases h

theorem of_withOrigin {t t' : AdmissionTicket} {origin : Uri} (h : t.withOrigin origin = .ok t') :
    t'.scope = t.scope ∧ t'.token = t.token := by
  unfold withOrigin at h
  split at h
  · obtain rfl := Except.ok.inj h
    exact ⟨rfl, rfl⟩
  · cases h

end AdmissionTicket

inductive AcquireOutcome where
  | acquired (ticket : AdmissionTicket)
  | busy
  | noRecorder
  | notParticipant
  | notEligible
  | quotaExhausted

end BreezeGateway
