import BreezeGateway.Effects.LeaseLock
import BreezeGateway.RedisAdmission.Answers
import BreezeGateway.RedisAdmission.KeyLease
import BreezeGateway.RedisAdmission.KeyRoles

/-!
# The slot is a lock

Every key that only the commands of this gateway write is a lease lock, on any network that
executes them.  The slot of a scope in addition is linearizable: whatever a call returns about it
is the answer to one operation of the lock, between the launch and the return of the call.
-/

namespace BreezeGateway

open Effects Effects.Network RedisAdmissionProvider

/-! ## Commands as operations of a lock -/

/-- The operation on the lock under `key` that a command is. -/
def lockOp (key : String) : Command → Option (LockOp Bytes)
  | .get k => if k = key then some .look else none
  | .set k value px => if k = key then some (.acquire value (millis px)) else none
  | .complete k token => if k = key then some (.release token) else none
  | .renew k token px => if k = key then some (.renew token (millis px)) else none
  | .hget .. => none
  | .hincrby .. => none

def lockAnswer : Command → Reply → LockAnswer Bytes
  | .get _, .ok (.bulkString bytes) => .holder (some bytes)
  | .get _, _ => .holder none
  | _, .ok .okay => .done true
  | _, .ok (.int 1) => .done true
  | _, _ => .done false

section

variable {key : String} {c : Command} {op : LockOp Bytes} {now : ℕ} {db : Db}

@[simp] theorem lockOp_get : lockOp key (.get key) = some .look := if_pos rfl

@[simp] theorem lockOp_set {value : Bytes} {px : ℕ} :
    lockOp key (.set key value px) = some (.acquire value (millis px)) := if_pos rfl

@[simp] theorem lockOp_complete {token : Bytes} :
    lockOp key (.complete key token) = some (.release token) := if_pos rfl

@[simp] theorem lockOp_renew {token : Bytes} {px : ℕ} :
    lockOp key (.renew key token px) = some (.renew token (millis px)) := if_pos rfl

theorem key_of_lockOp (h : lockOp key c = some op) : c.key = key := by
  cases c with
  | hget k field => cases h
  | hincrby k field n => cases h
  | _ =>
      simp only [lockOp] at h
      split at h
      · assumption
      · cases h

/-- A command that is an operation of the lock changes the key and answers as the lock does. -/
theorem exec_refines (h : lockOp key c = some op) :
    ((db.exec now c).1.strings key, lockAnswer c (db.exec now c).2) =
      LeaseLock.step now (db.strings key) op := by
  have hkey := key_of_lockOp h
  cases c with
  | get k =>
      obtain rfl : k = key := hkey
      obtain rfl : LockOp.look = op := by simpa using h
      simp only [Db.exec, LeaseLock.step, Store.holder_eq_read]
      cases db.strings.read now k <;> rfl
  | set k value px =>
      obtain rfl : k = key := hkey
      obtain rfl : LockOp.acquire value (millis px) = op := by simpa using h
      rw [← Store.putIfAbsent_refines]
      simp only [Db.exec]
      cases (db.strings.putIfAbsent now k value (now + millis px)).2 <;> rfl
  | complete k token =>
      obtain rfl : k = key := hkey
      obtain rfl : LockOp.release token = op := by simpa using h
      rw [← Store.removeIf_refines]
      simp only [Db.exec]
      cases (db.strings.removeIf now k token).2 <;> rfl
  | renew k token px =>
      obtain rfl : k = key := hkey
      obtain rfl : LockOp.renew token (millis px) = op := by simpa using h
      rw [← Store.extendIf_refines]
      simp only [Db.exec]
      cases (db.strings.extendIf now k token (now + millis px)).2 <;> rfl
  | hget k field => cases h
  | hincrby k field n => cases h

theorem strings_of_lockOp_none (h : lockOp key c = none) :
    (db.exec now c).1.strings key = db.strings key := by
  by_cases hkey : key = c.key
  · subst hkey
    cases c with
    | hget k field => rfl
    | hincrby k field n => exact congrFun strings_hincrby _
    | _ => simp [lockOp, Command.key] at h
  · exact strings_exec_of_ne hkey now db

end

/-! ## The history of a key -/

section

variable {L : Sig} {Mem T Lane Kind α : Type}

def lockEvent (key : String) (x : ℕ × Label Command Reply L T Kind α) :
    Option (ℕ × LockOp Bytes × LockAnswer Bytes) :=
  (executed x.2).bind fun e => (lockOp key e.1).map fun op => (x.1, op, lockAnswer e.1 e.2)

/-- What was done to the lock under `key`, by whatever call. -/
def lockHistory (key : String) (ls : History Command Reply L T Kind α) : LockHistory Bytes :=
  ls.filterMap (lockEvent key)

theorem lockEvent_eq_some {key : String} {x : ℕ × Label Command Reply L T Kind α}
    {e : ℕ × LockOp Bytes × LockAnswer Bytes} (h : lockEvent key x = some e) :
    ∃ c r, executed x.2 = some (c, r) ∧ lockOp key c = some e.2.1 ∧ e.2.2 = lockAnswer c r := by
  obtain ⟨⟨c, r⟩, hexecuted, hmap⟩ := Option.bind_eq_some_iff.mp h
  obtain ⟨op, hop, rfl⟩ := Option.map_eq_some_iff.mp hmap
  exact ⟨c, r, hexecuted, hop, rfl⟩

theorem lockHistory_snoc (key : String) (ls : History Command Reply L T Kind α)
    (x : ℕ × Label Command Reply L T Kind α) :
    lockHistory key (ls ++ [x]) = lockHistory key ls ++ (lockEvent key x).toList := by
  unfold lockHistory
  rw [List.filterMap_append]
  cases h : lockEvent key x <;> simp [h]

variable [DecidableEq T] [DecidableEq Lane] {N : Network Command Reply L Db Mem T Lane Kind α}
  {w₀ w w' : World Command Reply L Db Mem T Lane α} {l : Label Command Reply L T Kind α}
  {ls : History Command Reply L T Kind α} {key : String}

/-- One step is at most one operation of the lock. -/
theorem lock_step (hexec : N.exec = Db.exec)
    (henvironment : ∀ now db db', N.environment now db db' → db'.strings key = db.strings key)
    (hstep : N.Step w l w') :
    (lockEvent key (w.now, l) = none ∧ w'.db.strings key = w.db.strings key) ∨
    ∃ op, lockEvent key (w.now, l) =
        some (w.now, op, (LeaseLock.step w.now (w.db.strings key) op).2) ∧
      w'.db.strings key = (LeaseLock.step w.now (w.db.strings key) op).1 := by
  have hmove := KeyMove.of_step hexec henvironment hstep
  cases he : executed l with
  | none =>
      rw [he] at hmove
      cases hmove with
      | same hle hkey =>
          left
          refine ⟨?_, hkey⟩
          simp [lockEvent, he]
  | some e =>
      obtain ⟨c, r⟩ := e
      obtain ⟨-, hdb, rfl⟩ := exec_of_executed hexec hstep he
      rw [hdb]
      cases hop : lockOp key c with
      | none =>
          left
          refine ⟨?_, strings_of_lockOp_none hop⟩
          simp [lockEvent, he, hop]
      | some op =>
          right
          refine ⟨op, ?_, ?_⟩
          · rw [← exec_refines hop]
            simp [lockEvent, he, hop]
          · rw [← exec_refines hop]

/-- A key that nobody else writes is a lease lock. -/
theorem lock_run (hexec : N.exec = Db.exec)
    (henvironment : ∀ now db db', N.environment now db db' → db'.strings key = db.strings key)
    (hrun : N.Run w₀ ls w) :
    LeaseLock.Legal (w₀.db.strings key) (lockHistory key ls) ∧
      w.db.strings key = LeaseLock.after (w₀.db.strings key) (lockHistory key ls) := by
  induction hrun with
  | refl => exact ⟨.nil, rfl⟩
  | @snoc ls w w' l hrun hstep ih =>
      obtain ⟨hlegal, hlock⟩ := ih
      rw [lockHistory_snoc]
      rcases lock_step hexec henvironment hstep with ⟨hevent, hkey⟩ | ⟨op, hevent, hkey⟩
      · rw [hevent, hkey]
        simpa using ⟨hlegal, hlock⟩
      · rw [hevent, hkey, hlock, Option.toList_some, LeaseLock.after_snoc]
        exact ⟨hlegal.snoc, rfl⟩

/-- The key reads as a value exactly if the last operation on it that succeeded gave it to the
value and its time is not over. -/
theorem lock_read (hexec : N.exec = Db.exec)
    (henvironment : ∀ now db db', N.environment now db db' → db'.strings key = db.strings key)
    (hrun : N.Run w₀ ls w) (value : Bytes) :
    w.db.strings.read w.now key = some value ↔
      (∃ τ op ttl, LeaseLock.LastSuccess (lockHistory key ls) τ op ∧ op.Grants value ttl ∧
        w.now < τ + ttl) ∨
      ((∀ x ∈ lockHistory key ls, x.2.2 ≠ .done true) ∧
        w₀.db.strings.read w.now key = some value) := by
  obtain ⟨hlegal, hlock⟩ := lock_run hexec henvironment hrun
  rw [← Store.holder_eq_read, ← Store.holder_eq_read, hlock]
  exact hlegal.holder_iff

end

/-! ## The calls of a provider -/

section

variable {Index T F Lane : Type} [DecidableEq T] [DecidableEq F] [DecidableEq Lane]
  {D : Deployment Index T F Lane} {w₀ w : AdmissionWorld Index T F Lane} {t : T}
  {a b : AdmissionHistory Index T} {key : String}

/-- Among these labels Redis executes, for the call `t`, this operation with this answer. -/
def OperatesIn (key : String) (t : T) (b : AdmissionHistory Index T) (op : LockOp Bytes)
    (answer : LockAnswer Bytes) : Prop :=
  ∃ τ c r, (τ, (.exec t c r : AdmissionLabel Index T)) ∈ b ∧
    lockEvent key (τ, (.exec t c r : AdmissionLabel Index T)) = some (τ, op, answer)

/-- The operation and the answer that a call with this result stands for. -/
inductive Speaks (px : ℕ) : Call → CallResult → LockOp Bytes → LockAnswer Bytes → Prop where
  | acquired {call : Call} {ticket : AdmissionTicket} (hcall : call.isAcquire = true)
      (hscope : ticket.scope = call.scope) : Speaks px call (.outcome (.ok (.acquired ticket)))
        (.acquire (utf8 ticket.token) (millis px)) (.done true)
  | busy {call : Call} (token : Bytes) (hcall : call.isAcquire = true) :
      Speaks px call (.outcome (.ok .busy)) (.acquire token (millis px)) (.done false)
  | complete {ticket : AdmissionTicket} {ok : Bool} :
      Speaks px (.complete ticket) (.done (.ok ok)) (.release (utf8 ticket.token)) (.done ok)
  | renew {ticket : AdmissionTicket} {ok : Bool} :
      Speaks px (.renew ticket) (.done (.ok ok)) (.renew (utf8 ticket.token) (millis px)) (.done ok)
  | owns {ticket : AdmissionTicket} {ok : Bool} {holder : Option Bytes}
      (hok : ok = true ↔ holder = some (utf8 ticket.token)) :
      Speaks px (.owns ticket) (.done (.ok ok)) .look (.holder holder)

/-- Results that say something about the slot. -/
def CallResult.tellsSlot : CallResult → Bool
  | .outcome (.ok (.acquired _)) => true
  | .outcome (.ok .busy) => true
  | .done (.ok _) => true
  | _ => false

theorem operatesIn_of_executedAt {c : Command} {v : AdmissionWorld Index T F Lane} {op : LockOp Bytes}
    (h : ExecutedAt D w₀ t a b c v) (hop : lockOp key c = some op) :
    OperatesIn key t b op (LeaseLock.step v.now (v.db.strings key) op).2 := by
  obtain ⟨b₁, b₂, rfl, -⟩ := h
  refine ⟨v.now, c, (v.db.exec v.now c).2, by simp, ?_⟩
  rw [← exec_refines hop]
  simp [lockEvent, executed, hop]

/-- A justified result is the answer of the lock, unless the call was refused by its own family. -/
theorem speaks_of_justified {result : CallResult}
    (hkey : (D.provider (D.family t)).key (D.call t).scope = key) (htells : result.tellsSlot = true)
    (h : Justified D w₀ t a b result) :
    (∃ op answer, Speaks (D.provider (D.family t)).ttlMs (D.call t) result op answer ∧
      OperatesIn key t b op answer) ∨
    (result = .outcome (.ok .busy) ∧ ∃ v, ActedAt D w₀ t a b .tryLookup (.error .inProgress) v) := by
  subst hkey
  cases result with
  | outcome r =>
      cases r with
      | error e => cases htells
      | ok outcome =>
          obtain ⟨hcall, hwarranted⟩ := h
          cases outcome with
          | acquired ticket =>
              obtain ⟨hscope, -, v, hv, hfree⟩ := hwarranted
              have hop := operatesIn_of_executedAt hv lockOp_set
              left
              refine ⟨_, _, .acquired hcall hscope, ?_⟩
              rw [← Store.holder_eq_read] at hfree
              simpa [LeaseLock.step, hfree] using hop
          | busy =>
              rcases hwarranted with ⟨v, hv, -⟩ | ⟨token, v, hv, hheld⟩
              · exact Or.inr ⟨rfl, v, hv⟩
              · have hop := operatesIn_of_executedAt hv lockOp_set
                left
                refine ⟨_, _, .busy token hcall, ?_⟩
                rw [← Store.holder_eq_read] at hheld
                simpa [LeaseLock.step, hheld] using hop
          | _ => cases htells
  | done r =>
      cases r with
      | error e => cases htells
      | ok answer =>
          obtain ⟨ticket, c, v, hc, hv, hanswer⟩ := h
          rw [← Store.holder_eq_read] at hanswer
          left
          generalize hcall : D.call t = call at hc hanswer ⊢
          cases hc with
          | complete =>
              have hop := operatesIn_of_executedAt hv lockOp_complete
              refine ⟨_, _, .complete, ?_⟩
              cases answer <;> simpa [LeaseLock.step, Call.scope, ← hanswer] using hop
          | renew =>
              have hop := operatesIn_of_executedAt hv lockOp_renew
              refine ⟨_, _, .renew, ?_⟩
              cases answer <;> simpa [LeaseLock.step, Call.scope, ← hanswer] using hop
          | owns =>
              have hop := operatesIn_of_executedAt hv lockOp_get
              exact ⟨_, _, .owns hanswer, hop⟩

/-- The slot is a linearizable lease lock.  What Redis executed on it is a legal history; the key
reads as the token that the last operation to succeed left, while its time lasts; and every result
about the slot is the answer to one operation of the history, executed for this call between its
launch and its return, or a refusal by a family that was already looking up. -/
theorem slot_linearizable (D : Deployment Index T F Lane) (key : String)
    (hgarbled : ∀ c r, D.garbled c r → Malformed c r)
    (hothers : ∀ now db db', D.others now db db' → db'.strings key = db.strings key)
    (hquiet : Quiet w₀) {ls : AdmissionHistory Index T} (hrun : D.network.Run w₀ ls w) :
    LeaseLock.Legal (w₀.db.strings key) (lockHistory key ls) ∧
    (∀ value, w.db.strings.read w.now key = some value ↔
      (∃ τ op ttl, LeaseLock.LastSuccess (lockHistory key ls) τ op ∧ op.Grants value ttl ∧
        w.now < τ + ttl) ∨
      ((∀ x ∈ lockHistory key ls, x.2.2 ≠ .done true) ∧
        w₀.db.strings.read w.now key = some value)) ∧
    ∀ pre post t τ result, ls = pre ++ (τ, .finish t result) :: post →
      (D.provider (D.family t)).key (D.call t).scope = key → result.tellsSlot = true →
      ∃ a σ b, pre = a ++ (σ, .launch t) :: b ∧ Ongoing t b ∧
        ((∃ op answer, Speaks (D.provider (D.family t)).ttlMs (D.call t) result op answer ∧
          OperatesIn key t b op answer) ∨
        (result = .outcome (.ok .busy) ∧
          ∃ v, ActedAt D w₀ t (a ++ [(σ, .launch t)]) b .tryLookup (.error .inProgress) v)) := by
  refine ⟨(lock_run rfl hothers hrun).1, lock_read rfl hothers hrun, ?_⟩
  rintro pre post t τ result rfl hkey htells
  obtain ⟨a, σ, b, hpre, hongoing, hjustified⟩ := answers_true D hgarbled hquiet hrun
  exact ⟨a, σ, b, hpre, hongoing, speaks_of_justified hkey htells hjustified⟩

end

/-- The solo admission is one accepted `acquire` of the lock. -/
theorem slot_linearizable_solo :
    ∃ pre post w ticket, soloDeployment.network.Run (quietWorld (some (utf8 "http://r")))
        (pre ++ (0, .finish () (.outcome (.ok (.acquired ticket)))) :: post) w ∧
      ∃ a σ b, pre = a ++ (σ, .launch ()) :: b ∧
        OperatesIn "p:inflight:s" () b (.acquire (utf8 ticket.token) (millis 60000)) (.done true) := by
  obtain ⟨ls, w, ticket, hrun, hmem, -⟩ := soloAdmission
  obtain ⟨pre, post, rfl⟩ := List.append_of_mem hmem
  have hall := slot_linearizable soloDeployment "p:inflight:s" (fun _ _ h => h) (fun _ _ _ h => h.elim)
    (quietWorld_quiet _) hrun
  obtain ⟨a, σ, b, hpre, -, hop⟩ := hall.2.2 pre post () 0 _ rfl rfl rfl
  refine ⟨pre, post, w, ticket, hrun, a, σ, b, hpre, ?_⟩
  rcases hop with ⟨op, answer, hspeaks, hop⟩ | ⟨hbusy, -⟩
  · cases hspeaks
    exact hop
  · cases hbusy

end BreezeGateway
