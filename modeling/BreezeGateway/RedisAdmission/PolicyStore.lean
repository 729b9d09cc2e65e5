import BreezeGateway.RedisAdmission.Policy
import BreezeGateway.RedisAdmission.Task

/-!
# The policy store

`PolicyStore::load` and what it promises.  A load takes the lock, sends one `GET`, reads the
current snapshot and either keeps it or stores its own; the guard `_loading` is dropped at the end
of the scope, which is the operation `unlock`.
-/

namespace BreezeGateway

open Effects Effects.Network

structure PolicySnapshot (Index : Type) where
  raw : Option Bytes
  policy : Option (CompiledPolicy Index)

namespace PolicyStore

inductive PolicyOp (Index : Type) where
  /-- `self.loading.lock().await`. -/
  | lock
  | unlock
  /-- `self.snapshot.load()`. -/
  | snapshot
  /-- `self.snapshot.store(..)`. -/
  | store (s : PolicySnapshot Index)

abbrev policySig (Index : Type) : Sig where
  Op := PolicyOp Index
  Ans
    | .snapshot => PolicySnapshot Index
    | _ => Unit

section

variable {Index : Type}

abbrev PolicyTask (Index α : Type) := Task (policySig Index) α

def initial : PolicySnapshot Index := ⟨none, none⟩

def key (keyPrefix : String) : String := keyPrefix ++ ":api-policy"

/-- The raw policy in the reply to the `GET`. -/
def rawPolicy : Value → Except AdmissionError (Option Bytes)
  | .nil => .ok none
  | .bulkString bytes => .ok (some bytes)
  | _ => .error (Policy.invalid "API policy must be a JSON string")

variable (lib : Libraries Index)

def configOf : Option Bytes → Except AdmissionError PolicyConfig
  | some bytes =>
      match lib.decodePolicy bytes with
      | .ok config => .ok config
      | .error message => .error (.backend message)
  | none => .ok .default

def compileRaw (raw : Option Bytes) : Except AdmissionError (CompiledPolicy Index) :=
  configOf lib raw >>= CompiledPolicy.compile lib

/-- The part of `load` that runs under the lock. -/
def loadLocked (keyPrefix : String) : PolicyTask Index Unit := do
  let raw ← Task.ofResult (rawPolicy (← Task.command (.get (key keyPrefix))))
  let current ← Task.perform (L := policySig Index) .snapshot
  if current.policy.isSome ∧ current.raw = raw then pure ()
  else
    let config ← Task.ofResult (configOf lib raw)
    let policy ← Task.ofResult (CompiledPolicy.compile lib config)
    Task.perform (L := policySig Index) (.store ⟨raw, some policy⟩)

def load (keyPrefix : String) : PolicyTask Index Unit := ExceptT.mk do
  let _ ← (Task.perform (L := policySig Index) .lock).run
  let r ← (loadLocked lib keyPrefix).run
  let _ ← (Task.perform (L := policySig Index) .unlock).run
  pure r

end

/-! ## The stages of a load -/

inductive Stage where
  | waiting
  | locked
  /-- It has its reply. -/
  | replied (raw : Option Bytes)
  /-- Its reply was an error or of a wrong type. -/
  | failed
  /-- It has stored its snapshot, or found it in place. -/
  | published (raw : Option Bytes)
  | ended (ok : Bool)
deriving DecidableEq

namespace Stage

def holds : Stage → Bool
  | .waiting => false
  | .ended _ => false
  | _ => true

def settled : Stage → Bool
  | .published _ => true
  | .ended ok => ok
  | _ => false

def heard (r : Reply) : Stage → Stage
  | .locked =>
      match r with
      | .ok value =>
          match rawPolicy value with
          | .ok raw => .replied raw
          | .error _ => .failed
      | .error _ => .failed
  | s => s

/-- The test of the unchanged value. -/
def unchanged {Index : Type} (raw : Option Bytes) (current : PolicySnapshot Index) : Prop :=
  current.policy.isSome ∧ current.raw = raw

instance {Index : Type} (raw : Option Bytes) (current : PolicySnapshot Index) :
    Decidable (unchanged raw current) :=
  inferInstanceAs (Decidable (_ ∧ _))

def noted {Index : Type} : Stage → (o : PolicyOp Index) → (policySig Index).Ans o → Stage
  | .waiting, .lock, _ => .locked
  | .replied raw, .snapshot, current =>
      if unchanged raw current then .published raw else .replied raw
  | .replied raw, .store _, _ => .published raw
  | s, .unlock, _ => .ended s.settled
  | s, _, _ => s

end Stage

section

variable {Index : Type}

def stageTale : Tale (redisSig (policySig Index)) Stage where
  start := .waiting
  after s
    | .inl _, r => s.heard r
    | .inr o, x => s.noted o x

/-- What a load may do at a stage. -/
def Allows (lib : Libraries Index) (keyPrefix : String) (s : Stage) :
    (redisSig (policySig Index)).Op → Prop
  | .inl c => s = .locked ∧ c = .get (key keyPrefix)
  | .inr .lock => s = .waiting
  | .inr .unlock => s.holds = true
  | .inr .snapshot => ∃ raw, s = .replied raw
  | .inr (.store snapshot) => ∃ raw policy, s = .replied raw ∧ snapshot = ⟨raw, some policy⟩ ∧
      compileRaw lib raw = .ok policy

def Finished (s : Stage) (r : Except AdmissionError Unit) : Prop :=
  s = .ended (match r with | .ok () => true | .error _ => false)

variable {lib : Libraries Index} {keyPrefix : String} {s : Stage}

abbrev loadContract (lib : Libraries Index) (keyPrefix : String) :
    Contract (redisSig (policySig Index)) Stage :=
  stageTale.contract (Allows lib keyPrefix)

theorem meets_step {o : PolicyOp Index}
    {Q : Stage → Except AdmissionError ((policySig Index).Ans o) → Prop}
    (hpre : Allows lib keyPrefix s (.inr o)) (h : ∀ x, Q (s.noted o x) (.ok x)) :
    (Task.perform (L := policySig Index) o).run.Meets (loadContract lib keyPrefix) s Q := by
  refine meets_perform hpre ?_
  intro x s' hs'
  rw [show s' = s.noted o x from hs']
  exact h x

theorem meets_loadLocked :
    (loadLocked lib keyPrefix).run.Meets (loadContract lib keyPrefix) .locked fun s r =>
      s.holds = true ∧ s.settled = (match r with | .ok () => true | .error _ => false) := by
  unfold loadLocked
  rw [meets_bind_ok]
  refine meets_command ⟨rfl, rfl⟩ ?_ ?_
  · intro value s' hs'
    rw [show s' = Stage.heard (.ok value) .locked from hs']
    dsimp only
    rw [meets_bind_ok, meets_ofResult]
    cases hraw : rawPolicy value with
    | error e =>
        simp only [Stage.heard, hraw]
        exact ⟨rfl, rfl⟩
    | ok raw =>
        simp only [Stage.heard, hraw]
        rw [meets_bind_ok]
        refine meets_step ⟨raw, rfl⟩ ?_
        intro current
        simp only [Stage.noted]
        by_cases hsame : current.policy.isSome ∧ current.raw = raw
        · rw [if_pos hsame, if_pos (show Stage.unchanged raw current from hsame)]
          exact ⟨rfl, rfl⟩
        · rw [if_neg hsame, if_neg (show ¬ Stage.unchanged raw current from hsame)]
          rw [meets_bind_ok, meets_ofResult]
          cases hconfig : configOf lib raw with
          | error e => exact ⟨rfl, rfl⟩
          | ok config =>
              dsimp only
              rw [meets_bind_ok, meets_ofResult]
              cases hpolicy : CompiledPolicy.compile lib config with
              | error e => exact ⟨rfl, rfl⟩
              | ok policy =>
                  have hcompile : compileRaw lib raw = .ok policy := by
                    rw [compileRaw, hconfig]
                    exact hpolicy
                  refine meets_step ⟨raw, policy, rfl, rfl, hcompile⟩ ?_
                  intro x
                  exact ⟨rfl, rfl⟩
  · intro message s' hs'
    rw [show s' = Stage.heard (.error message) .locked from hs']
    exact ⟨rfl, rfl⟩

theorem meets_load :
    (load lib keyPrefix).run.Meets (loadContract lib keyPrefix) .waiting Finished := by
  refine Prog.meets_bind.mpr (meets_step rfl ?_)
  intro _
  refine Prog.meets_bind.mpr (meets_loadLocked.mono ?_)
  intro s r ⟨hholds, hsettled⟩
  refine ⟨hholds, ?_⟩
  intro _ s' hs'
  have hend : s' = .ended s.settled := by
    rw [show s' = s.noted (.unlock : PolicyOp Index) () from hs']
    cases s <;> rfl
  rw [hend, hsettled]
  exact rfl

end

end PolicyStore

end BreezeGateway
