import BreezeGateway.Redis
import BreezeGateway.Effects.Tale

/-!
# Fallible asynchronous functions over Redis

An `async fn` that returns `Result<_, AdmissionError>` is a program whose operations are Redis
commands, one per `await`, and the local operations of its module.
-/

namespace BreezeGateway

open Effects

abbrev redisSig (L : Sig) : Sig := clientSig Command Reply L

abbrev Task (L : Sig) (α : Type) := ExceptT AdmissionError (Prog (redisSig L)) α

namespace Task

variable {L : Sig} {α β : Type}

/-- `redis.command(c).await.map_err(AdmissionError::backend)?`, and `eval` likewise. -/
def command (c : Command) : Task L Value :=
  ExceptT.mk <| Prog.op (S := redisSig L) (.inl c) fun r : Reply =>
    .ret <| match r with
      | .ok value => .ok value
      | .error message => .error (.backend message)

/-- `?` on a result that is at hand. -/
def ofResult (x : Except AdmissionError α) : Task L α := ExceptT.mk (Prog.ret x)

def perform (l : L.Op) : Task L (L.Ans l) :=
  ExceptT.mk <| Prog.op (S := redisSig L) (.inr l) fun x => .ret (.ok x)

end Task

/-- `redis_admission::reserve`: only the explicit NX rejection is `false`. -/
def reserve {L : Sig} (key token : String) (ttlMs : ℕ) : Task L Bool := do
  match ← Task.command (.set key (utf8 token) ttlMs) with
  | .okay => pure true
  | .simpleString s =>
      if s = "OK" then pure true
      else throw (.backend "unexpected Redis admission acquisition response")
  | .nil => pure false
  | _ => throw (.backend "unexpected Redis admission acquisition response")

/-- The three `transition` functions differ in their script and the text of one error. -/
def transition {L : Sig} (c : Command) (unexpected : String) : Task L Bool := do
  match ← Task.command c with
  | .int n =>
      if n = 0 then pure false
      else if n = 1 then pure true
      else throw (.backend unexpected)
  | _ => throw (.backend unexpected)

theorem runs_bind_ok {L : Sig} {α β : Type} {x : Task L α} {f : α → Task L β} {a : α}
    {r : Except AdmissionError β} {tr tr' : List (Event (redisSig L))} (hx : x.run.Runs tr (.ok a))
    (h : (f a).run.Runs tr' r) : (x >>= f).run.Runs (tr ++ tr') r := (hx.bind _).trans h

/-! ## Contracts of the shared functions -/

section

variable {L : Sig} {α β G : Type} {C : Contract (redisSig L) G} {g : G}

theorem meets_bind_ok {x : Task L α} {f : α → Task L β} {Q : G → Except AdmissionError β → Prop} :
    (x >>= f).run.Meets C g Q ↔ x.run.Meets C g fun g' r =>
      match r with
      | .ok a => (f a).run.Meets C g' Q
      | .error e => Q g' (.error e) := by
  rw [ExceptT.run_bind, Prog.meets_bind]
  refine iff_of_eq (congrArg _ (funext fun g' => funext fun r => ?_))
  cases r <;> rfl

@[simp] theorem meets_pure {a : α} {Q : G → Except AdmissionError α → Prop} :
    (pure a : Task L α).run.Meets C g Q ↔ Q g (.ok a) := Iff.rfl

@[simp] theorem meets_throw {e : AdmissionError} {Q : G → Except AdmissionError α → Prop} :
    (throw e : Task L α).run.Meets C g Q ↔ Q g (.error e) := Iff.rfl

@[simp] theorem meets_ofResult {x : Except AdmissionError α}
    {Q : G → Except AdmissionError α → Prop} :
    (Task.ofResult x : Task L α).run.Meets C g Q ↔ Q g x := Iff.rfl

theorem meets_command {c : Command} {Q : G → Except AdmissionError Value → Prop}
    (hpre : C.pre g (.inl c))
    (hok : ∀ v g', C.post g (.inl c) (.ok v) g' → Q g' (.ok v))
    (herr : ∀ m g', C.post g (.inl c) (.error m) g' → Q g' (.error (.backend m))) :
    (Task.command c : Task L Value).run.Meets C g Q := by
  refine ⟨hpre, fun r g' hpost => ?_⟩
  cases r with
  | ok v => exact hok v g' hpost
  | error m => exact herr m g' hpost

theorem meets_perform {l : L.Op} {Q : G → Except AdmissionError (L.Ans l) → Prop}
    (hpre : C.pre g (.inr l)) (h : ∀ x g', C.post g (.inr l) x g' → Q g' (.ok x)) :
    (Task.perform l : Task L (L.Ans l)).run.Meets C g Q :=
  ⟨hpre, h⟩

/-- `reserve` answers `true` on `+OK`, `false` on the NX rejection, and fails on all else. -/
theorem meets_reserve {key token : String} {ttlMs : ℕ} {Q : G → Except AdmissionError Bool → Prop}
    (hpre : C.pre g (.inl (.set key (utf8 token) ttlMs)))
    (hok : ∀ v g', v = .okay ∨ v = .simpleString "OK" →
      C.post g (.inl (.set key (utf8 token) ttlMs)) (.ok v) g' → Q g' (.ok true))
    (hnil : ∀ g', C.post g (.inl (.set key (utf8 token) ttlMs)) (.ok .nil) g' → Q g' (.ok false))
    (herr : ∀ r g' e, C.post g (.inl (.set key (utf8 token) ttlMs)) r g' → Q g' (.error e)) :
    (reserve key token ttlMs : Task L Bool).run.Meets C g Q := by
  unfold reserve
  rw [meets_bind_ok]
  refine meets_command hpre (fun v g' hpost => ?_) fun m g' hpost => herr _ g' _ hpost
  cases v with
  | okay => exact hok _ g' (Or.inl rfl) hpost
  | nil => exact hnil g' hpost
  | simpleString s =>
      dsimp only
      split
      · rename_i hs
        subst hs
        exact hok _ g' (Or.inr rfl) hpost
      · exact herr _ g' _ hpost
  | _ => exact herr _ g' _ hpost

theorem meets_transition {c : Command} {unexpected : String}
    {Q : G → Except AdmissionError Bool → Prop} (hpre : C.pre g (.inl c))
    (hone : ∀ g', C.post g (.inl c) (.ok (.int 1)) g' → Q g' (.ok true))
    (hzero : ∀ g', C.post g (.inl c) (.ok (.int 0)) g' → Q g' (.ok false))
    (herr : ∀ r g' e, C.post g (.inl c) r g' → Q g' (.error e)) :
    (transition c unexpected : Task L Bool).run.Meets C g Q := by
  unfold transition
  rw [meets_bind_ok]
  refine meets_command hpre (fun v g' hpost => ?_) fun m g' hpost => herr _ g' _ hpost
  cases v with
  | int n =>
      dsimp only
      split
      · rename_i hn
        subst hn
        exact hzero g' hpost
      · split
        · rename_i hn
          subst hn
          exact hone g' hpost
        · exact herr _ g' _ hpost
  | _ => exact herr _ g' _ hpost

end

end BreezeGateway
