import Mathlib.Tactic

/-!
# Programs over a signature of operations

A program either returns or performs one operation and continues with its answer.
The answer is chosen by whoever runs the program, so one term carries every path of a
function: its early returns, its error replies and the points where it can be abandoned.

`Steps` follows a program along a list of answered operations.  `Meets` is a weakest
precondition over a ghost state: a `Contract` says which operations a ghost state allows
and what the answers do to it.
-/

namespace Effects

/-- The operations a program may perform, each with the type of its answers. -/
structure Sig where
  Op : Type
  Ans : Op → Type

inductive Prog (S : Sig) (α : Type) : Type where
  | ret (a : α) : Prog S α
  | op (o : S.Op) (k : S.Ans o → Prog S α) : Prog S α

abbrev Event (S : Sig) := (o : S.Op) × S.Ans o

namespace Prog

variable {S : Sig} {α β γ : Type}

def bind : Prog S α → (α → Prog S β) → Prog S β
  | ret a, f => f a
  | op o k, f => op o fun x => (k x).bind f

def perform (o : S.Op) : Prog S (S.Ans o) := op o ret

instance : Monad (Prog S) where
  pure := ret
  bind := bind

@[simp] theorem pure_eq (a : α) : (pure a : Prog S α) = ret a := rfl

@[simp] theorem ret_bind (a : α) (f : α → Prog S β) : (ret a >>= f) = f a := rfl

@[simp] theorem op_bind (o : S.Op) (k : S.Ans o → Prog S α) (f : α → Prog S β) :
    (op o k >>= f) = op o fun x => k x >>= f := rfl

@[simp] theorem perform_bind (o : S.Op) (f : S.Ans o → Prog S β) :
    (perform o >>= f) = op o f := rfl

theorem bind_assoc (p : Prog S α) (f : α → Prog S β) (g : β → Prog S γ) :
    (p >>= f >>= g) = p >>= fun a => f a >>= g := by
  induction p with
  | ret a => rfl
  | op o k ih => exact congrArg (op o) (funext ih)

@[simp] theorem map_ret (f : α → β) (a : α) : (f <$> (ret a : Prog S α)) = ret (f a) := rfl

@[simp] theorem map_op (f : α → β) (o : S.Op) (k : S.Ans o → Prog S α) :
    (f <$> op o k) = op o fun x => f <$> k x := rfl

/-! ## Runs -/

/-- `Steps p tr q`: answering the operations of `tr` in order takes `p` to `q`. -/
inductive Steps : Prog S α → List (Event S) → Prog S α → Prop where
  | refl (p : Prog S α) : Steps p [] p
  | op {o : S.Op} {k : S.Ans o → Prog S α} {x : S.Ans o} {tr : List (Event S)}
      {q : Prog S α} (h : Steps (k x) tr q) : Steps (Prog.op o k) (⟨o, x⟩ :: tr) q

/-- A complete run: the program returns `a` after exactly the events of `tr`. -/
def Runs (p : Prog S α) (tr : List (Event S)) (a : α) : Prop := Steps p tr (ret a)

@[simp] theorem runs_ret {a b : α} {tr : List (Event S)} :
    Runs (ret a) tr b ↔ tr = [] ∧ a = b := by
  constructor
  · intro h
    cases h
    exact ⟨rfl, rfl⟩
  · rintro ⟨rfl, rfl⟩
    exact Steps.refl _

@[simp] theorem runs_op {o : S.Op} {k : S.Ans o → Prog S α} {tr : List (Event S)} {a : α} :
    Runs (op o k) tr a ↔ ∃ x rest, tr = ⟨o, x⟩ :: rest ∧ Runs (k x) rest a := by
  constructor
  · intro h
    cases h with
    | op h => exact ⟨_, _, rfl, h⟩
  · rintro ⟨x, rest, rfl, h⟩
    exact Steps.op h

theorem runs_bind {p : Prog S α} {f : α → Prog S β} {tr : List (Event S)} {b : β} :
    Runs (p >>= f) tr b ↔ ∃ a tr₁ tr₂, tr = tr₁ ++ tr₂ ∧ Runs p tr₁ a ∧ Runs (f a) tr₂ b := by
  induction p generalizing tr with
  | ret a => simp
  | op o k ih =>
      rw [op_bind, runs_op]
      constructor
      · rintro ⟨x, rest, rfl, h⟩
        obtain ⟨a, tr₁, tr₂, rfl, h₁, h₂⟩ := ih x |>.mp h
        exact ⟨a, ⟨o, x⟩ :: tr₁, tr₂, rfl, runs_op.mpr ⟨x, tr₁, rfl, h₁⟩, h₂⟩
      · rintro ⟨a, tr₁, tr₂, rfl, h₁, h₂⟩
        obtain ⟨x, rest, rfl, hx⟩ := runs_op.mp h₁
        exact ⟨x, rest ++ tr₂, rfl, ih x |>.mpr ⟨a, rest, tr₂, rfl, hx, h₂⟩⟩

theorem Steps.trans {p q r : Prog S α} {tr rest : List (Event S)} (h : Steps p tr q)
    (h' : Steps q rest r) : Steps p (tr ++ rest) r := by
  induction h with
  | refl p => exact h'
  | op h ih => exact Steps.op (ih h')

theorem Steps.bind {p q : Prog S α} {tr : List (Event S)} (f : α → Prog S β) (h : Steps p tr q) :
    Steps (p >>= f) tr (q >>= f) := by
  induction h with
  | refl p => exact Steps.refl _
  | op h ih => exact Steps.op ih

theorem Steps.one {o : S.Op} {x : S.Ans o} {k : S.Ans o → Prog S α} {q : Prog S α} (h : k x = q) :
    Steps (Prog.op o k) [⟨o, x⟩] q := h ▸ Steps.op (Steps.refl _)

theorem Steps.rest {p q : Prog S α} {tr rest : List (Event S)} {a : α} (h : Steps p tr q)
    (hruns : Runs p (tr ++ rest) a) : Runs q rest a := by
  induction h with
  | refl p => exact hruns
  | op h ih =>
      cases hruns with
      | op hruns => exact ih hruns

theorem Steps.before {p q : Prog S α} {tr rest : List (Event S)} {o : S.Op}
    {x : S.Ans o} (h : Steps p (tr ++ ⟨o, x⟩ :: rest) q) : ∃ k, Steps p tr (Prog.op o k) := by
  induction tr generalizing p with
  | nil =>
      cases h with
      | op h => exact ⟨_, Steps.refl _⟩
  | cons e tr ih =>
      cases h with
      | op h =>
          obtain ⟨k, hk⟩ := ih h
          exact ⟨k, Steps.op hk⟩

end Prog

/-! ## Contracts -/

/-- What a ghost state allows, and how an answered operation moves it. -/
structure Contract (S : Sig) (G : Type) where
  pre : G → S.Op → Prop
  post : G → (o : S.Op) → S.Ans o → G → Prop

namespace Prog

variable {S : Sig} {α β G : Type} {C : Contract S G}

/-- From ghost state `g`, every operation is allowed when it is performed, and every
return satisfies `Q`, whatever answers the contract admits. -/
def Meets (C : Contract S G) : Prog S α → G → (G → α → Prop) → Prop
  | ret a, g, Q => Q g a
  | op o k, g, Q => C.pre g o ∧ ∀ x g', C.post g o x g' → (k x).Meets C g' Q

@[simp] theorem meets_ret {a : α} {g : G} {Q : G → α → Prop} :
    (ret a : Prog S α).Meets C g Q ↔ Q g a := Iff.rfl

@[simp] theorem meets_op {o : S.Op} {k : S.Ans o → Prog S α} {g : G} {Q : G → α → Prop} :
    (op o k).Meets C g Q ↔ C.pre g o ∧ ∀ x g', C.post g o x g' → (k x).Meets C g' Q := Iff.rfl

theorem Meets.mono {p : Prog S α} {g : G} {Q R : G → α → Prop} (h : p.Meets C g Q)
    (hQR : ∀ g a, Q g a → R g a) : p.Meets C g R := by
  induction p generalizing g with
  | ret a => exact hQR g a h
  | op o k ih => exact ⟨h.1, fun x g' hpost => ih x (h.2 x g' hpost)⟩

theorem meets_bind {p : Prog S α} {f : α → Prog S β} {g : G} {Q : G → β → Prop} :
    (p >>= f).Meets C g Q ↔ p.Meets C g fun g' a => (f a).Meets C g' Q := by
  induction p generalizing g with
  | ret a => exact Iff.rfl
  | op o k ih =>
      rw [op_bind, meets_op, meets_op]
      exact and_congr_right fun _ => forall₂_congr fun x g' => imp_congr_right fun _ => ih x

theorem meets_map {p : Prog S α} {f : α → β} {g : G} {Q : G → β → Prop} :
    (f <$> p).Meets C g Q ↔ p.Meets C g fun g' a => Q g' (f a) :=
  meets_bind (f := fun a => ret (f a))

/-- Where the contract lets every answer be recorded by `next`, it still holds after some steps. -/
theorem Meets.steps {p q : Prog S α} {g : G} {Q : G → α → Prop} {next : G → Event S → G}
    {tr : List (Event S)} (hnext : ∀ g o x, C.post g o x (next g ⟨o, x⟩)) (hp : p.Meets C g Q)
    (h : Steps p tr q) : q.Meets C (tr.foldl next g) Q := by
  induction h generalizing g with
  | refl p => exact hp
  | op h ih => exact ih (hp.2 _ _ (hnext _ _ _))

/-- A contract without ghost state still holds after answers that it admits. -/
theorem Meets.admitted {C : Contract S Unit} {p q : Prog S α} {Q : Unit → α → Prop}
    {tr : List (Event S)} (hp : p.Meets C () Q) (htr : ∀ e ∈ tr, C.post () e.1 e.2 ())
    (h : Steps p tr q) : q.Meets C () Q := by
  induction h with
  | refl p => exact hp
  | op h ih =>
      obtain ⟨hanswer, hrest⟩ := List.forall_mem_cons.mp htr
      exact ih (hp.2 _ () hanswer) hrest

/-- The contract whose ghost state is the transcript so far. -/
def Told (pre : List (Event S) → S.Op → Prop) : Contract S (List (Event S)) where
  pre := pre
  post tr o x tr' := tr' = tr ++ [⟨o, x⟩]

theorem Meets.told {pre : List (Event S) → S.Op → Prop} {p q : Prog S α} {before tr : List (Event S)}
    {Q : List (Event S) → α → Prop} (hp : p.Meets (Told pre) before Q) (h : Steps p tr q) :
    q.Meets (Told pre) (before ++ tr) Q := by
  induction h generalizing before with
  | refl p => rwa [List.append_nil]
  | op h ih =>
      rw [List.append_cons]
      exact ih (hp.2 _ _ rfl)

/-- Runs whose answers agree are one run. -/
theorem runs_determined {same : Event S → Event S → Prop}
    (hsame : ∀ o x y, same ⟨o, x⟩ ⟨o, y⟩ → x = y) {p : Prog S α} {tr tr' : List (Event S)} {a b : α}
    (h : Runs p tr a) (h' : Runs p tr' b) (hanswers : List.Forall₂ same tr tr') :
    tr = tr' ∧ a = b := by
  induction p generalizing tr tr' with
  | ret c =>
      obtain ⟨rfl, rfl⟩ := runs_ret.mp h
      obtain ⟨rfl, rfl⟩ := runs_ret.mp h'
      exact ⟨rfl, rfl⟩
  | op o k ih =>
      obtain ⟨x, rest, rfl, hx⟩ := runs_op.mp h
      obtain ⟨y, rest', rfl, hy⟩ := runs_op.mp h'
      obtain ⟨hxy, hrest⟩ := List.forall₂_cons.mp hanswers
      obtain rfl := hsame o x y hxy
      obtain ⟨rfl, rfl⟩ := ih x hx hy hrest
      exact ⟨rfl, rfl⟩

end Prog

end Effects
