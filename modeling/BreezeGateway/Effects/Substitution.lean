import BreezeGateway.Effects.Program

/-!
# Programs in place of operations

`subst f p` performs each operation of `p` by the program that `f` gives for it.  A run of it is a
run of `p` whose answers are those of the runs put in.
-/

namespace Effects

namespace Prog

variable {S T : Sig} {α β : Type}

def subst (f : (o : S.Op) → Prog T (S.Ans o)) : Prog S α → Prog T α
  | ret a => ret a
  | op o k => f o >>= fun x => (k x).subst f

@[simp] theorem subst_ret (f : (o : S.Op) → Prog T (S.Ans o)) (a : α) :
    (ret a : Prog S α).subst f = ret a := rfl

@[simp] theorem subst_op (f : (o : S.Op) → Prog T (S.Ans o)) (o : S.Op) (k : S.Ans o → Prog S α) :
    (op o k).subst f = f o >>= fun x => (k x).subst f := rfl

end Prog

/-- One operation, with a run of the program put in its place. -/
structure Performed {S T : Sig} (f : (o : S.Op) → Prog T (S.Ans o)) where
  op : S.Op
  answer : S.Ans op
  events : List (Event T)
  runs : (f op).Runs events answer

namespace Performed

variable {S T : Sig} {f : (o : S.Op) → Prog T (S.Ans o)}

def event (c : Performed f) : Event S := ⟨c.op, c.answer⟩

theorem eq_of_event {c : Performed f} {o : S.Op} {x : S.Ans o} (h : c.event = ⟨o, x⟩) :
    ∃ (tr : List (Event T)) (runs : (f o).Runs tr x), c = ⟨o, x, tr, runs⟩ := by
  obtain ⟨o', x', tr, runs⟩ := c
  obtain ⟨rfl, hx⟩ := Sigma.mk.inj h
  obtain rfl := eq_of_heq hx
  exact ⟨tr, runs, rfl⟩

theorem eq_singleton {calls : List (Performed f)} {e : Event S} (h : calls.map event = [e]) :
    ∃ c, calls = [c] ∧ c.event = e := by
  obtain ⟨c, rest, rfl, hc, hrest⟩ := List.map_eq_cons_iff.mp h
  obtain rfl := List.map_eq_nil_iff.mp hrest
  exact ⟨c, rfl, hc⟩

theorem eq_pair {calls : List (Performed f)} {e₁ e₂ : Event S} (h : calls.map event = [e₁, e₂]) :
    ∃ c₁ c₂, calls = [c₁, c₂] ∧ c₁.event = e₁ ∧ c₂.event = e₂ := by
  obtain ⟨c, rest, rfl, hc, hrest⟩ := List.map_eq_cons_iff.mp h
  obtain ⟨c', rfl, hc'⟩ := eq_singleton hrest
  exact ⟨c, c', rfl, hc, hc'⟩

end Performed

namespace Prog

variable {S T : Sig} {α : Type} {f : (o : S.Op) → Prog T (S.Ans o)}

theorem runs_subst {p : Prog S α} {tr : List (Event T)} {a : α} :
    Runs (p.subst f) tr a ↔
      ∃ calls : List (Performed f), tr = calls.flatMap Performed.events ∧
        Runs p (calls.map Performed.event) a := by
  induction p generalizing tr with
  | ret b =>
      rw [subst_ret, runs_ret]
      constructor
      · rintro ⟨rfl, rfl⟩
        exact ⟨[], rfl, runs_ret.mpr ⟨rfl, rfl⟩⟩
      · rintro ⟨calls, rfl, h⟩
        obtain ⟨hcalls, rfl⟩ := runs_ret.mp h
        obtain rfl := List.map_eq_nil_iff.mp hcalls
        exact ⟨rfl, rfl⟩
  | op o k ih =>
      rw [subst_op, runs_bind]
      constructor
      · rintro ⟨x, tr₁, tr₂, rfl, h₁, h₂⟩
        obtain ⟨calls, rfl, h⟩ := (ih x).mp h₂
        exact ⟨⟨o, x, tr₁, h₁⟩ :: calls, rfl, runs_op.mpr ⟨x, _, rfl, h⟩⟩
      · rintro ⟨calls, rfl, h⟩
        obtain ⟨x, rest, hcalls, hrest⟩ := runs_op.mp h
        obtain ⟨c, calls, rfl, hc, rfl⟩ := List.map_eq_cons_iff.mp hcalls
        obtain ⟨tr₁, h₁, rfl⟩ := Performed.eq_of_event hc
        exact ⟨x, tr₁, _, rfl, h₁, (ih x).mpr ⟨calls, rfl, hrest⟩⟩

theorem Steps.subst {p q : Prog S α} {calls : List (Performed f)}
    (h : Steps p (calls.map Performed.event) q) :
    Steps (p.subst f) (calls.flatMap Performed.events) (q.subst f) := by
  induction calls generalizing p with
  | nil =>
      cases h with
      | refl => exact Steps.refl _
  | cons c calls ih =>
      obtain ⟨o, x, tr, runs⟩ := c
      cases h with
      | op h => exact (Steps.bind _ runs).trans (ih h)

/-- A contract of the outer program, when what is put in keeps to it under another contract. -/
theorem Meets.subst {G : Type} {C : Contract S G} {D : Contract T G} {p : Prog S α} {g : G}
    {Q : G → α → Prop} (hp : p.Meets C g Q)
    (hf : ∀ g o, C.pre g o → (f o).Meets D g fun g' x => C.post g o x g') :
    (p.subst f).Meets D g Q := by
  induction p generalizing g with
  | ret a => exact hp
  | op o k ih =>
      rw [subst_op, meets_bind]
      exact (hf g o hp.1).mono fun g' x hpost => ih x (hp.2 x g' hpost)

/-! ## Operations with their continuations -/

/-- Every operation that the program reaches, with what follows it, is as `Φ` says. -/
def Throughout (Φ : (o : S.Op) → (S.Ans o → Prog S α) → Prop) : Prog S α → Prop
  | ret _ => True
  | op o k => Φ o k ∧ ∀ x, (k x).Throughout Φ

theorem Throughout.of_steps {Φ : (o : S.Op) → (S.Ans o → Prog S α) → Prop} {p : Prog S α}
    {tr : List (Event S)} {o : S.Op} {k : S.Ans o → Prog S α} (hp : p.Throughout Φ)
    (h : Steps p tr (op o k)) : Φ o k := by
  generalize hq : op o k = q at h
  induction h with
  | refl p =>
      subst hq
      exact hp.1
  | op h ih => exact ih (hp.2 _) hq

/-! ## Operations that are never reached -/

/-- No path of the program performs an operation in `bad`. -/
def Avoids (bad : S.Op → Prop) : Prog S α → Prop
  | ret _ => True
  | op o k => ¬ bad o ∧ ∀ x, (k x).Avoids bad

variable {bad : S.Op → Prop} {β : Type}

@[simp] theorem avoids_ret (a : α) : (ret a : Prog S α).Avoids bad := trivial

@[simp] theorem avoids_op {o : S.Op} {k : S.Ans o → Prog S α} :
    (op o k).Avoids bad ↔ ¬ bad o ∧ ∀ x, (k x).Avoids bad := Iff.rfl

theorem Avoids.bind {p : Prog S α} {g : α → Prog S β} (hp : p.Avoids bad)
    (hg : ∀ a, (g a).Avoids bad) : (p >>= g).Avoids bad := by
  induction p with
  | ret a => exact hg a
  | op o k ih => exact ⟨hp.1, fun x => ih x (hp.2 x)⟩

theorem Avoids.subst {p : Prog S α} {bad' : T.Op → Prop} (hp : p.Avoids bad)
    (hf : ∀ o, ¬ bad o → (f o).Avoids bad') : (p.subst f).Avoids bad' := by
  induction p with
  | ret a => trivial
  | op o k ih => exact (hf o hp.1).bind fun x => ih x (hp.2 x)

theorem avoids_never (p : Prog S α) : p.Avoids fun _ => False := by
  induction p with
  | ret a => trivial
  | op o k ih => exact ⟨id, ih⟩

theorem Avoids.of_steps {p : Prog S α} {tr : List (Event S)} {o : S.Op} {k : S.Ans o → Prog S α}
    (hp : p.Avoids bad) (h : Steps p tr (op o k)) : ¬ bad o := by
  generalize hq : op o k = q at h
  induction h with
  | refl p =>
      subst hq
      exact hp.1
  | op h ih => exact ih (hp.2 _) hq

end Prog

end Effects
