import BreezeGateway.Effects.ExpiringStore

/-!
# Lease locks

A lock that is taken for a limited time when nobody holds it, and that its holder may prolong or
give up.  A history of operations is legal when every answer in it is the one that a single lock,
asked one operation after the other, gives.  The conditional updates of an expiring store are the
operations of a lock under every key.
-/

namespace Effects

variable {V : Type}

abbrev LeaseLock (V : Type) := Option (Entry V)

inductive LockOp (V : Type) where
  | acquire (v : V) (ttl : ℕ)
  | renew (v : V) (ttl : ℕ)
  | release (v : V)
  | look
deriving DecidableEq

inductive LockAnswer (V : Type) where
  | done (ok : Bool)
  | holder (v : Option V)
deriving DecidableEq

/-- Operations, each with its time and its answer. -/
abbrev LockHistory (V : Type) := List (ℕ × LockOp V × LockAnswer V)

/-- The operation, if it succeeds, gives the lock to `v` for `ttl`. -/
inductive LockOp.Grants (v : V) (ttl : ℕ) : LockOp V → Prop where
  | acquire : LockOp.Grants v ttl (.acquire v ttl)
  | renew : LockOp.Grants v ttl (.renew v ttl)

namespace LeaseLock

def holder (k : LeaseLock V) (now : ℕ) : Option V :=
  k.bind fun e => if e.live now then some e.value else none

variable [DecidableEq V]

def step (now : ℕ) (k : LeaseLock V) : LockOp V → LeaseLock V × LockAnswer V
  | .acquire v ttl =>
      if k.holder now = none then (some ⟨v, some (now + ttl)⟩, .done true) else (k, .done false)
  | .renew v ttl =>
      if k.holder now = some v then (some ⟨v, some (now + ttl)⟩, .done true) else (k, .done false)
  | .release v => if k.holder now = some v then (none, .done true) else (k, .done false)
  | .look => (k, .holder (k.holder now))

def after (k : LeaseLock V) (h : LockHistory V) : LeaseLock V :=
  h.foldl (fun k x => (k.step x.1 x.2.1).1) k

inductive Legal (k : LeaseLock V) : LockHistory V → Prop where
  | nil : Legal k []
  | snoc {h : LockHistory V} {now : ℕ} {op : LockOp V} (hh : Legal k h) :
      Legal k (h ++ [(now, op, ((k.after h).step now op).2)])

variable {k : LeaseLock V} {h : LockHistory V} {now ttl : ℕ} {v : V} {op : LockOp V}

omit [DecidableEq V] in
theorem holder_lease : holder (some ⟨v, some ttl⟩) now = if now < ttl then some v else none := by
  simp [holder, Entry.live]

@[simp] theorem after_nil : k.after [] = k := rfl

theorem after_snoc {x : ℕ × LockOp V × LockAnswer V} :
    k.after (h ++ [x]) = ((k.after h).step x.1 x.2.1).1 := by
  simp [after]

/-- An operation that does not succeed leaves the lock alone; one that succeeds gives it to
somebody from then on, or to nobody. -/
theorem step_cases (now : ℕ) (k : LeaseLock V) (op : LockOp V) :
    ((k.step now op).2 ≠ .done true ∧ (k.step now op).1 = k) ∨
    ((k.step now op).2 = .done true ∧
      ((∃ v ttl, op.Grants v ttl ∧ (k.step now op).1 = some ⟨v, some (now + ttl)⟩) ∨
        ∃ v, op = .release v ∧ (k.step now op).1 = none)) := by
  cases op with
  | acquire v ttl =>
      by_cases hfree : k.holder now = none
      · simp only [step, hfree, if_true]
        exact Or.inr ⟨trivial, Or.inl ⟨v, ttl, .acquire, rfl⟩⟩
      · simp [step, hfree]
  | renew v ttl =>
      by_cases howned : k.holder now = some v
      · simp only [step, howned, if_true]
        exact Or.inr ⟨trivial, Or.inl ⟨v, ttl, .renew, rfl⟩⟩
      · simp [step, howned]
  | release v =>
      by_cases howned : k.holder now = some v
      · simp only [step, howned, if_true]
        exact Or.inr ⟨trivial, Or.inr ⟨v, rfl, trivial⟩⟩
      · simp [step, howned]
  | look => exact Or.inl ⟨by simp [step], rfl⟩

/-- The last operation that succeeded. -/
def LastSuccess (h : LockHistory V) (τ : ℕ) (op : LockOp V) : Prop :=
  ∃ a b, h = a ++ (τ, op, .done true) :: b ∧ ∀ x ∈ b, x.2.2 ≠ .done true

omit [DecidableEq V] in
theorem lastSuccess_snoc {τ : ℕ} {x : ℕ × LockOp V × LockAnswer V} :
    LastSuccess (h ++ [x]) τ op ↔
      x = (τ, op, .done true) ∨ (x.2.2 ≠ .done true ∧ LastSuccess h τ op) := by
  constructor
  · rintro ⟨a, b, heq, hb⟩
    induction b using List.reverseRecOn with
    | nil =>
        obtain ⟨-, hlast⟩ := List.append_inj' heq rfl
        exact Or.inl (List.singleton_inj.mp hlast)
    | append_singleton b y _ =>
        rw [← List.cons_append, ← List.append_assoc] at heq
        obtain ⟨rfl, hlast⟩ := List.append_inj' heq rfl
        obtain rfl := List.singleton_inj.mp hlast
        exact Or.inr ⟨hb x (by simp), a, b, rfl, fun z hz => hb z (List.mem_append_left _ hz)⟩
  · rintro (rfl | ⟨hx, a, b, rfl, hb⟩)
    · refine ⟨h, [], rfl, ?_⟩
      intro x hx
      cases hx
    · refine ⟨a, b ++ [x], by simp, ?_⟩
      intro y hy
      rcases List.mem_append.mp hy with hy | hy
      · exact hb y hy
      · rwa [List.mem_singleton.mp hy]

/-- Who holds a lock is decided by the last operation that succeeded. -/
theorem Legal.holder_iff (hh : Legal k h) :
    (k.after h).holder now = some v ↔
      (∃ τ op ttl, LastSuccess h τ op ∧ op.Grants v ttl ∧ now < τ + ttl) ∨
      ((∀ x ∈ h, x.2.2 ≠ .done true) ∧ k.holder now = some v) := by
  induction hh with
  | nil =>
      rw [after_nil]
      constructor
      · intro hk
        exact Or.inr ⟨by simp, hk⟩
      · rintro (⟨τ, op, ttl, ⟨a, b, heq, -⟩, -⟩ | ⟨-, hk⟩)
        · simp at heq
        · exact hk
  | @snoc h τ op hh ih =>
      simp only [after_snoc, lastSuccess_snoc, List.forall_mem_append, List.forall_mem_singleton]
      rcases step_cases τ (k.after h) op with ⟨hanswer, hsame⟩ | ⟨hanswer, hmoved⟩
      · rw [hsame, ih]
        have hfailed : ∀ τ₁ op₁, (τ, op, ((k.after h).step τ op).2) ≠ (τ₁, op₁, .done true) := by
          rintro τ₁ op₁ heq
          exact hanswer (congrArg (fun x => x.2.2) heq)
        simp only [hfailed, hanswer, false_or, ne_eq, not_false_eq_true, true_and, and_true]
      · rw [hanswer]
        simp only [Prod.mk.injEq, and_true, ne_eq, not_true_eq_false, false_and, or_false, and_false]
        rcases hmoved with ⟨v', ttl', hgrants, hlock⟩ | ⟨v', rfl, hlock⟩
        · rw [hlock, holder_lease]
          constructor
          · intro hholder
            split at hholder
            · rename_i hlt
              obtain rfl := Option.some.inj hholder
              exact ⟨τ, op, ttl', ⟨rfl, rfl⟩, hgrants, hlt⟩
            · cases hholder
          · rintro ⟨τ₁, op₁, ttl₁, ⟨rfl, rfl⟩, hgrants₁, hlt⟩
            cases hgrants <;> cases hgrants₁ <;> exact if_pos hlt
        · rw [hlock]
          constructor
          · intro hholder
            cases hholder
          · rintro ⟨τ₁, op₁, ttl₁, ⟨-, rfl⟩, hgrants₁, -⟩
            cases hgrants₁

end LeaseLock

/-! ## Stores -/

namespace Store

variable {κ ν : Type} {s : Store κ ν} {now ttl : ℕ} {k : κ} {v : ν}

theorem holder_eq_read : LeaseLock.holder (s k) now = s.read now k := by
  unfold LeaseLock.holder read
  cases s k <;> rfl

variable [DecidableEq κ] [DecidableEq ν]

theorem putIfAbsent_refines :
    ((s.putIfAbsent now k v (now + ttl)).1 k,
      (.done (s.putIfAbsent now k v (now + ttl)).2 : LockAnswer ν)) =
      LeaseLock.step now (s k) (.acquire v ttl) := by
  simp only [LeaseLock.step, holder_eq_read, putIfAbsent]
  split
  · simp [put]
  · rfl

theorem extendIf_refines :
    ((s.extendIf now k v (now + ttl)).1 k,
      (.done (s.extendIf now k v (now + ttl)).2 : LockAnswer ν)) =
      LeaseLock.step now (s k) (.renew v ttl) := by
  simp only [LeaseLock.step, holder_eq_read, extendIf]
  split
  · simp [put]
  · rfl

theorem removeIf_refines :
    ((s.removeIf now k v).1 k, (.done (s.removeIf now k v).2 : LockAnswer ν)) =
      LeaseLock.step now (s k) (.release v) := by
  simp only [LeaseLock.step, holder_eq_read, removeIf]
  split
  · simp
  · rfl

end Store

end Effects
