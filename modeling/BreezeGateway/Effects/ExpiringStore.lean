import Mathlib.Tactic

/-!
# Stores whose entries expire

The three conditional updates of a lease: put a value where nothing is readable, remove a key
that reads as a given value, give a key that reads as a given value a new expiry.  `Until s k v d`
says that `k` carries `v` with an expiry not before `d`; the frame rules below say which updates
leave it alone.
-/

namespace Effects

/-- A value, and the time from which it can no longer be read. -/
structure Entry (ν : Type) where
  value : ν
  expiresAt : Option ℕ
deriving DecidableEq

namespace Entry

variable {ν : Type}

def live (e : Entry ν) (now : ℕ) : Bool :=
  match e.expiresAt with
  | none => true
  | some d => decide (now < d)

def lasts (e : Entry ν) (d : ℕ) : Prop := ∀ x, e.expiresAt = some x → d ≤ x

theorem live_of_lasts {e : Entry ν} {now d : ℕ} (h : e.lasts d) (hd : now < d) :
    e.live now = true := by
  unfold live
  cases hx : e.expiresAt with
  | none => rfl
  | some x => simpa using hd.trans_le (h x hx)

theorem live_of_le {e : Entry ν} {now later : ℕ} (h : e.live later = true) (hle : now ≤ later) :
    e.live now = true := by
  unfold live at h ⊢
  cases hx : e.expiresAt with
  | none => rfl
  | some x =>
      rw [hx] at h
      simpa using hle.trans_lt (of_decide_eq_true h)

end Entry

abbrev Store (κ ν : Type) := κ → Option (Entry ν)

namespace Store

variable {κ ν : Type}

def read (s : Store κ ν) (now : ℕ) (k : κ) : Option ν :=
  match s k with
  | some e => if e.live now then some e.value else none
  | none => none

theorem read_eq_some {s : Store κ ν} {now : ℕ} {k : κ} {v : ν} :
    s.read now k = some v ↔ ∃ e, s k = some e ∧ e.live now = true ∧ e.value = v := by
  unfold read
  cases s k with
  | none => simp
  | some e => simp

theorem read_of_le {s : Store κ ν} {now later : ℕ} {k : κ} {v : ν}
    (h : s.read later k = some v) (hle : now ≤ later) : s.read now k = some v := by
  obtain ⟨e, he, hlive, hv⟩ := read_eq_some.mp h
  exact read_eq_some.mpr ⟨e, he, Entry.live_of_le hlive hle, hv⟩

def Until (s : Store κ ν) (k : κ) (v : ν) (d : ℕ) : Prop :=
  ∃ e, s k = some e ∧ e.value = v ∧ e.lasts d

theorem Until.read {s : Store κ ν} {now : ℕ} {k : κ} {v : ν} {d : ℕ} (h : s.Until k v d)
    (hd : now < d) : s.read now k = some v := by
  obtain ⟨e, he, hv, hlasts⟩ := h
  exact read_eq_some.mpr ⟨e, he, Entry.live_of_lasts hlasts hd, hv⟩

theorem Until.mono {s : Store κ ν} {k : κ} {v : ν} {d d' : ℕ} (h : s.Until k v d) (hd : d' ≤ d) :
    s.Until k v d' := by
  obtain ⟨e, he, hv, hlasts⟩ := h
  exact ⟨e, he, hv, fun x hx => hd.trans (hlasts x hx)⟩

theorem Until.of_eq {s s' : Store κ ν} {k : κ} {v : ν} {d : ℕ} (h : s.Until k v d)
    (hk : s' k = s k) : s'.Until k v d := by
  obtain ⟨e, he, hv⟩ := h
  exact ⟨e, hk.trans he, hv⟩

theorem read_of_eq {s s' : Store κ ν} {now : ℕ} {k : κ} (hk : s' k = s k) :
    s'.read now k = s.read now k := by
  unfold read
  rw [hk]

variable [DecidableEq κ]

def put (s : Store κ ν) (k : κ) (v : ν) (d : ℕ) : Store κ ν :=
  Function.update s k (some ⟨v, some d⟩)

theorem read_put (s : Store κ ν) (now : ℕ) (k k' : κ) (v : ν) (d : ℕ) :
    (s.put k' v d).read now k =
      if k = k' then (if now < d then some v else none) else s.read now k := by
  by_cases h : k = k'
  · subst h
    simp [read, put, Entry.live]
  · simp [read, put, h]

theorem until_put (s : Store κ ν) (k : κ) (v : ν) (d : ℕ) : (s.put k v d).Until k v d :=
  ⟨⟨v, some d⟩, by simp [put], rfl, by rintro x ⟨⟩; exact le_rfl⟩

theorem until_put_ne {s : Store κ ν} {k k' : κ} {v v' : ν} {d d' : ℕ} (h : k ≠ k') :
    (s.put k' v' d').Until k v d ↔ s.Until k v d := by
  simp [Until, put, h]

variable [DecidableEq ν]

/-- Put `v` under `k` unless something is readable there. -/
def putIfAbsent (s : Store κ ν) (now : ℕ) (k : κ) (v : ν) (d : ℕ) : Store κ ν × Bool :=
  if s.read now k = none then (s.put k v d, true) else (s, false)

/-- Remove `k` if it reads as `v`. -/
def removeIf (s : Store κ ν) (now : ℕ) (k : κ) (v : ν) : Store κ ν × Bool :=
  if s.read now k = some v then (Function.update s k none, true) else (s, false)

/-- Let `k` expire at `d` if it reads as `v`. -/
def extendIf (s : Store κ ν) (now : ℕ) (k : κ) (v : ν) (d : ℕ) : Store κ ν × Bool :=
  if s.read now k = some v then (s.put k v d, true) else (s, false)

/-! ## What is readable afterwards -/

omit [DecidableEq ν] in
theorem read_putIfAbsent {s : Store κ ν} {now later : ℕ} {k k' : κ} {v v' : ν} {d : ℕ}
    (hle : now ≤ later) (h : (s.putIfAbsent now k' v' d).1.read later k = some v) :
    s.read now k = some v ∨ (k = k' ∧ v = v' ∧ s.read now k = none) := by
  unfold putIfAbsent at h
  split at h
  · rename_i hnone
    rw [read_put] at h
    by_cases hk : k = k'
    · subst hk
      right
      refine ⟨rfl, ?_, hnone⟩
      by_contra hv
      by_cases hd : later < d <;> simp [hd] at h
      exact hv h.symm
    · left
      simp only [hk, if_false] at h
      exact read_of_le h hle
  · exact Or.inl (read_of_le h hle)

theorem read_removeIf {s : Store κ ν} {now later : ℕ} {k k' : κ} {v v' : ν} (hle : now ≤ later)
    (h : (s.removeIf now k' v').1.read later k = some v) :
    s.read now k = some v ∧ ¬(k = k' ∧ v = v') := by
  unfold removeIf at h
  split at h
  · rename_i hread
    by_cases hk : k = k'
    · subst hk
      simp [read] at h
    · have h' : s.read later k = some v := by simpa [read, hk] using h
      exact ⟨read_of_le h' hle, fun hc => hk hc.1⟩
  · rename_i hread
    have h' := read_of_le h hle
    refine ⟨h', ?_⟩
    rintro ⟨rfl, rfl⟩
    exact hread h'

theorem read_extendIf {s : Store κ ν} {now later : ℕ} {k k' : κ} {v v' : ν} {d : ℕ}
    (hle : now ≤ later) (h : (s.extendIf now k' v' d).1.read later k = some v) :
    s.read now k = some v := by
  unfold extendIf at h
  split at h
  · rename_i hread
    rw [read_put] at h
    by_cases hk : k = k'
    · subst hk
      by_cases hd : later < d <;> simp [hd] at h
      rwa [h] at hread
    · simp only [hk, if_false] at h
      exact read_of_le h hle
  · exact read_of_le h hle

/-! ## Frame rules -/

omit [DecidableEq ν] in
theorem Until.putIfAbsent {s : Store κ ν} {now : ℕ} {k k' : κ} {v v' : ν} {d d' : ℕ}
    (h : s.Until k v d) (hd : now < d) : (s.putIfAbsent now k' v' d').1.Until k v d := by
  unfold Store.putIfAbsent
  split
  · rename_i hnone
    have hk : k ≠ k' := by
      rintro rfl
      rw [h.read hd] at hnone
      cases hnone
    exact (until_put_ne hk).mpr h
  · exact h

theorem Until.removeIf {s : Store κ ν} {now : ℕ} {k k' : κ} {v v' : ν} {d : ℕ}
    (h : s.Until k v d) (hd : now < d) (hne : ¬(k = k' ∧ v = v')) :
    (s.removeIf now k' v').1.Until k v d := by
  unfold Store.removeIf
  split
  · rename_i hread
    have hk : k ≠ k' := by
      rintro rfl
      rw [h.read hd] at hread
      exact hne ⟨rfl, by simpa using hread⟩
    obtain ⟨e, he, hv⟩ := h
    exact ⟨e, by simpa [hk] using he, hv⟩
  · exact h

theorem Until.extendIf {s : Store κ ν} {now : ℕ} {k k' : κ} {v v' : ν} {d d' : ℕ}
    (h : s.Until k v d) (hd : now < d) (hle : k = k' → v = v' → d ≤ d') :
    (s.extendIf now k' v' d').1.Until k v d := by
  unfold Store.extendIf
  split
  · rename_i hread
    by_cases hk : k = k'
    · subst hk
      rw [h.read hd] at hread
      obtain rfl : v = v' := by simpa using hread
      exact (until_put s k v d').mono (hle rfl rfl)
    · exact (until_put_ne hk).mpr h
  · exact h

/-! ## Successful updates -/

omit [DecidableEq ν] in
theorem putIfAbsent_true {s : Store κ ν} {now : ℕ} {k : κ} {v : ν} {d : ℕ}
    (h : (s.putIfAbsent now k v d).2 = true) :
    s.read now k = none ∧ (s.putIfAbsent now k v d).1 = s.put k v d := by
  unfold putIfAbsent at h ⊢
  split at h
  · rename_i hnone
    simp [hnone]
  · cases h

omit [DecidableEq ν] in
theorem putIfAbsent_false {s : Store κ ν} {now : ℕ} {k : κ} {v : ν} {d : ℕ}
    (h : (s.putIfAbsent now k v d).2 = false) :
    s.read now k ≠ none ∧ (s.putIfAbsent now k v d).1 = s := by
  unfold putIfAbsent at h ⊢
  split at h
  · cases h
  · rename_i hsome
    simp [hsome]

theorem removeIf_true {s : Store κ ν} {now : ℕ} {k : κ} {v : ν}
    (h : (s.removeIf now k v).2 = true) :
    s.read now k = some v ∧ (s.removeIf now k v).1 = Function.update s k none := by
  unfold removeIf at h ⊢
  split at h
  · rename_i hread
    simp [hread]
  · cases h

theorem removeIf_false {s : Store κ ν} {now : ℕ} {k : κ} {v : ν}
    (h : (s.removeIf now k v).2 = false) :
    s.read now k ≠ some v ∧ (s.removeIf now k v).1 = s := by
  unfold removeIf at h ⊢
  split at h
  · cases h
  · rename_i hread
    simp [hread]

theorem extendIf_true {s : Store κ ν} {now : ℕ} {k : κ} {v : ν} {d : ℕ}
    (h : (s.extendIf now k v d).2 = true) :
    s.read now k = some v ∧ (s.extendIf now k v d).1 = s.put k v d := by
  unfold extendIf at h ⊢
  split at h
  · rename_i hread
    simp [hread]
  · cases h

theorem extendIf_false {s : Store κ ν} {now : ℕ} {k : κ} {v : ν} {d : ℕ}
    (h : (s.extendIf now k v d).2 = false) :
    s.read now k ≠ some v ∧ (s.extendIf now k v d).1 = s := by
  unfold extendIf at h ⊢
  split at h
  · cases h
  · rename_i hread
    simp [hread]

end Store

end Effects
