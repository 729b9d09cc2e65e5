import Mathlib.Tactic

/-!
# Validating a list

A fallible pass over the numbered elements of a list.  It refuses the bad elements wherever they
stand, so it reports the first of them.
-/

namespace Validation

variable {ε α β γ : Type}

/-- The pass makes `g x` of an element that is not bad, and refuses the others. -/
structure Refuses (f : α × ℕ → Except ε β) (bad : α → Bool) (g : α → β) : Prop where
  accepted : ∀ {x} (i : ℕ), bad x = false → f (x, i) = .ok (g x)
  refused : ∀ {x} (i : ℕ), bad x = true → ∃ e, f (x, i) = .error e

variable {f : α × ℕ → Except ε β} {bad : α → Bool} {g : α → β}

theorem Refuses.mapM_ok (hf : Refuses f bad g) {l : List α} (n : ℕ) (h : l.findIdx? bad = none) :
    (l.zipIdx n).mapM f = .ok (l.map g) := by
  induction l generalizing n with
  | nil => rfl
  | cons x l ih =>
      obtain ⟨hx, hl⟩ := List.forall_mem_cons.mp (List.findIdx?_eq_none_iff.mp h)
      rw [List.zipIdx_cons, List.mapM_cons, hf.accepted n hx,
        ih (n + 1) (List.findIdx?_eq_none_iff.mpr hl)]
      rfl

theorem Refuses.mapM_error (hf : Refuses f bad g) {l : List α} {i : ℕ} (n : ℕ)
    (h : l.findIdx? bad = some i) :
    ∃ x e, l[i]? = some x ∧ bad x = true ∧ f (x, n + i) = .error e ∧
      (l.zipIdx n).mapM f = .error e := by
  induction l generalizing n i with
  | nil => cases h
  | cons x l ih =>
      rw [List.zipIdx_cons, List.mapM_cons]
      rw [List.findIdx?_cons] at h
      cases hx : bad x with
      | true =>
          rw [hx, if_pos rfl] at h
          obtain rfl := Option.some.inj h
          obtain ⟨e, he⟩ := hf.refused n hx
          rw [he]
          exact ⟨x, e, rfl, hx, he, rfl⟩
      | false =>
          rw [hx, if_neg Bool.noConfusion] at h
          obtain ⟨j, hj, rfl⟩ := Option.map_eq_some_iff.mp h
          obtain ⟨y, e, hy, hbad, he, hrest⟩ := ih (n + 1) hj
          rw [hf.accepted n hx, hrest]
          refine ⟨y, e, hy, hbad, ?_, rfl⟩
          rw [← he]
          congr 2
          omega

/-- A pass that keeps something of each element on its way keeps it of all of them. -/
theorem foldlM_keeping {f : α → Except ε β} (keep : α → γ) (l : List α) (kept : List γ)
    (made : List β) :
    l.foldlM (fun acc x => f x >>= fun y => pure (acc.1 ++ [keep x], acc.2 ++ [y])) (kept, made) =
      l.mapM f >>= fun ys => (pure (kept ++ l.map keep, made ++ ys) : Except ε (List γ × List β)) := by
  induction l generalizing kept made with
  | nil =>
      rw [List.foldlM_nil, List.mapM_nil, List.map_nil, pure_bind, List.append_nil, List.append_nil]
  | cons x l ih =>
      rw [List.foldlM_cons, List.mapM_cons, bind_assoc, bind_assoc]
      refine bind_congr fun y => ?_
      rw [pure_bind, ih, bind_assoc]
      refine bind_congr fun ys => ?_
      rw [pure_bind, List.map_cons, List.append_assoc, List.append_assoc, List.singleton_append,
        List.singleton_append]

end Validation
