import Mathlib.Data.List.DropRight
import Mathlib.Tactic

/-!
# Patterns over separated texts

A text is cut into segments at a separator.  In a pattern a segment may begin with a mark: the
one stands for any segment that is not empty, the other, on the last segment, for whatever is left.
All other segments stand for themselves.
-/

namespace SegmentPattern

variable {α : Type}

structure Marks (α : Type) where
  separator : α
  one : α
  rest : α

/-- A segment that stands for itself wherever it occurs. -/
def Marks.Literal (m : Marks α) (segment : List α) : Prop :=
  segment.head? ≠ some m.one ∧ segment.head? ≠ some m.rest

variable [DecidableEq α]

def Marks.acceptsSegments (m : Marks α) : List (List α) → List (List α) → Bool
  | [], [] => true
  | p :: ps, s :: ss =>
      if p.head? = some m.rest ∧ ps = [] then true
      else if p.head? = some m.one then !s.isEmpty && m.acceptsSegments ps ss
      else decide (p = s) && m.acceptsSegments ps ss
  | [], _ :: _ => false
  | _ :: _, [] => false

/-- Whether a pattern stands for a text. -/
def Marks.accepts (m : Marks α) (pattern text : List α) : Bool :=
  m.acceptsSegments (pattern.splitOn m.separator) (text.splitOn m.separator)

variable {m : Marks α} {p : List α} {ps ss : List (List α)}

/-! ## Segments -/

theorem acceptsSegments_cons_literal (hp : m.Literal p) (s : List α) (ss : List (List α)) :
    m.acceptsSegments (p :: ps) (s :: ss) = (decide (p = s) && m.acceptsSegments ps ss) := by
  rw [Marks.acceptsSegments, if_neg fun h => hp.2 h.1, if_neg hp.1]

theorem acceptsSegments_literal (hps : ∀ p ∈ ps, m.Literal p) :
    m.acceptsSegments ps ss = true ↔ ss = ps := by
  induction ps generalizing ss with
  | nil => cases ss <;> simp [Marks.acceptsSegments]
  | cons p ps ih =>
      cases ss with
      | nil => simp [Marks.acceptsSegments]
      | cons s ss =>
          rw [acceptsSegments_cons_literal (hps p List.mem_cons_self), Bool.and_eq_true,
            decide_eq_true_eq, ih fun q hq => hps q (List.mem_cons_of_mem _ hq), List.cons.injEq]
          exact and_congr_left fun _ => eq_comm

theorem acceptsSegments_rest (hps : ∀ p ∈ ps, m.Literal p) {last : List α}
    (hlast : last.head? = some m.rest) :
    m.acceptsSegments (ps ++ [last]) ss = true ↔ ∃ tail, tail ≠ [] ∧ ss = ps ++ tail := by
  induction ps generalizing ss with
  | nil => cases ss <;> simp [Marks.acceptsSegments, hlast]
  | cons p ps ih =>
      cases ss with
      | nil => simp [Marks.acceptsSegments]
      | cons s ss =>
          rw [List.cons_append, acceptsSegments_cons_literal (hps p List.mem_cons_self),
            Bool.and_eq_true, decide_eq_true_eq, ih fun q hq => hps q (List.mem_cons_of_mem _ hq)]
          constructor
          · rintro ⟨rfl, tail, htail, rfl⟩
            exact ⟨tail, htail, rfl⟩
          · rintro ⟨tail, htail, hss⟩
            obtain ⟨rfl, rfl⟩ := List.cons.inj hss
            exact ⟨rfl, tail, htail, rfl⟩

theorem acceptsSegments_self (ps : List (List α)) : m.acceptsSegments ps ps = true := by
  induction ps with
  | nil => rfl
  | cons p ps ih =>
      rw [Marks.acceptsSegments]
      split
      · rfl
      · split
        · rename_i hone
          cases p with
          | nil => cases hone
          | cons c p => simpa using ih
        · simpa using ih

/-! ## Texts -/

theorem accepts_self (text : List α) : m.accepts text text = true := acceptsSegments_self _

theorem splitOn_injective (a : α) : Function.Injective (List.splitOn a) := by
  intro xs ys h
  have hxs : [a].intercalate (xs.splitOn a) = xs := List.intercalate_splitOn a
  rw [← hxs, h, List.intercalate_splitOn]

omit [DecidableEq α] in
theorem intercalate_append (sep : List α) {ls ls' : List (List α)} (h : ls ≠ []) (h' : ls' ≠ []) :
    sep.intercalate (ls ++ ls') = sep.intercalate ls ++ sep ++ sep.intercalate ls' := by
  induction ls with
  | nil => exact absurd rfl h
  | cons l ls ih =>
      cases ls with
      | nil => simp [List.intercalate_cons_of_ne_nil h']
      | cons l' ls =>
          rw [List.cons_append, List.cons_append, List.intercalate_cons_cons,
            List.intercalate_cons_cons, ← List.cons_append, ih (List.cons_ne_nil _ _)]
          simp only [List.append_assoc]

theorem splitOn_eq_append {a : α} {base text : List α} :
    (∃ tail, tail ≠ [] ∧ text.splitOn a = base.splitOn a ++ tail) ↔ base ++ [a] <+: text := by
  constructor
  · rintro ⟨tail, htail, htext⟩
    refine ⟨[a].intercalate tail, ?_⟩
    have hjoin : [a].intercalate (text.splitOn a) = text := List.intercalate_splitOn a
    rw [← hjoin, htext, intercalate_append _ (List.splitOn_ne_nil _ _) htail, List.intercalate_splitOn]
  · rintro ⟨suffix, rfl⟩
    refine ⟨suffix.splitOn a, List.splitOn_ne_nil _ _, ?_⟩
    rw [List.append_assoc, List.singleton_append, List.splitOn_append_cons_self]

variable {pattern base text name : List α}

theorem accepts_literal (h : ∀ p ∈ pattern.splitOn m.separator, m.Literal p) :
    m.accepts pattern text = true ↔ text = pattern := by
  rw [Marks.accepts, acceptsSegments_literal h]
  exact (splitOn_injective _).eq_iff

/-- A literal text with a last segment that stands for whatever is left. -/
theorem accepts_rest (h : ∀ p ∈ base.splitOn m.separator, m.Literal p)
    (hname : name.head? = some m.rest) (hseparator : m.separator ∉ name) :
    m.accepts (base ++ m.separator :: name) text = true ↔ base ++ [m.separator] <+: text := by
  rw [Marks.accepts, List.splitOn_append_cons_self, List.splitOn_eq_singleton hseparator,
    acceptsSegments_rest h hname, splitOn_eq_append]

theorem literal_rdropWhile (h : ∀ p ∈ text.splitOn m.separator, m.Literal p) :
    ∀ p ∈ (text.rdropWhile (· == m.separator)).splitOn m.separator, m.Literal p := by
  intro p hp
  have htext : text.rdropWhile (· == m.separator) ++ text.rtakeWhile (· == m.separator) = text :=
    List.rdropWhile_append_rtakeWhile
  have hdropped : ∀ c ∈ text.rtakeWhile (· == m.separator), c = m.separator := fun c hc => by
    simpa using List.mem_rtakeWhile_imp hc
  cases hrest : text.rtakeWhile (· == m.separator) with
  | nil =>
      rw [hrest, List.append_nil] at htext
      rw [htext] at hp
      exact h p hp
  | cons c rest =>
      obtain rfl : c = m.separator := by
        apply hdropped
        rw [hrest]
        exact List.mem_cons_self
      apply h
      rw [← htext, hrest, List.splitOn_append_cons_self]
      exact List.mem_append_left _ hp

end SegmentPattern
