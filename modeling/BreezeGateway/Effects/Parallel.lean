import BreezeGateway.Effects.Solo

/-!
# Networks of clients side by side

Several networks, each with its own programs and memory, share one server and one clock.  Every
party sees the steps of the others as writes of its environment.  If what a party does keeps the
promises that the others make about their environments, then the part a party plays in a run of
the whole is a run of its own network.
-/

namespace Effects

/-- A network with the types it is about. -/
structure Party (Cmd Rep Db : Type) where
  L : Sig
  Mem : Type
  T : Type
  Lane : Type
  Kind : Type
  α : Type
  [threadsEq : DecidableEq T]
  [lanesEq : DecidableEq Lane]
  net : Network Cmd Rep L Db Mem T Lane Kind α

attribute [instance] Party.threadsEq Party.lanesEq

section

variable {Cmd Rep Db : Type}

namespace Party

variable (P : Party Cmd Rep Db)

abbrev World := Effects.World Cmd Rep P.L Db P.Mem P.T P.Lane P.α

abbrev Label := Effects.Label Cmd Rep P.L P.T P.Kind P.α

abbrev History := Effects.History Cmd Rep P.L P.T P.Kind P.α

/-- What a party does not share. -/
structure Share where
  mem : P.Mem
  threads : P.T → Option (Thread Cmd Rep P.L P.α)
  strays : P.Lane → List (P.T × Cmd)

end Party

/-- Steps that a network takes itself. -/
def Label.own {L : Sig} {T Kind α : Type} : Label Cmd Rep L T Kind α → Prop
  | .tick _ => False
  | .environment => False
  | _ => True

theorem Network.Step.now_of_own {L : Sig} {Mem T Lane Kind α : Type} [DecidableEq T]
    [DecidableEq Lane] {N : Network Cmd Rep L Db Mem T Lane Kind α}
    {w w' : World Cmd Rep L Db Mem T Lane α} {l : Label Cmd Rep L T Kind α} (h : N.Step w l w')
    (hl : l.own) : w'.now = w.now := by
  cases h with
  | tick d => exact hl.elim
  | environment h => exact hl.elim
  | @cancel t o k wire kind hth ho => cases o <;> simp
  | _ => simp

/-- In a turn without time passing a network takes all the steps itself. -/
theorem Network.Turn.own {L : Sig} {T Kind α : Type} {t : T} {Good : (o : L.Op) → L.Ans o → Prop}
    {y : α} {ls : Effects.History Cmd Rep L T Kind α} (h : Turn t Good y ls) (hquick : Quick ls) :
    ∀ x ∈ ls, x.2.own := by
  obtain ⟨σ, τ, b, rfl, hcalm⟩ := h
  rintro ⟨ρ, l⟩ hx
  have htick := hquick _ hx
  simp only [List.mem_cons, List.mem_append, List.not_mem_nil, or_false] at hx
  rcases hx with hx | hx | hx
  · cases hx
    exact trivial
  · have hl := hcalm _ hx
    cases l with
    | tick d => exact absurd rfl (htick d)
    | environment => exact hl
    | _ => exact trivial
  · cases hx
    exact trivial

variable {ι : Type}

structure Joint (parties : ι → Party Cmd Rep Db) where
  now : ℕ
  db : Db
  share : ∀ i, (parties i).Share

inductive JointLabel (parties : ι → Party Cmd Rep Db) where
  | tick (d : ℕ)
  /-- A write by nobody of the parties. -/
  | outside
  | own (i : ι) (l : (parties i).Label)

/-- `outside` are the writes of everybody else, and `guard` ties what one party is told to the
state of another. -/
structure Composition (Cmd Rep Db ι : Type) where
  parties : ι → Party Cmd Rep Db
  outside : ℕ → Db → Db → Prop
  guard : Joint parties → ∀ i, (parties i).Label → Prop

namespace Composition

variable [DecidableEq ι] (Y : Composition Cmd Rep Db ι)

abbrev World := Joint Y.parties

abbrev History := List (ℕ × JointLabel Y.parties)

variable {Y}

omit [DecidableEq ι] in
/-- The world as a party sees it. -/
def view (j : Y.World) (i : ι) : (Y.parties i).World where
  now := j.now
  db := j.db
  mem := (j.share i).mem
  threads := (j.share i).threads
  strays := (j.share i).strays

def put (j : Y.World) (i : ι) (w : (Y.parties i).World) : Y.World where
  now := w.now
  db := w.db
  share := Function.update j.share i ⟨w.mem, w.threads, w.strays⟩

theorem view_put_self (j : Y.World) (i : ι) (w : (Y.parties i).World) : view (put j i w) i = w := by
  simp [view, put]

theorem view_put_of_ne (j : Y.World) {i k : ι} (h : k ≠ i) (w : (Y.parties i).World) :
    view (put j i w) k = { view j k with now := w.now, db := w.db } := by
  simp [view, put, h]

theorem put_view (j : Y.World) (i : ι) : put j i (view j i) = j := by
  simp [view, put]

theorem put_db (j : Y.World) (i : ι) (db : Db) :
    put j i { view j i with db := db } = { j with db := db } := by
  simp [view, put]

theorem put_share_of_ne (j : Y.World) {i k : ι} (h : k ≠ i) (w : (Y.parties i).World) :
    (put j i w).share k = j.share k := Function.update_of_ne h ..

theorem put_put (j : Y.World) (i : ι) (w w' : (Y.parties i).World) :
    put (put j i w) i w' = put j i w' := by
  simp [put]

variable (Y)

inductive Step (j : Y.World) : JointLabel Y.parties → Y.World → Prop where
  | tick (d : ℕ) : Step j (.tick d) { j with now := j.now + d }
  | outside {db : Db} (h : Y.outside j.now j.db db) : Step j .outside { j with db := db }
  | own {i : ι} {l : (Y.parties i).Label} {w : (Y.parties i).World} (hl : l.own)
      (hstep : (Y.parties i).net.Step (view j i) l w) (hguard : Y.guard j i l) :
      Step j (.own i l) (put j i w)

inductive Run (j₀ : Y.World) : Y.History → Y.World → Prop where
  | refl : Run j₀ [] j₀
  | snoc {ls : Y.History} {j j' : Y.World} {l : JointLabel Y.parties} (h : Run j₀ ls j)
      (hstep : Y.Step j l j') : Run j₀ (ls ++ [(j.now, l)]) j'

variable {Y}

/-- A party that takes all the steps itself runs in the composition as it does alone. -/
theorem Run.lift {j₀ j : Y.World} {ls : Y.History} {i : ι} {ps : (Y.parties i).History}
    {w : (Y.parties i).World} (hrun : Y.Run j₀ ls j) (hparty : (Y.parties i).net.Run (view j i) ps w)
    (hown : ∀ x ∈ ps, x.2.own)
    (hguard : ∀ x ∈ ps, ∀ v : (Y.parties i).World, v.now = j.now → Y.guard (put j i v) i x.2) :
    Y.Run j₀ (ls ++ ps.map fun x => (x.1, .own i x.2)) (put j i w) ∧ w.now = j.now := by
  induction hparty with
  | refl =>
      rw [put_view, List.map_nil, List.append_nil]
      exact ⟨hrun, rfl⟩
  | @snoc ps w w' l hparty hstep ih =>
      obtain ⟨hjoint, hnow⟩ := ih (fun x hx => hown x (List.mem_append_left _ hx))
        fun x hx => hguard x (List.mem_append_left _ hx)
      have hmem : (w.now, l) ∈ ps ++ [(w.now, l)] := by simp
      have hlast : Y.Step (put j i w) (.own i l) (put (put j i w) i w') :=
        .own (hown _ hmem) (by rwa [view_put_self]) (hguard _ hmem w hnow)
      rw [put_put] at hlast
      refine ⟨?_, (hstep.now_of_own (hown _ hmem)).trans hnow⟩
      rw [List.map_append, ← List.append_assoc]
      exact hjoint.snoc hlast

/-- A turn of a party in the composition, up to the return. -/
theorem Run.lift_turn {j₀ j : Y.World} {ls : Y.History} {i : ι} {ps : (Y.parties i).History}
    {w : (Y.parties i).World} {t : (Y.parties i).T}
    {Good : (o : (Y.parties i).L.Op) → (Y.parties i).L.Ans o → Prop} {y : (Y.parties i).α}
    (hrun : Y.Run j₀ ls j) (hparty : (Y.parties i).net.Run (view j i) ps w)
    (hturn : Network.Turn t Good y ps) (hquick : Network.Quick ps)
    (hguard : ∀ x ∈ ps, ∀ v : (Y.parties i).World, v.now = j.now → Y.guard (put j i v) i x.2) :
    ∃ pre τ, Y.Run j₀ (pre ++ [(τ, .own i (.finish t y))]) (put j i w) := by
  obtain ⟨hlift, -⟩ := hrun.lift hparty (hturn.own hquick) hguard
  obtain ⟨σ, τ, b, rfl, -⟩ := hturn
  rw [List.map_cons, List.map_append, ← List.cons_append, ← List.append_assoc] at hlift
  exact ⟨_, τ, hlift⟩

/-- A label as a party sees it. -/
def seen (i : ι) : ℕ × JointLabel Y.parties → ℕ × (Y.parties i).Label
  | (τ, .tick d) => (τ, .tick d)
  | (τ, .outside) => (τ, .environment)
  | (τ, .own k l) => if h : k = i then (τ, h ▸ l) else (τ, .environment)

theorem seen_self (i : ι) (τ : ℕ) (l : (Y.parties i).Label) :
    seen (Y := Y) i (τ, .own i l) = (τ, l) := by
  simp [seen]

theorem seen_of_ne {i k : ι} (h : k ≠ i) (τ : ℕ) (l : (Y.parties k).Label) :
    seen (Y := Y) i (τ, .own k l) = (τ, .environment) := by
  simp [seen, h]

/-- A party's own label is a step of that party. -/
theorem own_of_seen {i : ι} {x : ℕ × JointLabel Y.parties} {τ : ℕ} {l : (Y.parties i).Label}
    (h : seen i x = (τ, l)) (hl : l.own) : x = (τ, .own i l) := by
  obtain ⟨σ, y⟩ := x
  cases y with
  | tick d =>
      obtain ⟨-, rfl⟩ := Prod.mk.inj h
      exact hl.elim
  | outside =>
      obtain ⟨-, rfl⟩ := Prod.mk.inj h
      exact hl.elim
  | own k l' =>
      by_cases hk : k = i
      · subst hk
        rw [seen_self] at h
        rw [(Prod.mk.inj h).1, (Prod.mk.inj h).2]
      · rw [seen_of_ne hk] at h
        obtain ⟨-, rfl⟩ := Prod.mk.inj h
        exact hl.elim

/-- The part that a party plays in a run. -/
def part (i : ι) (ls : Y.History) : (Y.parties i).History := ls.map (seen i)

variable (Y) in
/-- Whatever a party does in a run of its own network, every other party has allowed for, and so
has every party for the outside. -/
structure Compatible (j₀ : Y.World) : Prop where
  outside : ∀ i now db db', Y.outside now db db' → (Y.parties i).net.environment now db db'
  parties : ∀ k i, i ≠ k → ∀ ls w l w', (Y.parties k).net.Run (view j₀ k) ls w →
    (Y.parties k).net.Step w l w' → l.own → (Y.parties i).net.environment w.now w.db w'.db

variable {j₀ j j' : Y.World} {ls ls' : Y.History}

/-- In a composition of compatible networks, every party runs its own network. -/
theorem Run.part (hcompatible : Y.Compatible j₀) (hrun : Y.Run j₀ ls j) (i : ι) :
    (Y.parties i).net.Run (view j₀ i) (Composition.part i ls) (view j i) := by
  induction hrun generalizing i with
  | refl => exact .refl
  | @snoc ls j j' l hrun hstep ih =>
      unfold Composition.part at ih ⊢
      rw [List.map_append, List.map_singleton]
      cases hstep with
      | tick d => exact (ih i).snoc (.tick d)
      | outside h => exact (ih i).snoc (.environment (hcompatible.outside i _ _ _ h))
      | @own k l w hl hstep hguard =>
          by_cases hk : i = k
          · subst hk
            rw [seen_self, view_put_self]
            exact (ih i).snoc hstep
          · have hallowed := hcompatible.parties k i hk _ _ _ _ (ih k) hstep hl
            rw [seen_of_ne (Ne.symm hk), view_put_of_ne j hk, hstep.now_of_own hl]
            exact (ih i).snoc (.environment hallowed)

theorem Run.step_of_append {τ : ℕ} {l : JointLabel Y.parties}
    (hrun : Y.Run j₀ (ls ++ (τ, l) :: ls') j) :
    ∃ u u', Y.Run j₀ ls u ∧ u.now = τ ∧ Y.Step u l u' := by
  generalize hall : ls ++ (τ, l) :: ls' = all at hrun
  induction hrun generalizing ls' with
  | refl => simp at hall
  | @snoc pre v v' x h hstep ih =>
      rcases List.eq_nil_or_concat ls' with rfl | ⟨ls'', y, rfl⟩
      · obtain ⟨rfl, hx⟩ := List.append_inj' hall rfl
        obtain ⟨rfl, rfl⟩ : τ = v.now ∧ l = x := by simpa using hx
        exact ⟨v, v', h, rfl, hstep⟩
      · rw [List.concat_eq_append, ← List.cons_append, ← List.append_assoc] at hall
        obtain ⟨hpre, -⟩ := List.append_inj' hall rfl
        exact ih hpre

theorem part_append {i : ι} :
    Composition.part i (ls ++ ls') = Composition.part i ls ++ Composition.part i ls' :=
  List.map_append

theorem part_own {i : ι} {τ : ℕ} {l : (Y.parties i).Label} :
    Composition.part i (ls ++ (τ, .own i l) :: ls') =
      Composition.part i ls ++ (τ, l) :: Composition.part i ls' := by
  rw [part_append]
  simp [Composition.part, seen_self]

/-- Where a party's part has a step of the party's own, the run has that step. -/
theorem own_of_part {i : ι} {pre post : (Y.parties i).History} {τ : ℕ} {l : (Y.parties i).Label}
    (hpart : Composition.part i ls = pre ++ (τ, l) :: post) (hl : l.own) :
    ∃ ls₁ ls₂, ls = ls₁ ++ (τ, .own i l) :: ls₂ ∧ Composition.part i ls₁ = pre ∧
      Composition.part i ls₂ = post := by
  obtain ⟨ls₁, rest, rfl, hpre, hrest⟩ := List.map_eq_append_iff.mp hpart
  obtain ⟨x, ls₂, rfl, hx, hpost⟩ := List.map_eq_cons_iff.mp hrest
  obtain rfl := own_of_seen hx hl
  exact ⟨ls₁, ls₂, rfl, hpre, hpost⟩

theorem Run.own_step {i : ι} {τ : ℕ} {l : (Y.parties i).Label}
    (hrun : Y.Run j₀ (ls ++ (τ, .own i l) :: ls') j) :
    ∃ u w, Y.Run j₀ ls u ∧ u.now = τ ∧ (Y.parties i).net.Step (view u i) l w ∧ Y.guard u i l := by
  obtain ⟨u, u', hu, hnow, hstep⟩ := hrun.step_of_append
  cases hstep with
  | own hl hstep hguard => exact ⟨u, _, hu, hnow, hstep, hguard⟩

/-- A step of a party in a stretch of its part, as a step of the composition. -/
theorem Run.own_within {i : ι} {a b : Y.History} {pre post : (Y.parties i).History} {τ : ℕ}
    {l : (Y.parties i).Label} (hrun : Y.Run j₀ (a ++ b) j)
    (hpart : Composition.part i b = pre ++ (τ, l) :: post) (hl : l.own) :
    ∃ b₁ b₂ u w, b = b₁ ++ (τ, .own i l) :: b₂ ∧ Composition.part i b₁ = pre ∧ Y.Run j₀ (a ++ b₁) u ∧
      u.now = τ ∧ (Y.parties i).net.Step (view u i) l w ∧ Y.guard u i l := by
  obtain ⟨b₁, b₂, rfl, hpre, -⟩ := own_of_part hpart hl
  rw [← List.append_assoc] at hrun
  obtain ⟨u, w, hu, hnow, hstep, hguard⟩ := hrun.own_step
  exact ⟨b₁, b₂, u, w, rfl, hpre, hu, hnow, hstep, hguard⟩

/-- Two steps of a party and the state before the second. -/
theorem Run.own_twice {i : ι} {pre post : Y.History} {a' b' d' : (Y.parties i).History} {σ τ : ℕ}
    {l₁ l₂ : (Y.parties i).Label} (hrun : Y.Run j₀ (pre ++ post) j)
    (hpart : Composition.part i pre = a' ++ (σ, l₁) :: (b' ++ (τ, l₂) :: d')) (h₁ : l₁.own)
    (h₂ : l₂.own) :
    ∃ a b d u, pre = a ++ (σ, .own i l₁) :: (b ++ (u.now, .own i l₂) :: d) ∧
      Composition.part i b = b' ∧ Composition.part i d = d' ∧
      Y.Run j₀ (a ++ [(σ, .own i l₁)] ++ b) u ∧ u.now = τ ∧ Y.guard u i l₂ := by
  obtain ⟨a, rest, rfl, rfl, hrest⟩ := own_of_part hpart h₁
  obtain ⟨b, d, rfl, rfl, rfl⟩ := own_of_part hrest h₂
  have hsplit : Y.Run j₀ ((a ++ [(σ, .own i l₁)] ++ b) ++ (τ, .own i l₂) :: (d ++ post)) j := by
    simpa using hrun
  obtain ⟨u, w, hu, hnow, -, hguard⟩ := hsplit.own_step
  exact ⟨a, b, d, u, by rw [hnow], rfl, rfl, hu, hnow, hguard⟩

end Composition

end

end Effects
