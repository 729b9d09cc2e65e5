import BreezeGateway.Effects.Tale
import BreezeGateway.Redis

/-!
# Leases on one key

A value that `SET NX PX` or a renewal has put under a key keeps everybody else out until it is
removed by its owner or its time is over.  The network is any one that executes Redis commands.
-/

namespace BreezeGateway

open Effects Effects.Network

theorem strings_hincrby {db : Db} {now : ℕ} {k field : String} {n : ℤ} :
    (db.exec now (.hincrby k field n)).1.strings = db.strings := by
  simp only [Db.exec]
  split
  · rfl
  · split <;> rfl

theorem setReply_inj {a b : Bool} (h : Db.setReply a = Db.setReply b) : a = b := by
  cases a <;> cases b <;> first | rfl | cases h

theorem transitionReply_inj {a b : Bool} (h : Db.transitionReply a = Db.transitionReply b) :
    a = b := by
  cases a <;> cases b <;> first | rfl | cases h

/-- A `SET` or a renewal that took effect: the value has the key for so many milliseconds. -/
inductive Grants (key : String) (value : Bytes) (px : ℕ) : Command → Reply → Prop where
  | set : Grants key value px (.set key value px) (Db.setReply true)
  | renew : Grants key value px (.renew key value px) (Db.transitionReply true)

def Removes (key : String) (value : Bytes) (c : Command) (r : Reply) : Prop :=
  c = .complete key value ∧ r = Db.transitionReply true

/-- The key carries the value up to the deadline, for as long as that is in the future. -/
def HeldUntil (key : String) (value : Bytes) (deadline now : ℕ) (db : Db) : Prop :=
  now < deadline → db.strings.Until key value deadline

section

variable {key : String} {value : Bytes} {px now now' deadline : ℕ} {db db' : Db} {c : Command}

theorem Grants.held (h : Grants key value px c (db.exec now c).2) :
    HeldUntil key value (now + millis px) now (db.exec now c).1 := by
  generalize hr : (db.exec now c).2 = r at h
  intro _
  cases h with
  | set =>
      have hput := (Store.putIfAbsent_true (setReply_inj hr)).2
      exact (Store.until_put _ _ _ _).of_eq (congrFun hput key)
  | renew =>
      have hput := (Store.extendIf_true (transitionReply_inj hr)).2
      exact (Store.until_put _ _ _ _).of_eq (congrFun hput key)

theorem HeldUntil.same (h : HeldUntil key value deadline now db) (hle : now ≤ now')
    (hkey : db'.strings key = db.strings key) : HeldUntil key value deadline now' db' := by
  intro hlt
  exact (h (hle.trans_lt hlt)).of_eq hkey

theorem HeldUntil.exec (h : HeldUntil key value deadline now db)
    (hremoves : ¬ Removes key value c (db.exec now c).2)
    (hgrants : ∀ px, ¬ Grants key value px c (db.exec now c).2) :
    HeldUntil key value deadline now (db.exec now c).1 := by
  intro hlt
  have huntil := h hlt
  cases c with
  | get k => exact huntil
  | hget k field => exact huntil
  | hincrby k field n => exact huntil.of_eq (congrFun strings_hincrby key)
  | set k value' px => exact huntil.putIfAbsent hlt
  | complete k value' =>
      refine huntil.removeIf hlt ?_
      rintro ⟨rfl, rfl⟩
      apply hremoves
      refine ⟨rfl, congrArg Db.transitionReply ?_⟩
      by_contra hfalse
      exact (Store.removeIf_false (eq_false_of_ne_true hfalse)).1 (huntil.read hlt)
  | renew k value' px =>
      refine huntil.extendIf hlt ?_
      rintro rfl rfl
      have hextended : (db.strings.extendIf now key value (now + millis px)).2 = true := by
        by_contra hfalse
        exact (Store.extendIf_false (eq_false_of_ne_true hfalse)).1 (huntil.read hlt)
      have hgrant : Grants key value px (.renew key value px) (Db.transitionReply true) := .renew
      rw [← hextended] at hgrant
      exact absurd hgrant (hgrants px)

theorem HeldUntil.le_of_set {value' : Bytes} (h : HeldUntil key value deadline now db)
    (hr : (db.exec now (.set key value' px)).2 = Db.setReply true) : deadline ≤ now := by
  by_contra hlt
  have hread := (h (Nat.not_le.mp hlt)).read (Nat.not_le.mp hlt)
  have hfree := (Store.putIfAbsent_true (setReply_inj hr)).1
  rw [hread] at hfree
  cases hfree

inductive KeyMove (key : String) (now now' : ℕ) (db db' : Db) : Option (Command × Reply) → Prop where
  | same (hle : now ≤ now') (hkey : db'.strings key = db.strings key) : KeyMove key now now' db db' none
  | exec {c : Command} (hnow : now' = now) (hdb : db' = (db.exec now c).1) :
      KeyMove key now now' db db' (some (c, (db.exec now c).2))

theorem KeyMove.held {e : Option (Command × Reply)} (h : HeldUntil key value deadline now db)
    (hmove : KeyMove key now now' db db' e)
    (hremoves : ∀ c r, e = some (c, r) → ¬ Removes key value c r)
    (hgrants : ∀ c r, e = some (c, r) → ∀ px, ¬ Grants key value px c r) :
    HeldUntil key value deadline now' db' := by
  cases hmove with
  | same hle hkey => exact h.same hle hkey
  | exec hnow hdb =>
      rw [hnow, hdb]
      exact h.exec (hremoves _ _ rfl) (hgrants _ _ rfl)

end

/-! ## Networks -/

section

variable {L : Sig} {Mem T Lane Kind α : Type}

/-- The command that Redis executes in a step, with its reply. -/
def executed : Label Command Reply L T Kind α → Option (Command × Reply)
  | .exec _ c r => some (c, r)
  | .stray _ c r => some (c, r)
  | _ => none

variable [DecidableEq T] [DecidableEq Lane] {N : Network Command Reply L Db Mem T Lane Kind α}
  {w₀ w w' : World Command Reply L Db Mem T Lane α} {l : Label Command Reply L T Kind α}
  {ls : History Command Reply L T Kind α} {key : String} {value : Bytes} {px deadline : ℕ}

theorem KeyMove.of_step (hexec : N.exec = Db.exec)
    (henvironment : ∀ now db db', N.environment now db db' → db'.strings key = db.strings key)
    (hstep : N.Step w l w') : KeyMove key w.now w'.now w.db w'.db (executed l) := by
  have hle := hstep.now_le
  cases hstep with
  | environment h => exact .same hle (henvironment _ _ _ h)
  | exec hth hlane =>
      simp only [executed, hexec]
      exact .exec rfl rfl
  | stray hlane =>
      simp only [executed, hexec]
      exact .exec rfl rfl
  | fail hth hwire h =>
      refine .same hle ?_
      rw [World.abandon_db]
      rfl
  | cancel hth ho =>
      refine .same hle ?_
      rw [World.abandonOp_db]
      rfl
  | _ => exact .same hle rfl

theorem exec_of_executed {c : Command} {r : Reply} (hexec : N.exec = Db.exec) (hstep : N.Step w l w')
    (hl : executed l = some (c, r)) :
    w'.now = w.now ∧ w'.db = (w.db.exec w.now c).1 ∧ r = (w.db.exec w.now c).2 := by
  cases hstep with
  | exec hth hlane =>
      obtain ⟨rfl, rfl⟩ := Prod.mk.inj (Option.some.inj hl)
      rw [hexec]
      exact ⟨rfl, rfl, rfl⟩
  | stray hlane =>
      obtain ⟨rfl, rfl⟩ := Prod.mk.inj (Option.some.inj hl)
      rw [hexec]
      exact ⟨rfl, rfl, rfl⟩
  | _ => cases hl

/-- Between a grant and the next `SET` under the key that takes effect lies the removal of the
value, another grant to it, or the time that was granted. -/
theorem grant_excludes {a b d : History Command Reply L T Kind α} {τ₁ τ₂ px' : ℕ}
    {l₁ l₂ : Label Command Reply L T Kind α} {c₁ : Command} {r₁ : Reply} {value' : Bytes}
    (hexec : N.exec = Db.exec)
    (henvironment : ∀ now db db', N.environment now db db' → db'.strings key = db.strings key)
    (hrun : N.Run w₀ (a ++ (τ₁, l₁) :: (b ++ (τ₂, l₂) :: d)) w)
    (h₁ : executed l₁ = some (c₁, r₁)) (hgrant : Grants key value px c₁ r₁)
    (h₂ : executed l₂ = some (.set key value' px', Db.setReply true))
    (hremoves : ∀ x ∈ b, ∀ c r, executed x.2 = some (c, r) → ¬ Removes key value c r)
    (hgrants : ∀ x ∈ b, ∀ c r, executed x.2 = some (c, r) → ∀ px, ¬ Grants key value px c r) :
    τ₁ + millis px ≤ τ₂ := by
  obtain ⟨v₀, v₁, -, rfl, hfirst, hrest⟩ := hrun.step_of_append
  obtain ⟨v₂, v₃, hmid, rfl, hsecond, -⟩ := hrest.step_of_append
  have hheld : HeldUntil key value (v₀.now + millis px) v₂.now v₂.db := by
    clear hrun hrest hsecond
    induction hmid with
    | refl =>
        obtain ⟨hnow, hdb, rfl⟩ := exec_of_executed hexec hfirst h₁
        rw [hnow, hdb]
        exact hgrant.held
    | @snoc b v v' l hmid hstep ih =>
        have hstands := ih (fun x hx => hremoves x (List.mem_append_left _ hx))
          fun x hx => hgrants x (List.mem_append_left _ hx)
        have hlast : (v.now, l) ∈ b ++ [(v.now, l)] := by simp
        exact (KeyMove.of_step hexec henvironment hstep).held hstands (hremoves _ hlast)
          (hgrants _ hlast)
  obtain ⟨-, -, hr⟩ := exec_of_executed hexec hsecond h₂
  exact hheld.le_of_set hr.symm

/-! ## Commands that programs may send -/

def noTale (L : Sig) : Tale (clientSig Command Reply L) Unit := ⟨(), fun _ _ _ => ()⟩

def sendsOnly (L : Sig) (allowed : Command → Prop) :
    Unit → (clientSig Command Reply L).Op → Prop
  | _, .inl c => allowed c
  | _, .inr _ => True

variable {allowed : T → Command → Prop}

theorem obeys_sendsOnly
    (hlaunch : ∀ now mem t p mem', N.launch now mem t p mem' →
      p.Meets ((noTale L).contract (sendsOnly L (allowed t))) () fun _ _ => True)
    (hidle : ∀ t, w₀.threads t = none) (hrun : N.Run w₀ ls w) {t : T} {c : Command}
    {k : Reply → Prog (clientSig Command Reply L) α} {wire : Wire Reply}
    (hth : w.threads t = some ⟨.op (.inl c) k, wire⟩) : allowed t c :=
  ((noTale L).obeys (fun t => sendsOnly L (allowed t)) (fun _ _ _ => True) hlaunch hidle hrun hth).1

theorem strays_sendsOnly
    (hlaunch : ∀ now mem t p mem', N.launch now mem t p mem' →
      p.Meets ((noTale L).contract (sendsOnly L (allowed t))) () fun _ _ => True)
    (hidle : ∀ t, w₀.threads t = none) (hempty : ∀ lane, w₀.strays lane = [])
    (hrun : N.Run w₀ ls w) {lane : Lane} {x : T × Command} (hx : x ∈ w.strays lane) :
    allowed x.1 x.2 :=
  hrun.strays_of_threads hempty (fun hrun hth => obeys_sendsOnly hlaunch hidle hrun hth) hx

theorem executed_sendsOnly
    (hlaunch : ∀ now mem t p mem', N.launch now mem t p mem' →
      p.Meets ((noTale L).contract (sendsOnly L (allowed t))) () fun _ _ => True)
    (hidle : ∀ t, w₀.threads t = none) (hempty : ∀ lane, w₀.strays lane = [])
    (hrun : N.Run w₀ ls w) {x : ℕ × Label Command Reply L T Kind α} (hx : x ∈ ls) {c : Command}
    {r : Reply} (hexecuted : executed x.2 = some (c, r)) : ∃ t, allowed t c := by
  induction hrun with
  | refl => cases hx
  | @snoc ls w w' l hrun hstep ih =>
      rcases List.mem_append.mp hx with hx | hx
      · exact ih hx
      · obtain rfl := List.mem_singleton.mp hx
        cases hstep with
        | @exec t c' k hth hlane =>
            obtain ⟨rfl, -⟩ := Prod.mk.inj (Option.some.inj hexecuted)
            exact ⟨t, obeys_sendsOnly hlaunch hidle hrun hth⟩
        | @stray lane t c' cs hlane =>
            obtain ⟨rfl, -⟩ := Prod.mk.inj (Option.some.inj hexecuted)
            have hmem : (t, c') ∈ w.strays lane := by
              rw [hlane]
              exact List.mem_cons_self
            exact ⟨t, strays_sendsOnly hlaunch hidle hempty hrun hmem⟩
        | _ => cases hexecuted

end

end BreezeGateway
