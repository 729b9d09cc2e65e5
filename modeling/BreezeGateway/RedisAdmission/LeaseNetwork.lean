import BreezeGateway.RedisAdmission.LeaseFacts

/-!
# Any number of gateways and one Redis

Every gateway runs `iterate` again and again.  A timeout drops the `refresh` in progress and
clears `valid_until`; dropping the last provider clone aborts the task for good.
-/

namespace BreezeGateway

open Effects Effects.Network Lease

inductive LeaseEnd where
  | timeout
  | abort

def leaseAct (now : ℕ) (m : LeaseState) : (l : LeaseOp) → leaseSig.Ans l → LeaseState → Prop
  | .now, t, m' => t = now ∧ m' = m
  | .random, _, m' => m' = m
  | .setValidUntil d, _, m' => m' = { m with validUntil := d }
  | .ownedSlot, slot, m' => slot = m.ownedSlot ∧ m' = m
  | .setOwnedSlot slot, _, m' => m' = { m with ownedSlot := slot }

def leaseCancel (m : LeaseState) : LeaseEnd → LeaseState
  | .timeout => { m with validUntil := none }
  | .abort => { m with dropped := true }

section

variable {G : Type} [DecidableEq G]

/-- `others` are the writes of everybody else, `max-gateways` included. -/
def leaseNetwork (keyPrefix : String) (gateways : G → GatewayTask) (others : ℕ → Db → Db → Prop) :
    Network Command Reply leaseSig Db (G → LeaseState) G G LeaseEnd Unit where
  exec := Db.exec
  conveys := Conveys
  garbled c r := isGet c = true ∨ Malformed c r
  lane := id
  environment := others
  launch _ mem t p mem' :=
    (mem t).dropped = false ∧ mem' = mem ∧
      p = iterate keyPrefix (gateways t).token (gateways t).config
  act now t mem l x mem' := ∃ m', leaseAct now (mem t) l x m' ∧ mem' = Function.update mem t m'
  suspends _ := False
  finish _ _ _ mem := mem
  cancel kind _ t mem := Function.update mem t (leaseCancel (mem t) kind)

abbrev LeaseWorld (G : Type) := World Command Reply leaseSig Db (G → LeaseState) G G Unit

abbrev LeaseHistory (G : Type) := History Command Reply leaseSig G LeaseEnd Unit

/-! ## Reading a history -/

def slotKeyOf : Command → Option String
  | .set key _ _ => some key
  | .complete key _ => some key
  | .renew key _ _ => some key
  | _ => none

def unsettledAfter (t : G) (u : Option String) :
    ℕ × Label Command Reply leaseSig G LeaseEnd Unit → Option String
  | (_, .send s c) => if s = t then (slotKeyOf c).or u else u
  | (_, .deliver s c r) =>
      if s = t then
        match verdict c r with
        | .rejected => none
        | _ => u
      else u
  | _ => u

/-- The key of the last slot command of `t`, unless its reply said that the key does not carry
the token. -/
def unsettled (t : G) (ls : LeaseHistory G) : Option String :=
  ls.foldl (unsettledAfter t) none

def limitSeen : ℕ × Label Command Reply leaseSig G LeaseEnd Unit → ℕ
  | (_, .deliver _ c r) => limitIn c r
  | (_, .fail _ c r) => limitIn c r
  | _ => 0

def largestLimit (ls : LeaseHistory G) : ℕ :=
  ls.foldl (fun m x => max m (limitSeen x)) 0

theorem unsettled_snoc (t : G) (ls : LeaseHistory G)
    (x : ℕ × Label Command Reply leaseSig G LeaseEnd Unit) :
    unsettled t (ls ++ [x]) = unsettledAfter t (unsettled t ls) x := by
  simp [unsettled]

omit [DecidableEq G] in
theorem largestLimit_snoc (ls : LeaseHistory G)
    (x : ℕ × Label Command Reply leaseSig G LeaseEnd Unit) :
    largestLimit (ls ++ [x]) = max (largestLimit ls) (limitSeen x) := by
  simp [largestLimit]

/-! ## The invariant of one gateway -/

structure Recorded (keyPrefix : String) (t : G) (ls : LeaseHistory G)
    (phase : Phase Command Reply) (v : View) : Prop where
  limit : v.limit ≤ largestLimit ls
  below : ∀ slot, v.owned = some slot → slot < v.limit
  key : ∀ key, unsettled t ls = some key →
    ∃ slot, v.owned = some slot ∧ key = slotKey keyPrefix slot
  settled : v.grip = .clear → (∀ c, phase.command = some c → isGet c = true) →
    unsettled t ls = none

structure Tracked (keyPrefix : String) (gateways : G → GatewayTask) (Strict : Prop)
    (ls : LeaseHistory G) (w : LeaseWorld G) (t : G) (v : View) : Prop where
  good : Good keyPrefix (gateways t) Strict w.now w.db.strings (w.mem t)
    ((w.strays t).map Prod.snd) (Phase.of (w.threads t)) v
  record : Recorded keyPrefix t ls (Phase.of (w.threads t)) v

variable {keyPrefix : String} {gateways : G → GatewayTask} {Strict : Prop} {ls : LeaseHistory G}
  {w w' : LeaseWorld G} {t : G} {v : View}
  {x : ℕ × Label Command Reply leaseSig G LeaseEnd Unit}

theorem Tracked.intro {m : LeaseState} {strays : List Command} {phase : Phase Command Reply}
    {th : Option (Thread Command Reply leaseSig Unit)}
    (hgood : Good keyPrefix (gateways t) Strict w.now w.db.strings m strays phase v)
    (hrec : Recorded keyPrefix t ls phase v) (hmem : w.mem t = m)
    (hstrays : (w.strays t).map Prod.snd = strays) (hth : w.threads t = th)
    (hphase : Phase.of th = phase) : Tracked keyPrefix gateways Strict ls w t v := by
  subst hmem hstrays hphase hth
  exact ⟨hgood, hrec⟩

theorem Recorded.other {phase : Phase Command Reply} (h : Recorded keyPrefix t ls phase v)
    (hx : unsettledAfter t (unsettled t ls) x = unsettled t ls) :
    Recorded keyPrefix t (ls ++ [x]) phase v where
  limit := h.limit.trans (by simp [largestLimit_snoc])
  below := h.below
  key key hkey := h.key key (by rwa [unsettled_snoc, hx] at hkey)
  settled hgrip hphase := by
    rw [unsettled_snoc, hx]
    exact h.settled hgrip hphase

theorem Tracked.other (h : Tracked keyPrefix gateways Strict ls w t v)
    (hx : unsettledAfter t (unsettled t ls) x = unsettled t ls)
    (hu : Undisturbed keyPrefix (gateways t) Strict w.now w'.now w.db.strings w'.db.strings)
    (hmem : w'.mem t = w.mem t) (hstrays : w'.strays t = w.strays t)
    (hthreads : w'.threads t = w.threads t) :
    Tracked keyPrefix gateways Strict (ls ++ [x]) w' t v := by
  refine ⟨?_, ?_⟩
  · rw [hmem, hstrays, hthreads]
    exact h.good.undisturbed hu
  · rw [hthreads]
    exact h.record.other hx

theorem tracked_update {g : G → View} (ht : Tracked keyPrefix gateways Strict ls w t v)
    (hs : ∀ s, s ≠ t → Tracked keyPrefix gateways Strict ls w s (g s)) (s : G) :
    Tracked keyPrefix gateways Strict ls w s (Function.update g t v s) := by
  by_cases hst : s = t
  · subst hst
    rwa [Function.update_self]
  · rw [Function.update_of_ne hst]
    exact hs s hst

end

end BreezeGateway
