import BreezeGateway.Effects.Solo
import BreezeGateway.RedisAdmission.SlotLock

/-!
# Commands of a thread that nobody disturbs

Redis answers such a thread's commands one after the other, on what the thread's own commands
have left.
-/

namespace BreezeGateway

open Effects Effects.Network

section

variable {L : Sig} {Mem T Lane Kind α : Type} {N : Network Command Reply L Db Mem T Lane Kind α}
  {t : T} {Good : (o : L.Op) → L.Ans o → Prop} {n : ℕ} {db : Db} {mem : Mem}

theorem solo_command {c : Command} {Q : Moment Db Mem → Except AdmissionError Value → Prop}
    (hexec : N.exec = Db.exec) (hconveys : N.conveys = Conveys)
    (hreply : ∀ now, ∃ v, (db.exec now c).2 = .ok v)
    (h : ∀ now n' v, n ≤ now → now ≤ n' → Conveys c (db.exec now c).2 (.ok v) →
      Q ⟨n', (db.exec now c).1, mem⟩ (.ok v)) :
    (Task.command c : Task L Value).run.Meets (solo N t Good) ⟨n, db, mem⟩ Q := by
  refine meets_command trivial ?_ ?_
  · rintro v ⟨n', db', mem'⟩ ⟨now, hle, hle', hdb, hconvey, hmem⟩
    obtain rfl : db' = (N.exec now db c).1 := hdb
    obtain rfl : mem' = mem := hmem
    rw [hconveys, hexec] at hconvey
    rw [hexec]
    exact h now n' v hle hle' hconvey
  · rintro e m' ⟨now, hle, hle', -, hconvey, -⟩
    rw [hconveys, hexec] at hconvey
    obtain ⟨v, hv⟩ := hreply now
    rcases hconvey with hsame | ⟨-, hok⟩
    · rw [hv] at hsame
      cases hsame
    · cases hok

/-- The client gets the reply itself, unless that is `+OK`. -/
theorem solo_exec {c : Command} {Q : Moment Db Mem → Except AdmissionError Value → Prop}
    (hexec : N.exec = Db.exec) (hconveys : N.conveys = Conveys)
    (hreply : ∀ now, (db.exec now c).2 ≠ .ok .okay)
    (h : ∀ now n', n ≤ now → now ≤ n' →
      Q ⟨n', (db.exec now c).1, mem⟩ ((db.exec now c).2.mapError .backend)) :
    (Task.command c : Task L Value).run.Meets (solo N t Good) ⟨n, db, mem⟩ Q := by
  have hsame : ∀ now r, N.conveys c (N.exec now db c).2 r → r = (db.exec now c).2 := by
    rintro now r hconvey
    rw [hconveys, hexec] at hconvey
    rcases hconvey with rfl | ⟨hokay, -⟩
    · rfl
    · exact absurd hokay (hreply now)
  refine meets_command trivial ?_ ?_
  · rintro v ⟨n', db', mem'⟩ ⟨now, hle, hle', hdb, hconvey, hmem⟩
    obtain rfl : db' = (N.exec now db c).1 := hdb
    obtain rfl : mem' = mem := hmem
    have hnow := h now n' hle hle'
    rw [← hsame now _ hconvey] at hnow
    rw [hexec]
    exact hnow
  · rintro e ⟨n', db', mem'⟩ ⟨now, hle, hle', hdb, hconvey, hmem⟩
    obtain rfl : db' = (N.exec now db c).1 := hdb
    obtain rfl : mem' = mem := hmem
    have hnow := h now n' hle hle'
    rw [← hsame now _ hconvey] at hnow
    rw [hexec]
    exact hnow

/-- A `GET` reads the key at some time from now on. -/
theorem solo_get {key : String} {Q : Moment Db Mem → Except AdmissionError Value → Prop}
    (hexec : N.exec = Db.exec) (hconveys : N.conveys = Conveys)
    (h : ∀ now n', n ≤ now → now ≤ n' →
      Q ⟨n', db, mem⟩ (.ok ((db.strings.read now key).elim .nil .bulkString))) :
    (Task.command (.get key) : Task L Value).run.Meets (solo N t Good) ⟨n, db, mem⟩ Q := by
  refine solo_exec hexec hconveys ?_ ?_
  · intro now
    simp only [Db.exec]
    cases db.strings.read now key <;> simp [Db.readReply]
  · intro now n' hle hle'
    have hnow := h now n' hle hle'
    simp only [Db.exec]
    cases hread : db.strings.read now key with
    | none =>
        rw [hread] at hnow
        exact hnow
    | some bytes =>
        rw [hread] at hnow
        exact hnow

theorem solo_reserve {key token : String} {px : ℕ}
    {Q : Moment Db Mem → Except AdmissionError Bool → Prop}
    (hexec : N.exec = Db.exec) (hconveys : N.conveys = Conveys)
    (h : ∀ now n', n ≤ now → now ≤ n' →
      Q ⟨n', (db.exec now (.set key (utf8 token) px)).1, mem⟩
        (.ok (db.strings.putIfAbsent now key (utf8 token) (now + millis px)).2)) :
    (reserve key token px : Task L Bool).run.Meets (solo N t Good) ⟨n, db, mem⟩ Q := by
  unfold reserve
  rw [meets_bind_ok]
  refine solo_command hexec hconveys (fun now => ⟨_, rfl⟩) ?_
  intro now n' v hle hle' hconvey
  have hnow := h now n' hle hle'
  change Conveys _ (Db.setReply (db.strings.putIfAbsent now key (utf8 token) (now + millis px)).2) _
    at hconvey
  cases hput : (db.strings.putIfAbsent now key (utf8 token) (now + millis px)).2 with
  | true =>
      rw [hput] at hconvey hnow
      rcases hconvey with hsame | ⟨-, hok⟩
      · obtain rfl := Except.ok.inj hsame
        exact hnow
      · obtain rfl := Except.ok.inj hok
        exact hnow
  | false =>
      rw [hput] at hconvey hnow
      rcases hconvey with hsame | ⟨hokay, -⟩
      · obtain rfl := Except.ok.inj hsame
        exact hnow
      · cases hokay

theorem solo_transition {c : Command} {unexpected : String} {answer : ℕ → Bool}
    {Q : Moment Db Mem → Except AdmissionError Bool → Prop}
    (hexec : N.exec = Db.exec) (hconveys : N.conveys = Conveys)
    (hanswer : ∀ now, (db.exec now c).2 = Db.transitionReply (answer now))
    (h : ∀ now n', n ≤ now → now ≤ n' → Q ⟨n', (db.exec now c).1, mem⟩ (.ok (answer now))) :
    (transition c unexpected : Task L Bool).run.Meets (solo N t Good) ⟨n, db, mem⟩ Q := by
  unfold transition
  rw [meets_bind_ok]
  refine solo_command hexec hconveys (fun now => ⟨_, hanswer now⟩) ?_
  intro now n' v hle hle' hconvey
  have hnow := h now n' hle hle'
  rw [hanswer] at hconvey
  cases hans : answer now with
  | true =>
      rw [hans] at hconvey hnow
      rcases hconvey with hsame | ⟨hokay, -⟩
      · obtain rfl := Except.ok.inj hsame
        exact hnow
      · cases hokay
  | false =>
      rw [hans] at hconvey hnow
      rcases hconvey with hsame | ⟨hokay, -⟩
      · obtain rfl := Except.ok.inj hsame
        exact hnow
      · cases hokay

end

end BreezeGateway
