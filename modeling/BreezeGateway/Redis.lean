import BreezeGateway.Admission
import BreezeGateway.Effects.ExpiringStore

/-!
# The Redis commands of the gateway

Times are nanoseconds of one common clock.  A script runs as one command: `COMPLETE` is
compare-and-delete, `RENEW` is compare-and-`PEXPIRE`.  A TTL is a positive number of
milliseconds, which every caller validates.
-/

namespace BreezeGateway

open Effects

def millis (n : ℕ) : ℕ := n * 1000000

def seconds (n : ℕ) : ℕ := n * 1000000000

/-- `brz_redis::Value`; `other` stands for the variants no caller tells apart. -/
inductive Value where
  | nil
  | int (n : ℤ)
  | bulkString (bytes : Bytes)
  | simpleString (s : String)
  | okay
  | other
deriving DecidableEq

inductive Command where
  | get (key : String)
  /-- `SET key value NX PX px`. -/
  | set (key : String) (value : Bytes) (px : ℕ)
  /-- `EVAL` of `COMPLETE`. -/
  | complete (key : String) (token : Bytes)
  /-- `EVAL` of `RENEW`. -/
  | renew (key : String) (token : Bytes) (px : ℕ)
  | hget (key field : String)
  | hincrby (key field : String) (n : ℤ)
deriving DecidableEq

/-- The answer of the client: a value, or the text of its error. -/
abbrev Reply := Except String Value

/-- A hash field: an integer, kept as its decimal text, or any other text. -/
inductive Field where
  | int (n : ℤ)
  | text (bytes : Bytes)
deriving DecidableEq

def intText : ℤ → Bytes
  | .ofNat n => decimal n
  | .negSucc n => 45 :: decimal (n + 1)

structure Db where
  strings : Store String Bytes
  hashes : String → String → Option Field

namespace Db

def setField (db : Db) (key field : String) (value : Field) : Db :=
  { db with hashes := Function.update db.hashes key (Function.update (db.hashes key) field value) }

def readReply : Option Bytes → Reply
  | some value => .ok (.bulkString value)
  | none => .ok .nil

def fieldReply : Option Field → Reply
  | some (.int n) => .ok (.bulkString (intText n))
  | some (.text bytes) => .ok (.bulkString bytes)
  | none => .ok .nil

def setReply (put : Bool) : Reply := .ok (if put then .okay else .nil)

def transitionReply (done : Bool) : Reply := .ok (.int (if done then 1 else 0))

/-- The integer a field counts from: a missing field counts from zero. -/
def counter : Option Field → Option ℤ
  | some (.int n) => some n
  | some (.text _) => none
  | none => some 0

def exec (now : ℕ) (db : Db) : Command → Db × Reply
  | .get key => (db, readReply (db.strings.read now key))
  | .set key value px =>
      let r := db.strings.putIfAbsent now key value (now + millis px)
      ({ db with strings := r.1 }, setReply r.2)
  | .complete key token =>
      let r := db.strings.removeIf now key token
      ({ db with strings := r.1 }, transitionReply r.2)
  | .renew key token px =>
      let r := db.strings.extendIf now key token (now + millis px)
      ({ db with strings := r.1 }, transitionReply r.2)
  | .hget key field => (db, fieldReply (db.hashes key field))
  | .hincrby key field n =>
      match counter (db.hashes key field) with
      | none => (db, .error "ERR hash value is not an integer")
      | some old =>
          if old + n ≤ 2 ^ 63 - 1 then
            (db.setField key field (.int (old + n)), .ok (.int (old + n)))
          else (db, .error "ERR increment or decrement would overflow")

end Db

/-- The client may present Redis' `+OK` as either variant. -/
def Conveys (_ : Command) (r r' : Reply) : Prop :=
  r' = r ∨ (r = .ok .okay ∧ r' = .ok (.simpleString "OK"))

/-- Replies that are no answer Redis documents for the command: client and server errors and
values of a wrong shape. -/
def Malformed : Command → Reply → Prop
  | _, .error _ => True
  | .get _, .ok v => v ≠ .nil ∧ ∀ bytes, v ≠ .bulkString bytes
  | .set .., .ok v => v ≠ .okay ∧ v ≠ .simpleString "OK" ∧ v ≠ .nil
  | .complete .., .ok v => v ≠ .int 0 ∧ v ≠ .int 1
  | .renew .., .ok v => v ≠ .int 0 ∧ v ≠ .int 1
  | .hget .., .ok v => v ≠ .nil ∧ ∀ bytes, v ≠ .bulkString bytes
  | .hincrby .., .ok v => ∀ n, v ≠ .int n

end BreezeGateway
