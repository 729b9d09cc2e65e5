import BreezeGateway.Text

/-!
# Header names, values and maps

`http::HeaderMap` keeps the values of one name in order; nothing in the gateway depends on the
order of different names, so a map is the function from a name to its values.
-/

namespace BreezeGateway

/-- `u8::to_ascii_lowercase`. -/
def lowerByte (b : UInt8) : UInt8 := if 65 ≤ b && b ≤ 90 then b + 32 else b

/-- The bytes of a normalised header name: token characters without upper-case letters. -/
def isNameByte (b : UInt8) : Bool :=
  (97 ≤ b && b ≤ 122) || isAsciiDigit b ||
    [33, 35, 36, 37, 38, 39, 42, 43, 45, 46, 94, 95, 96, 124, 126].contains b

def isHeaderName (bytes : Bytes) : Bool :=
  !bytes.isEmpty && bytes.length ≤ 65535 && bytes.all isNameByte

structure HeaderName where
  bytes : Bytes
  valid : isHeaderName bytes = true
deriving DecidableEq

namespace HeaderName

/-- `HeaderName::from_bytes`, which lower-cases its input. -/
def fromBytes (bytes : Bytes) : Option HeaderName :=
  if h : isHeaderName (bytes.map lowerByte) = true then some ⟨bytes.map lowerByte, h⟩ else none

def fromStatic (name : String) (h : isHeaderName (utf8 name) = true := by decide) : HeaderName :=
  ⟨utf8 name, h⟩

end HeaderName

/-- The bytes a header value may contain. -/
def isValueByte (b : UInt8) : Bool := (32 ≤ b && b != 127) || b == 9

/-- `is_visible_ascii`, the bytes that `HeaderValue::to_str` accepts. -/
def isVisibleAscii (b : UInt8) : Bool := (32 ≤ b && b < 127) || b == 9

structure HeaderValue where
  bytes : Bytes
  valid : bytes.all isValueByte = true
deriving DecidableEq

namespace HeaderValue

def fromBytes (bytes : Bytes) : Option HeaderValue :=
  if h : bytes.all isValueByte = true then some ⟨bytes, h⟩ else none

def fromStr (s : String) : Option HeaderValue := fromBytes (utf8 s)

def fromStatic (s : String) (h : (utf8 s).all isValueByte = true := by decide) : HeaderValue :=
  ⟨utf8 s, h⟩

def toStr (v : HeaderValue) : Option String :=
  if v.bytes.all isVisibleAscii then some (String.ofList (v.bytes.map fun b => Char.ofNat b.toNat))
  else none

end HeaderValue

@[ext] structure HeaderMap where
  values : HeaderName → List HeaderValue

namespace HeaderMap

def empty : HeaderMap := ⟨fun _ => []⟩

instance : Inhabited HeaderMap := ⟨empty⟩

def getAll (h : HeaderMap) (name : HeaderName) : List HeaderValue := h.values name

def get (h : HeaderMap) (name : HeaderName) : Option HeaderValue := (h.values name).head?

def containsKey (h : HeaderMap) (name : HeaderName) : Bool := !(h.values name).isEmpty

def insert (h : HeaderMap) (name : HeaderName) (value : HeaderValue) : HeaderMap :=
  ⟨Function.update h.values name [value]⟩

def append (h : HeaderMap) (name : HeaderName) (value : HeaderValue) : HeaderMap :=
  ⟨Function.update h.values name (h.values name ++ [value])⟩

def remove (h : HeaderMap) (name : HeaderName) : HeaderMap := ⟨Function.update h.values name []⟩

/-- `headers.entry(name).or_insert(value)`. -/
def entryOrInsert (h : HeaderMap) (name : HeaderName) (value : HeaderValue) : HeaderMap :=
  if h.containsKey name then h else h.insert name value

variable (h : HeaderMap) (n m : HeaderName) (v : HeaderValue)

@[simp] theorem values_insert_self : (h.insert n v).values n = [v] := by simp [insert]

@[simp] theorem values_remove_self : (h.remove n).values n = [] := by simp [remove]

theorem values_insert_of_ne {n m : HeaderName} (hne : m ≠ n) :
    (h.insert n v).values m = h.values m := by simp [insert, hne]

theorem values_remove_of_ne {n m : HeaderName} (hne : m ≠ n) :
    (h.remove n).values m = h.values m := by simp [remove, hne]

theorem values_remove : (h.remove n).values m = if m = n then [] else h.values m := by
  by_cases hm : m = n <;> simp [remove, hm]

theorem values_entryOrInsert_self :
    (h.entryOrInsert n v).values n = if h.values n = [] then [v] else h.values n := by
  by_cases hn : h.values n = []
  · simp [entryOrInsert, containsKey, hn]
  · simp [entryOrInsert, containsKey, hn]

theorem values_entryOrInsert_of_ne {n m : HeaderName} (hne : m ≠ n) :
    (h.entryOrInsert n v).values m = h.values m := by
  unfold entryOrInsert
  split
  · rfl
  · exact values_insert_of_ne h v hne

theorem values_foldl_remove (keep : HeaderName → Bool) (names : List HeaderName) :
    (names.foldl (fun h name => if keep name then h.remove name else h) h).values n =
      if n ∈ names ∧ keep n = true then [] else h.values n := by
  induction names generalizing h with
  | nil => simp
  | cons name names ih =>
      rw [List.foldl_cons, ih]
      by_cases hkeep : keep name = true
      · rw [if_pos hkeep, values_remove]
        by_cases hn : n = name
        · subst hn
          simp [hkeep]
        · simp [hn]
      · rw [if_neg hkeep]
        by_cases hn : n = name
        · subst hn
          simp [hkeep]
        · simp [hn]

@[simp] theorem remove_remove : (h.remove n).remove n = h.remove n := by
  simp [remove]

end HeaderMap

end BreezeGateway
