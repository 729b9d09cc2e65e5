import Mathlib.Tactic

/-!
# Bytes and strings

The parts of Rust's `str`, `[u8]` and integer formatting that the gateway uses.
-/

namespace BreezeGateway

abbrev Bytes := List UInt8

/-- `str::as_bytes`. -/
def utf8 (s : String) : Bytes := s.toList.flatMap String.utf8EncodeChar

def fromUtf8 (bytes : Bytes) : Option String := String.fromUTF8? bytes.toByteArray

theorem utf8_injective {s t : String} (h : utf8 s = utf8 t) : s = t := by
  apply String.toByteArray_inj.mp
  rw [← String.utf8Encode_toList, ← String.utf8Encode_toList]
  exact congrArg List.toByteArray h

@[simp] theorem utf8_inj {s t : String} : utf8 s = utf8 t ↔ s = t :=
  ⟨utf8_injective, congrArg utf8⟩

@[simp] theorem fromUtf8_utf8 (s : String) : fromUtf8 (utf8 s) = some s := by
  have hbytes : (utf8 s).toByteArray = s.toByteArray := String.utf8Encode_toList
  unfold fromUtf8 String.fromUTF8?
  rw [hbytes, dif_pos s.isValidUTF8]
  rfl

def isAsciiDigit (b : UInt8) : Bool := 48 ≤ b && b ≤ 57

def decimal (n : ℕ) : Bytes := (Nat.toDigits 10 n).map fun c => c.toNat.toUInt8

def digitsValue (bytes : Bytes) : ℕ :=
  Nat.ofDigitChars 10 (bytes.map fun b => Char.ofNat b.toNat) 0

/-- The guard `!bytes.is_empty() && bytes.iter().all(u8::is_ascii_digit)` followed by
`from_utf8(..).ok().and_then(|text| text.parse().ok())` for an integer type with the given
largest value. -/
def parseDigits (largest : ℕ) (bytes : Bytes) : Option ℕ :=
  if bytes ≠ [] ∧ bytes.all isAsciiDigit ∧ digitsValue bytes ≤ largest then
    some (digitsValue bytes)
  else none

def u64Max : ℕ := 2 ^ 64 - 1

def i64Max : ℕ := 2 ^ 63 - 1

/-- `usize` on the 64-bit targets the gateway is built for. -/
def usizeMax : ℕ := 2 ^ 64 - 1

theorem toUInt8_of_isDigit {c : Char} (h : c.isDigit = true) :
    48 ≤ c.toNat ∧ c.toNat ≤ 57 ∧ c.toNat.toUInt8.toNat = c.toNat := by
  have hc : 48 ≤ c.toNat ∧ c.toNat ≤ 57 := by
    simpa [Char.isDigit, UInt32.le_iff_toNat_le] using h
  refine ⟨hc.1, hc.2, ?_⟩
  rw [Nat.toUInt8_eq, UInt8.toNat_ofNat']
  omega

theorem ofNat_toUInt8_of_isDigit {c : Char} (h : c.isDigit = true) :
    Char.ofNat c.toNat.toUInt8.toNat = c := by
  rw [(toUInt8_of_isDigit h).2.2, Char.ofNat_toNat]

theorem digitsValue_decimal (n : ℕ) : digitsValue (decimal n) = n := by
  have hchars : (decimal n).map (fun b => Char.ofNat b.toNat) = Nat.toDigits 10 n := by
    rw [decimal, List.map_map]
    conv_rhs => rw [← List.map_id (Nat.toDigits 10 n)]
    refine List.map_congr_left fun c hc => ?_
    exact ofNat_toUInt8_of_isDigit (Nat.isDigit_of_mem_toDigits (by decide) (by decide) hc)
  unfold digitsValue
  rw [hchars, Nat.ofDigitChars_ten_toDigits]

theorem parseDigits_decimal {largest n m : ℕ} (h : parseDigits largest (decimal n) = some m) :
    m = n := by
  unfold parseDigits at h
  rw [digitsValue_decimal] at h
  split at h
  · exact (Option.some.inj h).symm
  · cases h

theorem isAsciiDigit_of_isDigit {c : Char} (h : c.isDigit = true) :
    isAsciiDigit c.toNat.toUInt8 = true := by
  obtain ⟨hle, hge, hbyte⟩ := toUInt8_of_isDigit h
  unfold isAsciiDigit
  rw [Bool.and_eq_true, decide_eq_true_eq, decide_eq_true_eq, UInt8.le_iff_toNat_le,
    UInt8.le_iff_toNat_le, hbyte]
  exact ⟨hle, hge⟩

theorem isAsciiDigit_of_mem_decimal {n : ℕ} {b : UInt8} (hb : b ∈ decimal n) :
    isAsciiDigit b = true := by
  obtain ⟨c, hc, rfl⟩ := List.mem_map.mp hb
  exact isAsciiDigit_of_isDigit (Nat.isDigit_of_mem_toDigits (by decide) (by decide) hc)

theorem decimal_ne_nil (n : ℕ) : decimal n ≠ [] := fun h =>
  Nat.toDigits_ne_nil (List.map_eq_nil_iff.mp h)

theorem parseDigits_of_le {largest n : ℕ} (h : n ≤ largest) :
    parseDigits largest (decimal n) = some n := by
  have hdigits : (decimal n).all isAsciiDigit = true :=
    List.all_eq_true.mpr fun b hb => isAsciiDigit_of_mem_decimal hb
  unfold parseDigits
  rw [digitsValue_decimal, if_pos ⟨decimal_ne_nil n, hdigits, h⟩]

theorem toString_nat_injective {m n : ℕ} (h : toString m = toString n) : m = n := by
  have hvalue := congrArg (fun s : String => Nat.ofDigitChars 10 s.toList 0) h
  simpa [Nat.toString_eq_repr, Nat.toList_repr, Nat.ofDigitChars_ten_toDigits] using hvalue

def isWhitespace (c : Char) : Bool :=
  let n := c.toNat
  (9 ≤ n && n ≤ 13) || n == 32 || n == 0x85 || n == 0xa0 || n == 0x1680 ||
    (0x2000 ≤ n && n ≤ 0x200a) || n == 0x2028 || n == 0x2029 || n == 0x202f || n == 0x205f ||
    n == 0x3000

/-- `s.trim().is_empty()`. -/
def trimIsEmpty (s : String) : Bool := s.toList.all isWhitespace

def trimStart (s : String) : List Char := s.toList.dropWhile isWhitespace

/-- `format!("{:032x}", n)`. -/
def hex32 (n : ℕ) : String :=
  let digits := Nat.toDigits 16 n
  String.ofList (List.replicate (32 - digits.length) '0' ++ digits)

theorem mem_toDigits {b n : ℕ} (hb : 1 < b) {c : Char} (hc : c ∈ Nat.toDigits b n) :
    ∃ d < b, c = d.digitChar := by
  induction n using Nat.strongRecOn with
  | ind n ih =>
      by_cases hn : n < b
      · rw [Nat.toDigits_of_lt_base hn, List.mem_singleton] at hc
        exact ⟨n, hn, hc⟩
      · have hle : b ≤ n := Nat.le_of_not_lt hn
        rw [Nat.toDigits_of_base_le hb hle, List.mem_append, List.mem_singleton] at hc
        rcases hc with hc | hc
        · exact ih (n / b) (Nat.div_lt_self (by omega) hb) hc
        · exact ⟨n % b, Nat.mod_lt n (by omega), hc⟩

theorem mem_hex32 {n : ℕ} {c : Char} (hc : c ∈ (hex32 n).toList) : ∃ d < 16, c = d.digitChar := by
  unfold hex32 at hc
  rw [String.toList_ofList, List.mem_append] at hc
  rcases hc with hc | hc
  · exact ⟨0, by omega, List.eq_of_mem_replicate hc⟩
  · exact mem_toDigits (by omega) hc

theorem hex32_not_blank (n : ℕ) : trimIsEmpty (hex32 n) = false := by
  have hdigit : ∀ d < 16, isWhitespace d.digitChar = false := by decide
  obtain ⟨c, rest, hchars⟩ : ∃ c rest, (hex32 n).toList = c :: rest := by
    refine List.exists_cons_of_ne_nil fun hnil => ?_
    have hlength := congrArg List.length hnil
    unfold hex32 at hlength
    rw [String.toList_ofList, List.length_append, List.length_replicate, List.length_nil] at hlength
    omega
  have hmem : c ∈ (hex32 n).toList := by
    rw [hchars]
    exact List.mem_cons_self
  obtain ⟨d, hd, rfl⟩ := mem_hex32 hmem
  unfold trimIsEmpty
  rw [hchars, List.all_cons, hdigit d hd, Bool.false_and]

def isAscii (s : String) : Bool := s.toList.all fun c => c.toNat < 128

end BreezeGateway
