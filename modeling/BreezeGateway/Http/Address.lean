import BreezeGateway.Text

/-!
# IP addresses

`std::net::IpAddr` and the text that `to_string` makes of it.
-/

namespace BreezeGateway

inductive IpAddr where
  | v4 (octets : Vector UInt8 4)
  | v6 (segments : Vector UInt16 8)
deriving DecidableEq

namespace IpAddr

def dotted (octets : List ℕ) : List Char := ['.'].intercalate (octets.map (Nat.toDigits 10))

def fmtSubslice (chunk : List ℕ) : List Char := [':'].intercalate (chunk.map (Nat.toDigits 16))

structure Span where
  start : ℕ
  len : ℕ

/-- The longest run of zeros, the first of several. -/
def zeroes (segments : List ℕ) : Span :=
  (segments.zipIdx.foldl (fun (longest, current) (segment, i) =>
    if segment = 0 then
      let current : Span := ⟨if current.len = 0 then i else current.start, current.len + 1⟩
      (if longest.len < current.len then current else longest, current)
    else (longest, ⟨0, 0⟩)) ((⟨0, 0⟩, ⟨0, 0⟩) : Span × Span)).1

def toIpv4Mapped (segments : List ℕ) : Option (List ℕ) :=
  if segments.take 6 = [0, 0, 0, 0, 0, 0xffff] then
    some ((segments.drop 6).flatMap fun segment => [segment / 256, segment % 256])
  else none

def fmtSegments (segments : List ℕ) : List Char :=
  match toIpv4Mapped segments with
  | some octets => "::ffff:".toList ++ dotted octets
  | none =>
      let zeroes := zeroes segments
      if 1 < zeroes.len then
        fmtSubslice (segments.take zeroes.start) ++
          (':' :: ':' :: fmtSubslice (segments.drop (zeroes.start + zeroes.len)))
      else fmtSubslice segments

def toString : IpAddr → String
  | .v4 octets => String.ofList (dotted (octets.toList.map UInt8.toNat))
  | .v6 segments => String.ofList (fmtSegments (segments.toList.map UInt16.toNat))

def IsAddressChar (c : Char) : Prop := c = '.' ∨ c = ':' ∨ ∃ d < 16, c = d.digitChar

theorem mem_intercalate {c s : Char} {parts : List (List Char)} (hc : c ∈ [s].intercalate parts) :
    c = s ∨ ∃ part ∈ parts, c ∈ part := by
  induction parts with
  | nil => simp at hc
  | cons part rest ih =>
      cases rest with
      | nil =>
          rw [List.intercalate_singleton] at hc
          exact Or.inr ⟨part, List.mem_cons_self, hc⟩
      | cons next rest =>
          rw [List.intercalate_cons_cons, List.mem_append, List.mem_append, List.mem_singleton] at hc
          rcases hc with (hc | hc) | hc
          · exact Or.inr ⟨part, List.mem_cons_self, hc⟩
          · exact Or.inl hc
          · rcases ih hc with hs | ⟨other, hmem, hother⟩
            · exact Or.inl hs
            · exact Or.inr ⟨other, List.mem_cons_of_mem _ hmem, hother⟩

theorem mem_dotted {c : Char} {octets : List ℕ} (hc : c ∈ dotted octets) : IsAddressChar c := by
  rcases mem_intercalate hc with rfl | ⟨part, hpart, hc⟩
  · exact Or.inl rfl
  · obtain ⟨octet, -, rfl⟩ := List.mem_map.mp hpart
    obtain ⟨d, hd, rfl⟩ := mem_toDigits (by omega) hc
    exact Or.inr (Or.inr ⟨d, by omega, rfl⟩)

theorem mem_fmtSubslice {c : Char} {chunk : List ℕ} (hc : c ∈ fmtSubslice chunk) :
    IsAddressChar c := by
  rcases mem_intercalate hc with rfl | ⟨part, hpart, hc⟩
  · exact Or.inr (Or.inl rfl)
  · obtain ⟨segment, -, rfl⟩ := List.mem_map.mp hpart
    obtain ⟨d, hd, rfl⟩ := mem_toDigits (by omega) hc
    exact Or.inr (Or.inr ⟨d, hd, rfl⟩)

theorem mem_fmtSegments {c : Char} {segments : List ℕ} (hc : c ∈ fmtSegments segments) :
    IsAddressChar c := by
  unfold fmtSegments at hc
  split at hc
  · rcases List.mem_append.mp hc with hmapped | hoctets
    · have hchars : "::ffff:".toList =
          List.replicate 2 ':' ++ List.replicate 4 'f' ++ List.replicate 1 ':' := rfl
      rw [hchars, List.mem_append, List.mem_append] at hmapped
      rcases hmapped with (hc | hc) | hc
      · exact Or.inr (Or.inl (List.eq_of_mem_replicate hc))
      · exact Or.inr (Or.inr ⟨15, by omega, List.eq_of_mem_replicate hc⟩)
      · exact Or.inr (Or.inl (List.eq_of_mem_replicate hc))
    · exact mem_dotted hoctets
  · dsimp only at hc
    split at hc
    · rcases List.mem_append.mp hc with hfront | hback
      · exact mem_fmtSubslice hfront
      · rcases List.mem_cons.mp hback with rfl | hback
        · exact Or.inr (Or.inl rfl)
        · rcases List.mem_cons.mp hback with rfl | hback
          · exact Or.inr (Or.inl rfl)
          · exact mem_fmtSubslice hback
    · exact mem_fmtSubslice hc

theorem mem_toString {address : IpAddr} {c : Char} (hc : c ∈ address.toString.toList) :
    IsAddressChar c := by
  cases address with
  | v4 octets =>
      rw [toString, String.toList_ofList] at hc
      exact mem_dotted hc
  | v6 segments =>
      rw [toString, String.toList_ofList] at hc
      exact mem_fmtSegments hc

theorem isAscii_toString (address : IpAddr) : isAscii address.toString = true := by
  refine List.all_eq_true.mpr fun c hc => ?_
  rcases mem_toString hc with rfl | rfl | ⟨d, hd, rfl⟩
  · decide
  · decide
  · interval_cases d <;> decide

example : (IpAddr.v6 #v[0x2001, 0xdb8, 0, 0, 1, 0, 0, 0xa]).toString = "2001:db8::1:0:0:a" := by
  decide +kernel

end IpAddr

end BreezeGateway
