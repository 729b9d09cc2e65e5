import BreezeGateway.Http.Address
import BreezeGateway.HopByHop
import BreezeGateway.RedisAdmission.ForwardedTicket

/-!
# The list of forwarders

`X-Forwarded-For` is one list, however many lines it is spread over.
-/

namespace BreezeGateway

/-- The members of the lines, one line after the other. -/
def listMembers (lines : List HeaderValue) : List Bytes :=
  (lines.flatMap fun value => members value.bytes).map trimAscii

def forwarders (h : HeaderMap) : List Bytes := listMembers (h.getAll xForwardedFor)

theorem listMembers_append (lines lines' : List HeaderValue) :
    listMembers (lines ++ lines') = listMembers lines ++ listMembers lines' := by
  unfold listMembers
  rw [List.flatMap_append, List.map_append]

theorem listMembers_singleton (value : HeaderValue) :
    listMembers [value] = (members value.bytes).map trimAscii := by
  unfold listMembers
  rw [List.flatMap_singleton]

theorem listMembers_eq_nil {lines : List HeaderValue} : listMembers lines = [] ↔ lines = [] := by
  constructor
  · intro h
    cases lines with
    | nil => rfl
    | cons value rest =>
        rw [← List.singleton_append, listMembers_append, listMembers_singleton] at h
        have hnil := List.map_eq_nil_iff.mp (List.append_eq_nil_iff.mp h).1
        exact absurd hnil (List.splitOn_ne_nil _ _)
  · rintro rfl
    rfl

/-! ## The text of a peer -/

theorem utf8_append (s t : String) : utf8 (s ++ t) = utf8 s ++ utf8 t := by
  unfold utf8
  rw [String.toList_append, List.flatMap_append]

theorem address_byte {address : IpAddr} {b : UInt8} (hb : b ∈ utf8 address.toString) :
    isValueByte b = true ∧ b ≠ 44 ∧ isBlank b = false := by
  rw [utf8_of_isAscii address.isAscii_toString] at hb
  obtain ⟨c, hc, rfl⟩ := List.mem_map.mp hb
  rcases IpAddr.mem_toString hc with rfl | rfl | ⟨d, hd, rfl⟩
  · decide
  · decide
  · interval_cases d <;> decide

theorem members_address (address : IpAddr) : members (utf8 address.toString) = [utf8 address.toString] :=
  List.splitOn_eq_singleton fun hcomma => (address_byte hcomma).2.1 rfl

theorem trimAscii_address (address : IpAddr) : trimAscii (utf8 address.toString) = utf8 address.toString := by
  apply trimAscii_eq_iff.mpr
  rintro (⟨b, hb, hblank⟩ | ⟨b, hb, hblank⟩)
  · rw [(address_byte (List.mem_of_head? hb)).2.2] at hblank
    cases hblank
  · rw [(address_byte (List.mem_of_getLast? hb)).2.2] at hblank
    cases hblank

theorem trimAscii_blank_cons {b : UInt8} (hb : isBlank b = true) (bytes : Bytes) :
    trimAscii (b :: bytes) = trimAscii bytes := by
  unfold trimAscii
  rw [List.dropWhile_cons_of_pos hb]

theorem fromStr_of_valid {s : String} (h : (utf8 s).all isValueByte = true) :
    HeaderValue.fromStr s = some ⟨utf8 s, h⟩ := dif_pos h

/-! ## One more forwarder -/

theorem members_appended (line : Bytes) (address : IpAddr) :
    (members (line ++ utf8 ", " ++ utf8 address.toString)).map trimAscii =
      (members line).map trimAscii ++ [utf8 address.toString] := by
  have hsplit : members (line ++ utf8 ", " ++ utf8 address.toString) =
      members line ++ [32 :: utf8 address.toString] := by
    have hblank : (44 : UInt8) ∉ 32 :: utf8 address.toString := by
      rintro hcomma
      rcases List.mem_cons.mp hcomma with hcomma | hcomma
      · exact absurd hcomma (by decide)
      · exact (address_byte hcomma).2.1 rfl
    rw [List.append_assoc]
    exact (List.splitOn_append_cons_self line _).trans
      (congrArg (members line ++ ·) (List.splitOn_eq_singleton hblank))
  rw [hsplit, List.map_append, List.map_singleton, trimAscii_blank_cons (by decide),
    trimAscii_address]

/-- Only the first line is extended; it replaces them all. -/
theorem forwarders_appendForwardedFor {h : HeaderMap} (address : IpAddr)
    (hvisible : ∀ value ∈ h.getAll xForwardedFor, value.toStr ≠ none) :
    forwarders (appendForwardedFor h address.toString) =
      listMembers ((h.getAll xForwardedFor).take 1) ++ [utf8 address.toString] := by
  have haddress : (utf8 address.toString).all isValueByte = true :=
    List.all_eq_true.mpr fun b hb => (address_byte hb).1
  have hinsert : ∀ value, forwarders (h.insert xForwardedFor value) =
      (members value.bytes).map trimAscii := by
    intro value
    unfold forwarders HeaderMap.getAll
    rw [HeaderMap.values_insert_self, listMembers_singleton]
  unfold appendForwardedFor HeaderMap.get
  cases hlines : h.values xForwardedFor with
  | nil =>
      have hnone : h.getAll xForwardedFor = [] := hlines
      dsimp only [List.head?_nil]
      rw [fromStr_of_valid haddress]
      dsimp only
      rw [hinsert, members_address, List.map_singleton, trimAscii_address, hnone]
      exact (List.nil_append _).symm
  | cons line rest =>
      have hsome : h.getAll xForwardedFor = line :: rest := hlines
      obtain ⟨text, htext⟩ := Option.ne_none_iff_exists'.mp
        (hvisible line (hsome ▸ List.mem_cons_self))
      have hvalid : (utf8 (text ++ ", " ++ address.toString)).all isValueByte = true := by
        rw [utf8_append, utf8_append, List.all_append, List.all_append, haddress,
          utf8_of_toStr htext, line.valid]
        decide
      dsimp only [List.head?_cons]
      rw [htext]
      dsimp only
      rw [fromStr_of_valid hvalid]
      dsimp only
      rw [hinsert, hsome]
      dsimp only [List.take]
      rw [utf8_append, utf8_append, utf8_of_toStr htext, members_appended, listMembers_singleton]

theorem xForwardedFor_not_fixed : xForwardedFor ∉ hopByHopNames := by decide +kernel

theorem getAll_filtered_forwarders {h : HeaderMap} {upgrade : Bool}
    (hkept : xForwardedFor ∈ nominated h → h.getAll xForwardedFor = []) :
    (removeHopByHopHeaders h upgrade).getAll xForwardedFor = h.getAll xForwardedFor := by
  unfold HeaderMap.getAll at hkept ⊢
  rw [values_removeHopByHopHeaders]
  split
  · rename_i hremoved
    rcases hremoved with ⟨hnominated, -⟩ | hfixed | ⟨-, hconnection | hupgrade⟩
    · exact (hkept hnominated).symm
    · exact absurd hfixed xForwardedFor_not_fixed
    · exact absurd hconnection (by decide)
    · exact absurd hupgrade (by decide)
  · rfl

namespace FallbackProxy

variable {B : Type} {lib : UriLibrary} {self : FallbackProxy} {request request' : Request B}
  {peer : SocketAddr} {upgrade : Bool}

theorem getAll_forwarders_prepareRequest
    (h : self.prepareRequest lib request peer upgrade = .ok (.ok request')) :
    request'.headers.getAll xForwardedFor =
      (appendForwardedFor (removeHopByHopHeaders request.headers upgrade) peer.ip).getAll
        xForwardedFor := by
  obtain ⟨authority, p, -, -, rfl⟩ := prepareRequest_ok h
  have hprepared : (prepareHeaders request.headers peer upgrade).getAll xForwardedFor =
      (appendForwardedFor (removeHopByHopHeaders request.headers upgrade) peer.ip).getAll
        xForwardedFor := by
    unfold prepareHeaders HeaderMap.getAll
    cases request.headers.get host with
    | none => exact HeaderMap.values_entryOrInsert_of_ne _ _ xForwardedProto_ne_for.symm
    | some value =>
        dsimp only
        rw [HeaderMap.values_entryOrInsert_of_ne _ _ xForwardedHost_ne_for.symm]
        exact HeaderMap.values_entryOrInsert_of_ne _ _ xForwardedProto_ne_for.symm
  cases request.extensions.ticket with
  | none => exact hprepared
  | some ticket =>
      dsimp only
      rw [getAll_attach, if_neg (by decide), if_neg (by decide)]
      exact hprepared

/-- The peer is appended to the recorded forwarders exactly if these fit in one line. -/
theorem forwarders_appended_iff {address : IpAddr}
    (hvisible : ∀ value ∈ request.headers.getAll xForwardedFor, value.toStr ≠ none)
    (hkept : xForwardedFor ∈ nominated request.headers →
      request.headers.getAll xForwardedFor = [])
    (h : self.prepareRequest lib request ⟨address.toString⟩ upgrade = .ok (.ok request')) :
    forwarders request'.headers = forwarders request.headers ++ [utf8 address.toString] ↔
      (request.headers.getAll xForwardedFor).length ≤ 1 := by
  have hlines : (removeHopByHopHeaders request.headers upgrade).getAll xForwardedFor =
      request.headers.getAll xForwardedFor := getAll_filtered_forwarders hkept
  have hprepared : forwarders request'.headers =
      listMembers ((request.headers.getAll xForwardedFor).take 1) ++ [utf8 address.toString] := by
    rw [forwarders, getAll_forwarders_prepareRequest h, ← forwarders,
      forwarders_appendForwardedFor address (by rwa [hlines]), hlines]
  have hall : forwarders request.headers =
      listMembers ((request.headers.getAll xForwardedFor).take 1) ++
        listMembers ((request.headers.getAll xForwardedFor).drop 1) := by
    rw [← listMembers_append, List.take_append_drop, forwarders]
  rw [hprepared, hall, List.append_cancel_right_eq, List.self_eq_append_right, listMembers_eq_nil,
    List.drop_eq_nil_iff]

end FallbackProxy

def forwardedRequest (lines : List HeaderValue) : Request Unit where
  method := .get
  uri := ⟨none, none, ⟨"/", none⟩⟩
  version := .http11
  headers := lines.foldl (fun h value => h.append xForwardedFor value) .empty
  extensions := .new
  body := ()

def loopback : IpAddr := .v6 #v[0, 0, 0, 0, 0, 0, 0, 1]

theorem forwarders_appended_iff_single :
    ∃ request', FallbackProxy.prepareRequest literalUris ⟨"http", some "origin"⟩
        (forwardedRequest [.fromStatic "192.0.2.1, 192.0.2.2"]) ⟨loopback.toString⟩ false =
          .ok (.ok request') ∧
      forwarders request'.headers =
        forwarders (forwardedRequest [.fromStatic "192.0.2.1, 192.0.2.2"]).headers ++
          [utf8 loopback.toString] := by
  obtain ⟨request', h⟩ : ∃ request', FallbackProxy.prepareRequest literalUris
      ⟨"http", some "origin"⟩ (forwardedRequest [.fromStatic "192.0.2.1, 192.0.2.2"])
        ⟨loopback.toString⟩ false = .ok (.ok request') := ⟨_, rfl⟩
  refine ⟨request', h, ?_⟩
  apply (FallbackProxy.forwarders_appended_iff _ _ h).mpr
  · decide +kernel
  · decide +kernel
  · decide +kernel

def twoForwarders : Request Unit := forwardedRequest [.fromStatic "192.0.2.1", .fromStatic "192.0.2.2"]

/-- The second line is lost. -/
theorem forwarders_appended_fails :
    (∀ value ∈ twoForwarders.headers.getAll xForwardedFor, value.toStr ≠ none) ∧
    nominated twoForwarders.headers = [] ∧
    ∃ request', FallbackProxy.prepareRequest literalUris ⟨"http", some "origin"⟩ twoForwarders
        ⟨loopback.toString⟩ false = .ok (.ok request') ∧
      forwarders request'.headers = [utf8 "192.0.2.1", utf8 "::1"] ∧
      forwarders request'.headers ≠ forwarders twoForwarders.headers ++ [utf8 loopback.toString] := by
  refine ⟨by decide +kernel, by decide +kernel, _, rfl, by decide +kernel, by decide +kernel⟩

end BreezeGateway
