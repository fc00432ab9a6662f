import BeeEngine.Issuer
import BeeEngine.Lib.Base64Bits
import BeeEngine.Lib.HexNumber
import BeeEngine.Lib.JsonText

/-!
# Windows of a token

A claim is cut out of the base64 text of a payload.  What is decoded are the bytes
of the payload that the window has all bits of.
-/

namespace BeeEngine

namespace Issuer

open Base64 BitGroups Chunks

/-! ## Bits and bytes -/

theorem findIdx?_digit :
    ∀ n < 64, base64UrlCharset.toList.findIdx? (· = digit n) = some n := by decide

theorem toNat_digit_lt : ∀ n < 64, (digit n).toNat < 128 := by decide

set_option maxRecDepth 4000 in
theorem byteOf_bits : ∀ n < 256, byteOf (bits 8 n) = UInt8.ofNat n := by decide

theorem base64ToBitarray_eq {s : String} {ns : List ℕ} (hs : s.toList = ns.map digit)
    (h : ∀ n ∈ ns, n < 64) : base64ToBitarray s = .ok (stream 6 ns) := by
  have hgroups : List.Forall₂ (fun c group ↦ bitsOfChar c = .ok group) (ns.map digit)
      (ns.map (bits 6)) := by
    rw [List.forall₂_map_left_iff, List.forall₂_map_right_iff, List.forall₂_same]
    intro n hn
    rw [bitsOfChar, findIdx?_digit n (h n hn)]
  rw [base64ToBitarray, hs, Outcome.mapM_eq_ok_iff.mpr hgroups]
  rfl

theorem bitarrayToBytearray_stream (bs : Bytes) :
    bitarrayToBytearray (stream 8 (bs.map UInt8.toNat)) = .ok bs := by
  rw [bitarrayToBytearray, if_neg (by simp), chunks_stream (by decide), List.map_map, List.map_map]
  refine congrArg Except.ok ((List.map_congr_left fun b _ ↦ ?_).trans (List.map_id bs))
  exact (byteOf_bits b.toNat b.toNat_lt).trans UInt8.ofNat_toNat

theorem drainFirst_eq {i : UInt8} (h : i.toNat < 3) (bits : List Bool) :
    drainFirst i bits = .ok (bits.drop (2 * i.toNat)) := by
  rw [drainFirst]
  generalize i.toNat = n at h ⊢
  obtain rfl | rfl | rfl : n = 0 ∨ n = 1 ∨ n = 2 := by omega
  · rfl
  · rfl
  · rfl

theorem drainLast_eq {offset : ℕ} (h : 1 ≤ offset ∧ offset ≤ 3) (bits : List Bool) :
    drainLast offset bits = .ok (bits.take (bits.length - 2 * (3 - offset))) := by
  obtain rfl | rfl | rfl : offset = 1 ∨ offset = 2 ∨ offset = 3 := by omega
  · rfl
  · rfl
  · simp [drainLast]

/-! ## Windows -/

/-- The bytes that begin at or after a digit. -/
def firstByte (start : ℕ) : ℕ := (6 * start + 7) / 8

/-- The bytes that end before a digit. -/
def lastByte (stop : ℕ) : ℕ := 6 * stop / 8

/-- The bytes that the digits of a window have all bits of. -/
def covered (bs : Bytes) (start stop : ℕ) : Bytes :=
  (bs.drop (firstByte start)).take (lastByte stop - firstByte start)

variable {bs : Bytes} {s : String} {before after : List Char}

/-- The digits of a window. -/
theorem toList_window (h : encodeChars bs = before ++ s.toList ++ after) :
    s.toList = (((sextets bs).drop before.length).take s.length).map digit := by
  rw [encodeChars_eq] at h
  rw [List.map_take, List.map_drop, h, List.append_assoc, List.drop_left, ← String.length_toList,
    List.take_left]

theorem add_le_length_sextets (h : encodeChars bs = before ++ s.toList ++ after) :
    before.length + s.length ≤ (sextets bs).length := by
  have hlength := congrArg List.length h
  rw [encodeChars_eq, List.length_map, List.length_append, List.length_append,
    String.length_toList] at hlength
  omega

theorem lastByte_le (h : encodeChars bs = before ++ s.toList ++ after) :
    lastByte (before.length + s.length) ≤ bs.length := by
  obtain ⟨k, hk, hstream⟩ := exists_stream_sextets bs
  have hlength := congrArg List.length hstream
  rw [length_stream, List.length_append, length_stream, List.length_map,
    List.length_replicate] at hlength
  have hle := add_le_length_sextets h
  rw [lastByte]
  omega

/-- The bits of a window between two whole bytes. -/
theorem drop_take_window (h : encodeChars bs = before ++ s.toList ++ after) {d w : ℕ}
    (hstart : 6 * before.length + d = 8 * firstByte before.length)
    (hstop : 8 * firstByte before.length + w = 8 * lastByte (before.length + s.length))
    (hw : d + w ≤ 6 * s.length) :
    ((stream 6 (((sextets bs).drop before.length).take s.length)).drop d).take w =
      stream 8 ((covered bs before.length (before.length + s.length)).map UInt8.toNat) := by
  obtain ⟨k, hk, hstream⟩ := exists_stream_sextets bs
  have hle := lastByte_le h
  rw [← take_stream, ← drop_stream, List.drop_take, List.take_take, List.drop_drop, hstart,
    Nat.min_eq_left (by omega), hstream, covered, List.map_take, List.map_drop, ← take_stream,
    ← drop_stream]
  rw [List.drop_append_of_le_length (by rw [length_stream, List.length_map]; omega),
    List.take_append_of_le_length (by
      rw [List.length_drop, length_stream, List.length_map]
      omega)]
  congr 1
  omega

/-- The bits between the two bytes, as they are counted from the ends of the window. -/
theorem firstByte_add {p n : ℕ} (hlength : 2 ≤ n) (hfirst : p % 4 ≠ 3) (hlast : (p + n) % 4 ≠ 1) :
    8 * firstByte p + (6 * n - 2 * (p % 4) - 2 * (3 - (p % 4 + n - 1) % 4)) =
      8 * lastByte (p + n) := by
  have hp : p % 4 = 0 ∨ p % 4 = 1 ∨ p % 4 = 2 := by omega
  have hoffset : (p % 4 + n - 1) % 4 = (p + n - 1) % 4 := by omega
  have hn : (p + n - 1) % 4 = 1 ∨ (p + n - 1) % 4 = 2 ∨ (p + n - 1) % 4 = 3 := by omega
  rw [firstByte, lastByte, hoffset]
  obtain hp | hp | hp := hp <;> obtain hn | hn | hn := hn <;> rw [hp, hn] <;> omega

/-- The digits of a window, one by one. -/
theorem exists_digits (h : encodeChars bs = before ++ s.toList ++ after) :
    s.utf8ByteSize = s.length ∧ ∃ ns, ns = ((sextets bs).drop before.length).take s.length ∧
      ns.length = s.length ∧ base64ToBitarray s = .ok (stream 6 ns) := by
  have hs := toList_window h
  have hdigits : ∀ n ∈ ((sextets bs).drop before.length).take s.length, n < 64 :=
    fun n hn ↦ sextets_lt (List.mem_of_mem_drop (List.mem_of_mem_take hn))
  refine ⟨HexNumber.utf8ByteSize_of_ascii fun c hc ↦ ?_, _, rfl, ?_,
    base64ToBitarray_eq hs hdigits⟩
  · rw [hs] at hc
    obtain ⟨n, hn, rfl⟩ := List.mem_map.mp hc
    exact toNat_digit_lt n (hdigits n hn)
  · have hle := add_le_length_sextets h
    rw [List.length_take, List.length_drop, Nat.min_eq_left]
    omega

theorem toNat_ofNat_mod (n : ℕ) : (UInt8.ofNat (n % 4)).toNat = n % 4 := by
  rw [UInt8.toNat_ofNat']
  omega

/-- A window of two digits or more, which cuts off two or four bits of a byte. -/
structure IsWindow (start length : ℕ) : Prop where
  long : 2 ≤ length
  first : start % 4 ≠ 3
  last : (start + length) % 4 ≠ 1

instance (start length : ℕ) : Decidable (IsWindow start length) :=
  decidable_of_iff (2 ≤ length ∧ start % 4 ≠ 3 ∧ (start + length) % 4 ≠ 1)
    ⟨fun h ↦ ⟨h.1, h.2.1, h.2.2⟩, fun h ↦ ⟨h.long, h.first, h.last⟩⟩

/-- What a window is decoded to. -/
theorem decodeBase64Url_window (h : encodeChars bs = before ++ s.toList ++ after)
    (hwindow : IsWindow before.length s.length) :
    decodeBase64Url s (.ofNat (before.length % 4)) =
      match Bytes.fromUtf8 (covered bs before.length (before.length + s.length)) with
      | some text => .ok text
      | none => .error (.generalError "Invalid UTF8 string") := by
  obtain ⟨hlength, hfirst, hlast⟩ := hwindow
  obtain ⟨hsize, ns, hns, hcount, hbits⟩ := exists_digits h
  -- The bits of the window, without those of the bytes that are cut.
  have hcut := drop_take_window h (d := 2 * (before.length % 4))
    (w := 6 * s.length - 2 * (before.length % 4) -
      2 * (3 - (before.length % 4 + s.length - 1) % 4))
    (by rw [firstByte]; omega) (firstByte_add hlength hfirst hlast) (by omega)
  rw [← hns] at hcut
  rewrite [decodeBase64Url, hsize, if_neg (by omega), hbits, Outcome.ok_bind,
    drainFirst_eq (by rw [toNat_ofNat_mod]; omega), Outcome.ok_bind, toNat_ofNat_mod,
    drainLast_eq (by omega), Outcome.ok_bind, List.length_drop, length_stream, hcount, hcut,
    if_neg (by simp), bitarrayToBytearray_stream, Outcome.ok_bind]
  rfl

/-- Other windows are refused. -/
theorem exists_error_of_not_isWindow (h : encodeChars bs = before ++ s.toList ++ after)
    (hwindow : ¬IsWindow before.length s.length) :
    ∃ e, decodeBase64Url s (.ofNat (before.length % 4)) = .error e := by
  obtain ⟨hsize, ns, -, -, hbits⟩ := exists_digits h
  rw [decodeBase64Url, hsize]
  split
  · exact ⟨_, rfl⟩
  · rename_i hlong
    rw [hbits, Outcome.ok_bind]
    by_cases hfirst : before.length % 4 = 3
    · rw [hfirst]
      exact ⟨_, rfl⟩
    · have hlast : (before.length + s.length) % 4 = 1 := by
        by_contra hlast
        exact hwindow ⟨Nat.not_lt.mp hlong, hfirst, hlast⟩
      have hoffset : ((UInt8.ofNat (before.length % 4)).toNat + s.length - 1) % 4 = 0 := by
        rw [toNat_ofNat_mod]
        omega
      rw [drainFirst_eq (by rw [toNat_ofNat_mod]; omega), Outcome.ok_bind, hoffset]
      exact ⟨_, rfl⟩

theorem decode_of_covered (h : encodeChars bs = before ++ s.toList ++ after) {text : String}
    (hwindow : IsWindow before.length s.length)
    (htext : Bytes.utf8 text = covered bs before.length (before.length + s.length)) :
    decodeBase64Url s (.ofNat (before.length % 4)) = .ok text := by
  rw [decodeBase64Url_window h hwindow, ← htext, Bytes.fromUtf8_utf8]

theorem covered_of_decode (h : encodeChars bs = before ++ s.toList ++ after) {text : String}
    (htext : decodeBase64Url s (.ofNat (before.length % 4)) = .ok text) :
    IsWindow before.length s.length ∧
      Bytes.utf8 text = covered bs before.length (before.length + s.length) := by
  by_cases hwindow : IsWindow before.length s.length
  · refine ⟨hwindow, ?_⟩
    rw [decodeBase64Url_window h hwindow] at htext
    split at htext
    · rename_i text' hread
      obtain rfl := Except.ok.inj htext
      exact Bytes.utf8_of_fromUtf8 hread
    · cases htext
  · obtain ⟨e, he⟩ := exists_error_of_not_isWindow h hwindow
    rw [he] at htext
    cases htext

/-- Exactly the whole bytes of a window are decoded. -/
theorem decodeBase64Url_eq_ok_iff (h : encodeChars bs = before ++ s.toList ++ after)
    {text : String} :
    decodeBase64Url s (.ofNat (before.length % 4)) = .ok text ↔
      IsWindow before.length s.length ∧
        Bytes.utf8 text = covered bs before.length (before.length + s.length) :=
  ⟨covered_of_decode h, fun hboth ↦ decode_of_covered h hboth.1 hboth.2⟩

/-! ## The window of a claim -/

/-- The first digit that has a bit of a byte. -/
def startOf (byte : ℕ) : ℕ := 8 * byte / 6

/-- The digit behind those that have a bit of the bytes before one. -/
def stopOf (byte : ℕ) : ℕ := (8 * byte + 5) / 6

/-- The shortest window with all bits of some bytes. -/
theorem isWindow_startOf {p q : ℕ} (h : p < q) : IsWindow (startOf p) (stopOf q - startOf p) := by
  rw [startOf, stopOf]
  refine ⟨?_, ?_, ?_⟩ <;> omega

theorem firstByte_startOf (p : ℕ) : firstByte (startOf p) = p := by
  rw [firstByte, startOf]
  omega

theorem lastByte_stopOf (q : ℕ) : lastByte (stopOf q) = q := by
  rw [lastByte, stopOf]
  omega

/-- The digits of the window of some bytes in the text of all of them. -/
def windowOf (bs : Bytes) (p q : ℕ) : String :=
  .ofList (((encodeChars bs).drop (startOf p)).take (stopOf q - startOf p))

theorem length_encodeChars (bs : Bytes) : (encodeChars bs).length = stopOf bs.length := by
  obtain ⟨k, hk, hstream⟩ := exists_stream_sextets bs
  have hlength := congrArg List.length hstream
  rw [length_stream, List.length_append, length_stream, List.length_map,
    List.length_replicate] at hlength
  rw [encodeChars_eq, List.length_map, stopOf]
  omega

theorem startOf_le_stopOf {p q : ℕ} (h : p ≤ q) : startOf p ≤ stopOf q := by
  rw [startOf, stopOf]
  omega

theorem stopOf_le_stopOf {p q : ℕ} (h : p ≤ q) : stopOf p ≤ stopOf q := by
  rw [stopOf, stopOf]
  omega

theorem length_utf8_pos {text : String} (h : text ≠ "") : 0 < (Bytes.utf8 text).length := by
  refine List.length_pos_iff.mpr fun hnil ↦ h ?_
  have htext := Bytes.fromUtf8_utf8 text
  rw [hnil, ← show Bytes.utf8 "" = [] from rfl, Bytes.fromUtf8_utf8] at htext
  exact (Option.some.inj htext).symm

/-- A text is decoded from the window of its bytes. -/
theorem decodeBase64Url_windowOf {pre post : Bytes} {text : String} (htext : text ≠ "") :
    decodeBase64Url
      (windowOf (pre ++ Bytes.utf8 text ++ post) pre.length
        (pre.length + (Bytes.utf8 text).length))
      (.ofNat (startOf pre.length % 4)) = .ok text := by
  have hpos := length_utf8_pos htext
  generalize hq : pre.length + (Bytes.utf8 text).length = q
  generalize hbs : pre ++ Bytes.utf8 text ++ post = bs
  have hle : q ≤ bs.length := by
    rw [← hbs, ← hq, List.length_append, List.length_append]
    omega
  have hstart := startOf_le_stopOf (show pre.length ≤ q by omega)
  have hstop := stopOf_le_stopOf hle
  rw [← length_encodeChars] at hstop
  have hbefore : ((encodeChars bs).take (startOf pre.length)).length = startOf pre.length := by
    rw [List.length_take, Nat.min_eq_left (by omega)]
  have hlength : (windowOf bs pre.length q).length = stopOf q - startOf pre.length := by
    rw [windowOf, String.length_ofList, List.length_take, List.length_drop, Nat.min_eq_left]
    omega
  have hsplit : encodeChars bs = (encodeChars bs).take (startOf pre.length) ++
      (windowOf bs pre.length q).toList ++
        ((encodeChars bs).drop (startOf pre.length)).drop (stopOf q - startOf pre.length) := by
    rw [windowOf, String.toList_ofList, List.append_assoc, List.take_append_drop,
      List.take_append_drop]
  rw [← hbefore]
  refine decode_of_covered hsplit ?_ ?_
  · rw [hbefore, hlength]
    exact isWindow_startOf (by omega)
  rw [hbefore, hlength, Nat.add_sub_cancel' hstart]
  rw [covered, firstByte_startOf, lastByte_stopOf, ← hbs, ← hq, Nat.add_sub_cancel_left,
    List.append_assoc, List.drop_left, List.take_left]

/-! ## The issuer -/

section

variable {F : Type} {serde : SerdeJson F}

variable (serde) in
/-- The text of a member, in the object of a claim. -/
def memberOf (claim key : String) : Option String :=
  (serde.fromStr some ("\x7b" ++ claim ++ "\x7d")).bind fun json ↦
    (json.get? key).bind (·.asStr?)

/-- A claim that ends as it should. -/
theorem verifyExtendedClaim_append {last : String} (h : last = "\x7d" ∨ last = ",")
    (claim key : String) :
    verifyExtendedClaim serde (claim ++ last) key =
      match memberOf serde claim key with
      | some value => .ok value
      | none => .error .invalidInput := by
  have hchar : ∃ c, last.toList = [c] ∧ (c = '}' ∨ c = ',') := by
    obtain rfl | rfl := h
    · exact ⟨'}', rfl, .inl rfl⟩
    · exact ⟨',', rfl, .inr rfl⟩
  obtain ⟨c, hc, hclose⟩ := hchar
  have hjson : String.ofList ('{' :: claim.toList ++ ['}']) = "\x7b" ++ claim ++ "\x7d" := by
    apply String.toList_injective
    simp
  rw [verifyExtendedClaim, String.toList_append, hc, List.getLast?_concat]
  dsimp only
  rw [if_pos hclose, List.dropLast_concat, hjson, memberOf]
  cases serde.fromStr some ("\x7b" ++ claim ++ "\x7d") <;> rfl

theorem verifyExtendedClaim_eq_ok_iff {text key value : String} :
    verifyExtendedClaim serde text key = .ok value ↔
      ∃ claim last, text = claim ++ last ∧ (last = "\x7d" ∨ last = ",") ∧
        memberOf serde claim key = some value := by
  constructor
  · intro h
    have hclosed : ∃ claim last, text = claim ++ last ∧ (last = "\x7d" ∨ last = ",") := by
      rw [verifyExtendedClaim] at h
      split at h
      · rename_i c hlast
        split at h
        · rename_i hclose
          obtain ⟨front, hfront⟩ := List.getLast?_eq_some_iff.mp hlast
          refine ⟨.ofList front, .ofList [c], ?_, ?_⟩
          · apply String.toList_injective
            rw [String.toList_append, String.toList_ofList, String.toList_ofList, hfront]
          · exact hclose.imp (fun hc ↦ by rw [hc]) (fun hc ↦ by rw [hc])
        · cases h
      · cases h
    obtain ⟨claim, last, rfl, hclose⟩ := hclosed
    refine ⟨claim, last, rfl, hclose, ?_⟩
    rw [verifyExtendedClaim_append hclose] at h
    split at h
    · rename_i value' hvalue
      rw [hvalue, Except.ok.inj h]
    · cases h
  · rintro ⟨claim, last, rfl, hclose, hvalue⟩
    rw [verifyExtendedClaim_append hclose, hvalue]

/-- The issuers whose keys are fetched, with their domains. -/
def trustedIssuers : List (String × String) := [
  ("https://accounts.google.com", "www.googleapis.com"),
  ("https://oauth.gosh.sh", "oauth.gosh.sh"),
  ("https://www.facebook.com", "www.facebook.com")]

/-- Only these issuers have a domain, whatever the patterns of the others match. -/
theorem fromIss_domain_iff {iss domain : String} :
    (∃ provider, OIDCProvider.fromIss iss = .ok provider ∧
      getDomainByAuthProvider provider = .ok domain) ↔ (iss, domain) ∈ trustedIssuers := by
  constructor
  · rintro ⟨provider, hprovider, hdomain⟩
    rw [OIDCProvider.fromIss] at hprovider
    split_ifs at hprovider with hgoogle hgosh htwitch hfacebook
    · cases hprovider
      cases hdomain
      rw [hgoogle]
      exact .head _
    · cases hprovider
      cases hdomain
      rw [hgosh]
      exact .tail _ (.head _)
    · cases hprovider
      cases hdomain
    · cases hprovider
      cases hdomain
      rw [hfacebook]
      exact .tail _ (.tail _ (.head _))
    -- The patterns of Microsoft and AWS give providers without a domain.
    case neg =>
      obtain ⟨captures, -, rfl⟩ := Outcome.map_eq_ok_iff.mp hprovider
      cases hdomain
    all_goals
      cases hprovider
      cases hdomain
  · intro h
    simp only [trustedIssuers, List.mem_cons, Prod.mk.injEq, List.not_mem_nil, or_false] at h
    obtain ⟨rfl, rfl⟩ | ⟨rfl, rfl⟩ | ⟨rfl, rfl⟩ := h
    · exact ⟨.google, if_pos rfl, rfl⟩
    · exact ⟨.gosh, rfl, rfl⟩
    · exact ⟨.facebook, rfl, rfl⟩

variable (serde) in
/-- The domain that a claim gives. -/
def domainOf (claim : Claim) : Except AppError String :=
  getAuthProvider serde claim >>= getDomainByAuthProvider

theorem zkStep_eq_ok_iff {α : Type} {what : String} {x : ZkCryptoResult α} {a : α} :
    zkStep what x = .ok a ↔ x = .ok a := by
  rw [zkStep, inContext_eq_ok_iff, Outcome.mapError_eq_ok_iff]

theorem domainOf_eq_ok_iff {value domain : String} {i : UInt8} :
    domainOf serde ⟨value, i⟩ = .ok domain ↔
      ∃ text iss, decodeBase64Url value i = .ok text ∧
        verifyExtendedClaim serde text "iss" = .ok iss ∧ (iss, domain) ∈ trustedIssuers := by
  simp only [domainOf, getAuthProvider, Outcome.bind_eq_ok_iff, zkStep_eq_ok_iff,
    ← fromIss_domain_iff]
  constructor
  · rintro ⟨provider, ⟨text, htext, iss, hiss, hprovider⟩, hdomain⟩
    exact ⟨text, iss, htext, hiss, provider, hprovider, hdomain⟩
  · rintro ⟨text, iss, htext, hiss, provider, hprovider, hdomain⟩
    exact ⟨provider, ⟨text, htext, iss, hiss, hprovider⟩, hdomain⟩

/-- A window of a payload gives a domain exactly if its whole bytes are a closed claim
with an issuer that is trusted. -/
theorem domainOf_window_iff (h : encodeChars bs = before ++ s.toList ++ after) {domain : String} :
    domainOf serde ⟨s, .ofNat (before.length % 4)⟩ = .ok domain ↔
      IsWindow before.length s.length ∧ ∃ claim last iss,
        Bytes.utf8 (claim ++ last) = covered bs before.length (before.length + s.length) ∧
          (last = "\x7d" ∨ last = ",") ∧ memberOf serde claim "iss" = some iss ∧
            (iss, domain) ∈ trustedIssuers := by
  rw [domainOf_eq_ok_iff]
  constructor
  · rintro ⟨text, iss, htext, hiss, htrusted⟩
    obtain ⟨hwindow, hcovered⟩ := covered_of_decode h htext
    obtain ⟨claim, last, rfl, hclose, hmember⟩ := verifyExtendedClaim_eq_ok_iff.mp hiss
    exact ⟨hwindow, claim, last, iss, hcovered, hclose, hmember, htrusted⟩
  · rintro ⟨hwindow, claim, last, iss, hcovered, hclose, hmember, htrusted⟩
    exact ⟨claim ++ last, iss, decode_of_covered h hwindow hcovered,
      verifyExtendedClaim_eq_ok_iff.mpr ⟨claim, last, rfl, hclose, hmember⟩, htrusted⟩

theorem memberOf_of_writer (writer : serde.StructWriter) {claim iss : String}
    (h : "\x7b" ++ claim ++ "\x7d" = writer.toString [("iss", .str iss)]) :
    memberOf serde claim "iss" = some iss := by
  rw [memberOf, h, writer.fromStr_toString some (by simp)]
  simp [Json.Map.ofList]

/-- The claim of an issuer, at any place of any payload, gives its domain. -/
theorem domainOf_windowOf_iff (writer : serde.StructWriter) {pre post : Bytes}
    {claim last iss domain : String}
    (hclaim : "\x7b" ++ claim ++ "\x7d" = writer.toString [("iss", .str iss)])
    (hclose : last = "\x7d" ∨ last = ",") :
    domainOf serde
        ⟨windowOf (pre ++ Bytes.utf8 (claim ++ last) ++ post) pre.length
            (pre.length + (Bytes.utf8 (claim ++ last)).length),
          .ofNat (startOf pre.length % 4)⟩ = .ok domain ↔ (iss, domain) ∈ trustedIssuers := by
  have htext : claim ++ last ≠ "" := by
    intro hempty
    have hlast := congrArg String.length hempty
    obtain rfl | rfl := hclose <;> simp at hlast
  have hmember := memberOf_of_writer writer hclaim
  rw [domainOf_eq_ok_iff]
  simp only [decodeBase64Url_windowOf htext, Except.ok.injEq]
  constructor
  · rintro ⟨text, iss', rfl, hiss, htrusted⟩
    rw [verifyExtendedClaim_append hclose, hmember] at hiss
    obtain rfl := Except.ok.inj hiss
    exact htrusted
  · intro htrusted
    refine ⟨_, iss, rfl, ?_, htrusted⟩
    rw [verifyExtendedClaim_append hclose, hmember]

end

/-! ## A login with Google -/

section

open Json.Compact (serde structWriter)

/-- A window from the second digit on. -/
theorem decodeBase64Url_middle : decodeBase64Url "mVlPz" (.ofNat (['Y'].length % 4)) = .ok "ee?" := by
  have h : encodeChars (Bytes.utf8 "bee?>") = ['Y'] ++ "mVlPz".toList ++ ['4'] := by decide
  exact (decodeBase64Url_eq_ok_iff h).mpr ⟨by decide, by decide⟩

def googleClaim : String := "\"iss\":\"https://accounts.google.com\""

theorem googleClaim_eq : "\x7b" ++ googleClaim ++ "\x7d" =
    structWriter.toString [("iss", .str "https://accounts.google.com")] := by decide

set_option maxRecDepth 4000 in
/-- A window that is the whole text. -/
theorem domainOf_window_google :
    domainOf serde ⟨encode (Bytes.utf8 (googleClaim ++ ",")),
      .ofNat (([] : List Char).length % 4)⟩ = .ok "www.googleapis.com" := by
  have h : encodeChars (Bytes.utf8 (googleClaim ++ ",")) =
      [] ++ (encode (Bytes.utf8 (googleClaim ++ ","))).toList ++ [] := by simp [encode]
  exact (domainOf_window_iff h).mpr ⟨by decide, googleClaim, ",", _, by decide, .inr rfl,
    memberOf_of_writer structWriter googleClaim_eq, by decide⟩

/-- The claim is followed by another one. -/
theorem domainOf_windowOf_google :
    domainOf serde
      ⟨windowOf (Bytes.utf8 "\x7b" ++ Bytes.utf8 (googleClaim ++ ",") ++ Bytes.utf8 "\"a\":1\x7d")
          (Bytes.utf8 "\x7b").length
          ((Bytes.utf8 "\x7b").length + (Bytes.utf8 (googleClaim ++ ",")).length),
        .ofNat (startOf (Bytes.utf8 "\x7b").length % 4)⟩ = .ok "www.googleapis.com" :=
  (domainOf_windowOf_iff structWriter googleClaim_eq (.inr rfl)).mpr (by decide)

end

end Issuer

end BeeEngine
