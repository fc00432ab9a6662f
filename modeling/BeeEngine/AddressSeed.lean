import BeeEngine.LeafBinding
import BeeEngine.Lib.HexText
import BeeEngine.PasswordSalt
import BeeEngine.PoseidonLite

/-!
# Address seeds

`gen_address_seed`, which packs the bytes of each claim into field elements and
hashes them.
-/

namespace BeeEngine

open Outcome

namespace ZkLogin

def maxKeyClaimNameLength : ℕ := 32
def maxKeyClaimValueLength : ℕ := 115
def maxAudValueLength : ℕ := 145
def packWidth : ℕ := 248

/-! ## Chunks -/

/-- `bytes[start..stop]` -/
def slice (bytes : Bytes) (start stop : ℕ) : Except Failure Bytes :=
  if start ≤ stop ∧ stop ≤ bytes.length then .ok ((bytes.drop start).take (stop - start))
  else .error .panic

/-- The loop, from the index `idx` on. -/
def chunksFrom (bytes : Bytes) (chunkSize : ℕ) (hpos : 0 < chunkSize) (idx : ℕ)
    (out : List Bytes) : Except Failure (List Bytes) :=
  if idx < bytes.length then do
    let chunk ← slice bytes idx (idx + chunkSize)
    chunksFrom bytes chunkSize hpos (idx + chunkSize) (out ++ [chunk])
  else .ok out
  termination_by bytes.length - idx

/-- The remainder by a chunk size of zero panics. -/
def chunkArrayFirstShorter (bytes : Bytes) (chunkSize : ℕ) : Except Failure (List Bytes) :=
  if bytes.isEmpty then .ok []
  else if hpos : 0 < chunkSize then do
    let rem := bytes.length % chunkSize
    let first := if rem = 0 then chunkSize else rem
    let chunk ← slice bytes 0 first
    chunksFrom bytes chunkSize hpos first [chunk]
  else .error .panic

/-! ## Claims -/

/-- `bytes.resize(len, 0)` -/
def resize (bytes : Bytes) (len : ℕ) : Bytes :=
  bytes.take len ++ List.replicate (len - bytes.length) 0

def packAsciiStr (value : String) (maxSize : ℕ) : Except Failure (List ℕ) := do
  let bytes := resize (Bytes.utf8 value) maxSize
  let chunkSize := packWidth / 8
  let chunks ← chunkArrayFirstShorter bytes chunkSize
  return chunks.map Bytes.ofBeBytes

def hashAsciiStrToField (tables : PoseidonTables) (value : String) (maxSize : ℕ) :
    Except Failure ℕ :=
  if value.utf8ByteSize > maxSize then
    .error (.error ((AppError.new ("String is longer than " ++ toString maxSize ++
      " chars")).withKind "zk_login_complete"))
  else do
    let packed ← packAsciiStr value maxSize
    poseidonLiteHash tables packed

def genAddressSeed (tables : PoseidonTables) (salt : ℕ) (name value aud : String) :
    Except Failure ℕ := do
  let name ← hashAsciiStrToField tables name maxKeyClaimNameLength
  let value ← hashAsciiStrToField tables value maxKeyClaimValueLength
  let aud ← hashAsciiStrToField tables aud maxAudValueLength
  let salt ← poseidonLiteHash tables [salt]
  poseidonLiteHash tables [name, value, aud, salt]

/-! ## What is claimed -/

structure Chunked (bytes : Bytes) (chunkSize : ℕ) (chunks : List Bytes) : Prop where
  flatten : chunks.flatten = bytes
  first : ∀ chunk ∈ chunks.head?, 1 ≤ chunk.length ∧ chunk.length ≤ chunkSize
  rest : ∀ chunk ∈ chunks.tail, chunk.length = chunkSize

/-- The sizes that `gen_address_seed` asks for. -/
def maxSizes : List ℕ := [maxKeyClaimNameLength, maxKeyClaimValueLength, maxAudValueLength]

/-- The last character is not U+0000. -/
def NoTrailingNul (s : String) : Prop := s.toList.getLast? ≠ some '\x00'

/-! ## Chunks of every array -/

theorem slice_eq {bytes : Bytes} {start stop : ℕ} (h : start ≤ stop) (hstop : stop ≤ bytes.length) :
    slice bytes start stop = .ok ((bytes.drop start).take (stop - start)) := if_pos ⟨h, hstop⟩

/-- What is left is a multiple of the chunk size. -/
theorem exists_chunksFrom {bytes : Bytes} {chunkSize : ℕ} (hpos : 0 < chunkSize) (k : ℕ)
    {idx : ℕ} (hidx : bytes.length = idx + k * chunkSize) (out : List Bytes) :
    ∃ chunks, chunksFrom bytes chunkSize hpos idx out = .ok (out ++ chunks) ∧
      chunks.flatten = bytes.drop idx ∧ ∀ chunk ∈ chunks, chunk.length = chunkSize := by
  induction k generalizing idx out with
  | zero =>
      have hend : bytes.length ≤ idx := by omega
      rw [chunksFrom, if_neg (Nat.not_lt.mpr hend)]
      exact ⟨[], by simp, by simpa using hend, by simp⟩
  | succ k ih =>
      rw [Nat.succ_mul] at hidx
      have hstop : idx + chunkSize ≤ bytes.length := by omega
      have hnext : bytes.length = idx + chunkSize + k * chunkSize := by omega
      obtain ⟨chunks, hchunks, hflatten, hlength⟩ :=
        ih hnext (out ++ [(bytes.drop idx).take chunkSize])
      refine ⟨(bytes.drop idx).take chunkSize :: chunks, ?_, ?_, ?_⟩
      · rw [chunksFrom, if_pos (by omega), slice_eq (Nat.le_add_right _ _) hstop,
          Nat.add_sub_cancel_left, ok_bind, hchunks, List.append_assoc, List.singleton_append]
      · rw [List.flatten_cons, hflatten, ← List.drop_drop, List.take_append_drop]
      · refine List.forall_mem_cons.mpr ⟨?_, hlength⟩
        rw [List.length_take, List.length_drop]
        omega

/-- The first chunk takes what the others leave. -/
theorem exists_first {len chunkSize : ℕ} (hlen : 0 < len) (hpos : 0 < chunkSize) :
    ∃ first k, (if len % chunkSize = 0 then chunkSize else len % chunkSize) = first ∧
      1 ≤ first ∧ first ≤ chunkSize ∧ len = first + k * chunkSize := by
  have hdiv := Nat.div_add_mod' len chunkSize
  by_cases hrem : len % chunkSize = 0
  · have hquot : 0 < len / chunkSize :=
      Nat.div_pos (Nat.le_of_dvd hlen (Nat.dvd_of_mod_eq_zero hrem)) hpos
    have hle := Nat.mul_le_mul_right chunkSize hquot
    refine ⟨chunkSize, len / chunkSize - 1, if_pos hrem, hpos, Nat.le_refl _, ?_⟩
    rw [Nat.sub_mul, Nat.one_mul]
    omega
  · exact ⟨len % chunkSize, len / chunkSize, if_neg hrem, Nat.pos_of_ne_zero hrem,
      (Nat.mod_lt _ hpos).le, by omega⟩

theorem exists_chunked {chunkSize : ℕ} (hpos : 0 < chunkSize) (bytes : Bytes) :
    ∃ chunks, chunkArrayFirstShorter bytes chunkSize = .ok chunks ∧
      Chunked bytes chunkSize chunks := by
  rw [chunkArrayFirstShorter]
  by_cases hempty : bytes.isEmpty
  · obtain rfl := List.isEmpty_iff.mp hempty
    exact ⟨[], rfl, rfl, by simp, by simp⟩
  · have hlength : 0 < bytes.length := List.length_pos_iff.mpr fun h ↦ hempty (by simp [h])
    obtain ⟨first, k, hfirst, hone, hle, hk⟩ := exists_first hlength hpos
    have hstop : first ≤ bytes.length := by
      rw [hk]
      exact Nat.le_add_right _ _
    obtain ⟨chunks, hchunks, hflatten, hrest⟩ := exists_chunksFrom hpos k hk [bytes.take first]
    refine ⟨bytes.take first :: chunks, ?_, ?_, ?_, hrest⟩
    · simp only [if_neg hempty, dif_pos hpos, hfirst, slice_eq (Nat.zero_le _) hstop, ok_bind]
      exact hchunks
    · rw [List.flatten_cons, hflatten, List.take_append_drop]
    · rintro chunk hchunk
      obtain rfl := Option.some.inj hchunk
      rw [List.length_take, Nat.min_eq_left hstop]
      exact ⟨hone, hle⟩

/-! ## Packed claims -/

variable {maxSize : ℕ}

/-- The lengths of the chunks are known from that of the array. -/
theorem Chunked.map_length {bytes : Bytes} {chunks : List Bytes}
    (h : Chunked bytes (packWidth / 8) chunks) (hlen : 0 < bytes.length) :
    chunks.map List.length =
      ((bytes.length - 1) % 31 + 1) :: List.replicate ((bytes.length - 1) / 31) 31 := by
  cases chunks with
  | nil =>
      rw [← h.flatten] at hlen
      cases hlen
  | cons first rest =>
      have hrest : rest.map List.length = List.replicate rest.length 31 :=
        List.eq_replicate_iff.mpr ⟨List.length_map _, List.forall_mem_map.mpr h.rest⟩
      have ⟨hone, hle⟩ := h.first first rfl
      have hsum : bytes.length = first.length + rest.length * 31 := by
        rw [← h.flatten, List.length_flatten, List.map_cons, hrest, List.sum_cons,
          List.sum_replicate, smul_eq_mul]
      have hwidth : packWidth / 8 = 31 := rfl
      rw [hwidth] at hle
      have hfirst : first.length = (bytes.length - 1) % 31 + 1 := by omega
      have hcount : rest.length = (bytes.length - 1) / 31 := by omega
      rw [List.map_cons, hrest, hfirst, hcount]

/-- There is a table for each of the sizes. -/
theorem supported_of_mem {len : ℕ} (h : len ∈ maxSizes) : Supported ((len - 1) / 31 + 1) := by
  revert len
  unfold Supported
  decide

theorem length_resize {bytes : Bytes} {len : ℕ} : (resize bytes len).length = len := by
  rw [resize, List.length_append, List.length_take, List.length_replicate]
  omega

theorem eq_of_map_ofBeBytes {xs ys : List Bytes} (hlength : xs.map List.length = ys.map List.length)
    (h : xs.map Bytes.ofBeBytes = ys.map Bytes.ofBeBytes) : xs = ys := by
  induction xs generalizing ys with
  | nil => exact (List.map_eq_nil_iff.mp h.symm).symm
  | cons x xs ih =>
      cases ys with
      | nil => cases h
      | cons y ys =>
          obtain ⟨hxy, hrest⟩ := List.cons.inj h
          obtain ⟨hlen, hlengths⟩ := List.cons.inj hlength
          rw [ih hlengths hrest, ← Bytes.beBytes_ofBeBytes x, hxy, hlen, Bytes.beBytes_ofBeBytes]

theorem dropWhile_zeros {xs : Bytes} {k : ℕ} (h : xs.head? ≠ some 0) :
    (List.replicate k 0 ++ xs).dropWhile (· = 0) = xs := by
  rw [List.dropWhile_append_of_pos (by simp)]
  cases xs with
  | nil => rfl
  | cons x xs => exact List.dropWhile_cons_of_neg (by simpa using h)

/-- Padding is read back from the end. -/
theorem eq_of_append_zeros {xs ys : Bytes} {k l : ℕ} (hxs : xs.getLast? ≠ some 0)
    (hys : ys.getLast? ≠ some 0) (h : xs ++ List.replicate k 0 = ys ++ List.replicate l 0) :
    xs = ys := by
  rw [← List.head?_reverse] at hxs hys
  have hreverse := congrArg List.reverse h
  simp only [List.reverse_append, List.reverse_replicate] at hreverse
  have hdrop := congrArg (List.dropWhile (· = 0)) hreverse
  rw [dropWhile_zeros hxs, dropWhile_zeros hys] at hdrop
  exact List.reverse_injective hdrop

/-- The last byte of a text is zero only if the last character is. -/
theorem getLast?_utf8_ne {s : String} (h : NoTrailingNul s) : (Bytes.utf8 s).getLast? ≠ some 0 := by
  have hbytes : Bytes.utf8 s = s.toList.flatMap String.utf8EncodeChar := by
    rw [← Bytes.utf8_ofList, String.ofList_toList]
  rw [hbytes]
  intro hzero
  rcases List.eq_nil_or_concat s.toList with hnil | ⟨cs, c, hcs⟩
  · rw [hnil] at hzero
    cases hzero
  · rw [NoTrailingNul, hcs, List.concat_eq_append, List.getLast?_concat] at h
    rw [hcs, List.concat_eq_append, List.flatMap_append, List.flatMap_singleton,
      List.getLast?_append_of_ne_nil _ String.utf8EncodeChar_ne_nil] at hzero
    by_cases hc : c.toNat < 128
    · rw [utf8EncodeChar_of_lt hc] at hzero
      have hbyte : (UInt8.ofNat c.toNat).toNat = 0 :=
        congrArg UInt8.toNat (Option.some.inj hzero)
      rw [UInt8.toNat_ofNat', Nat.mod_eq_of_lt (hc.trans (by decide))] at hbyte
      have hnul : c = '\x00' := by rw [← Char.ofNat_toNat c, hbyte]
      exact h (congrArg some hnul)
    · have hle := le_of_mem_utf8EncodeChar (Nat.le_of_not_lt hc) (List.mem_of_getLast? hzero)
      exact absurd hle (by decide)

/-- The chunks of a claim that is not too long. -/
theorem exists_packAsciiStr (value : String) (hsize : maxSize ∈ maxSizes) :
    ∃ chunks : List Bytes, packAsciiStr value maxSize = .ok (chunks.map Bytes.ofBeBytes) ∧
      chunks.flatten = resize (Bytes.utf8 value) maxSize ∧
      chunks.map List.length =
        ((maxSize - 1) % 31 + 1) :: List.replicate ((maxSize - 1) / 31) 31 := by
  have hpos : 0 < maxSize := by
    revert maxSize
    decide
  obtain ⟨chunks, hchunks, hchunked⟩ :=
    exists_chunked (by decide : 0 < packWidth / 8) (resize (Bytes.utf8 value) maxSize)
  have hlengths := hchunked.map_length (by rwa [length_resize])
  rw [length_resize] at hlengths
  exact ⟨chunks, bind_eq_ok_iff.mpr ⟨chunks, hchunks, rfl⟩, hchunked.flatten, hlengths⟩

theorem ofBeBytes_lt_of_mem {chunks : List Bytes}
    (h : chunks.map List.length =
      ((maxSize - 1) % 31 + 1) :: List.replicate ((maxSize - 1) / 31) 31) {n : ℕ}
    (hn : n ∈ chunks.map Bytes.ofBeBytes) : n < 2 ^ packWidth := by
  obtain ⟨chunk, hchunk, rfl⟩ := List.mem_map.mp hn
  have hlength : chunk.length ≤ 31 := by
    have hmem := List.mem_map_of_mem (f := List.length) hchunk
    rw [h] at hmem
    rcases List.mem_cons.mp hmem with hfirst | hrest
    · omega
    · rw [List.eq_of_mem_replicate hrest]
  calc
    Bytes.ofBeBytes chunk < 256 ^ chunk.length := Bytes.ofBeBytes_lt chunk
    _ ≤ 256 ^ 31 := Nat.pow_le_pow_right (by decide) hlength
    _ = 2 ^ packWidth := by decide

theorem length_of_packed {chunks : List Bytes}
    (h : chunks.map List.length =
      ((maxSize - 1) % 31 + 1) :: List.replicate ((maxSize - 1) / 31) 31) :
    (chunks.map Bytes.ofBeBytes).length = (maxSize - 1) / 31 + 1 := by
  have hlength := congrArg List.length h
  simpa using hlength

/-- A claim is hashed exactly if it is not too long. -/
theorem hashAsciiStrToField_eq (tables : PoseidonTables) (value : String)
    (hsize : maxSize ∈ maxSizes) :
    (value.utf8ByteSize ≤ maxSize →
      ∃ h < bn254FieldModulus, hashAsciiStrToField tables value maxSize = .ok h) ∧
    (maxSize < value.utf8ByteSize →
      ∃ e, hashAsciiStrToField tables value maxSize = .error (.error e)) := by
  constructor
  · intro hle
    obtain ⟨chunks, hpack, -, hlengths⟩ := exists_packAsciiStr value hsize
    have hsupported : Supported (chunks.map Bytes.ofBeBytes).length := by
      rw [length_of_packed hlengths]
      exact supported_of_mem hsize
    obtain ⟨h, hlt, hhash⟩ := exists_poseidonLiteHash tables hsupported
    refine ⟨h, hlt, ?_⟩
    rw [hashAsciiStrToField, if_neg (Nat.not_lt.mpr hle), hpack, ok_bind, hhash]
  · intro hlt
    rw [hashAsciiStrToField, if_pos hlt]
    exact ⟨_, rfl⟩

theorem exists_genAddressSeed (tables : PoseidonTables) (salt : ℕ) {name value aud : String}
    (hname : name.utf8ByteSize ≤ maxKeyClaimNameLength)
    (hvalue : value.utf8ByteSize ≤ maxKeyClaimValueLength)
    (haud : aud.utf8ByteSize ≤ maxAudValueLength) :
    ∃ seed < bn254FieldModulus, genAddressSeed tables salt name value aud = .ok seed := by
  have hsizes : maxKeyClaimNameLength ∈ maxSizes ∧ maxKeyClaimValueLength ∈ maxSizes ∧
      maxAudValueLength ∈ maxSizes := by decide
  obtain ⟨hnameSize, hvalueSize, haudSize⟩ := hsizes
  obtain ⟨x, -, hx⟩ := (hashAsciiStrToField_eq tables name hnameSize).1 hname
  obtain ⟨y, -, hy⟩ := (hashAsciiStrToField_eq tables value hvalueSize).1 hvalue
  obtain ⟨z, -, hz⟩ := (hashAsciiStrToField_eq tables aud haudSize).1 haud
  obtain ⟨w, -, hw⟩ := exists_poseidonLiteHash tables (.inl (List.length_singleton (a := salt)))
  obtain ⟨seed, hlt, hseed⟩ := exists_poseidonLiteHash tables
    (.inr (.inr (.inl (rfl : [x, y, z, w].length = 4))))
  refine ⟨seed, hlt, ?_⟩
  rw [genAddressSeed, hx, ok_bind, hy, ok_bind, hz, ok_bind, hw, ok_bind, hseed]

theorem utf8_of_resize {value : String} (hle : value.utf8ByteSize ≤ maxSize) :
    ∃ k, resize (Bytes.utf8 value) maxSize = Bytes.utf8 value ++ List.replicate k 0 := by
  have hlength : (Bytes.utf8 value).length ≤ maxSize := by
    rw [Bytes.utf8, Array.length_toList]
    exact hle
  exact ⟨maxSize - (Bytes.utf8 value).length, by rw [resize, List.take_of_length_le hlength]⟩

/-- Claims within the limit that do not end in NUL are told apart by their
chunks. -/
theorem eq_of_packAsciiStr {s t : String} (hsize : maxSize ∈ maxSizes)
    (hs : s.utf8ByteSize ≤ maxSize) (ht : t.utf8ByteSize ≤ maxSize) (hsNul : NoTrailingNul s)
    (htNul : NoTrailingNul t) (h : packAsciiStr s maxSize = packAsciiStr t maxSize) : s = t := by
  obtain ⟨chunks, hpack, hflatten, hlengths⟩ := exists_packAsciiStr s hsize
  obtain ⟨chunks', hpack', hflatten', hlengths'⟩ := exists_packAsciiStr t hsize
  rw [hpack, hpack'] at h
  have hchunks := eq_of_map_ofBeBytes (hlengths.trans hlengths'.symm) (Except.ok.inj h)
  rw [← hchunks, hflatten] at hflatten'
  obtain ⟨k, hk⟩ := utf8_of_resize hs
  obtain ⟨l, hl⟩ := utf8_of_resize ht
  rw [hk, hl] at hflatten'
  exact Bytes.utf8_injective
    (eq_of_append_zeros (getLast?_utf8_ne hsNul) (getLast?_utf8_ne htNul) hflatten')

/-- Chunks cover every array; the claims of an address seed are always hashed,
unless too long, and their chunks tell them apart. -/
theorem claim_packing :
    (∀ (bytes : Bytes) (chunkSize : ℕ), 0 < chunkSize →
      ∃ chunks, chunkArrayFirstShorter bytes chunkSize = .ok chunks ∧
        Chunked bytes chunkSize chunks) ∧
    (∀ maxSize ∈ maxSizes, ∀ value, ∃ packed, packAsciiStr value maxSize = .ok packed ∧
        (∀ n ∈ packed, n < 2 ^ 248 ∧ n < bn254FieldModulus) ∧
        ∀ tables, ∃ constants, poseidonConstants tables packed.length = .ok constants) ∧
    (∀ (tables : PoseidonTables), ∀ maxSize ∈ maxSizes, ∀ value,
      (value.utf8ByteSize ≤ maxSize → ∃ h, hashAsciiStrToField tables value maxSize = .ok h) ∧
      (maxSize < value.utf8ByteSize →
        ∃ e, hashAsciiStrToField tables value maxSize = .error (.error e))) ∧
    (∀ maxSize ∈ maxSizes, ∀ s t : String, s.utf8ByteSize ≤ maxSize → t.utf8ByteSize ≤ maxSize →
      NoTrailingNul s → NoTrailingNul t → packAsciiStr s maxSize = packAsciiStr t maxSize →
      s = t) := by
  refine ⟨fun bytes chunkSize hpos ↦ exists_chunked hpos bytes, ?_, ?_, ?_⟩
  · intro maxSize hsize value
    obtain ⟨chunks, hpack, -, hlengths⟩ := exists_packAsciiStr value hsize
    refine ⟨_, hpack, fun n hn ↦ ?_, fun tables ↦ ?_⟩
    · have hlt := ofBeBytes_lt_of_mem hlengths hn
      exact ⟨hlt, hlt.trans (by decide)⟩
    · have hsupported := supported_of_mem hsize
      rw [← length_of_packed hlengths] at hsupported
      obtain ⟨constants, hconstants, -⟩ := exists_poseidonConstants tables hsupported
      exact ⟨constants, hconstants⟩
  · intro tables maxSize hsize value
    obtain ⟨hok, herror⟩ := hashAsciiStrToField_eq tables value hsize
    refine ⟨fun hle ↦ ?_, herror⟩
    obtain ⟨h, -, hhash⟩ := hok hle
    exact ⟨h, hhash⟩
  · exact fun maxSize hsize s t hs ht hsNul htNul h ↦ eq_of_packAsciiStr hsize hs ht hsNul htNul h

end ZkLogin

end BeeEngine
