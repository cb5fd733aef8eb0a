import Riverhog.Core.Sha256
import Riverhog.Core.Utf8

/-!
# Decryption of age files

`decrypt_age_scrypt` decrypts a complete file, `iter_decrypt_age_scrypt` a stream of
fragments of it. What the two share is a parameter: how a header is parsed and its file
key unwrapped, and the ChaCha20-Poly1305 of the `cryptography` library.
-/

namespace Riverhog.Age

open Core List

/-- `CHUNK_SIZE`. -/
def chunkSize : Nat := 64 * 1024

/-- `AEAD_TAG_SIZE`. -/
def aeadTagSize : Nat := 16

/-- `PAYLOAD_NONCE_SIZE`. -/
def payloadNonceSize : Nat := 16

/-- `FILE_KEY_SIZE`. -/
def fileKeySize : Nat := 16

/-- `max_nonfinal_len`. -/
def maxNonfinalLen : Nat := chunkSize + aeadTagSize

/-- `data.find(marker)`. -/
def find (marker : Bytes) : Bytes → Option Nat
  | [] => if marker = [] then some 0 else none
  | b :: data => if marker <+: b :: data then some 0 else (find marker data).map (· + 1)

/-- `_age_header_end`. -/
def ageHeaderEnd (data : Bytes) : Option Nat := do
  let macLineStart ← find [10, 45, 45, 45, 32] data
  let headerEnd ← find [10] (data.drop (macLineStart + 1))
  return macLineStart + 1 + headerEnd + 1

/-- `hmac.new(key, message, hashlib.sha256).digest()`. -/
def hmacSha256 (key message : Bytes) : Bytes :=
  let key := if key.length ≤ 64 then key else sha256 key
  let padded := key ++ zeros (64 - key.length)
  sha256 (padded.map (· ^^^ 0x5C) ++ sha256 (padded.map (· ^^^ 0x36) ++ message))

/-- `_hkdf_sha256`. -/
def hkdfSha256 (ikm salt info : Bytes) : Bytes :=
  hmacSha256 (hmacSha256 salt ikm) (info ++ [1])

/-- `_chunk_nonce`. -/
def chunkNonce (chunkIndex : Nat) (final : Bool) : Py Bytes := do
  require (chunkIndex < 2 ^ 88) .overflowError
  return bigEndian 11 chunkIndex ++ [if final then 1 else 0]

/-- What the decryption of a file rests on. -/
structure Context where
  /-- `parse_scrypt_header` and `_unwrap_scrypt_file_key` under the passphrase. -/
  openHeader : Bytes → Py Bytes
  /-- What `decrypt_age_scrypt` raises for an exception of the header of a file. -/
  reraise : Bytes → PyError → PyError
  /-- `ChaCha20Poly1305(key).decrypt(nonce, data, b"")`, `none` for `InvalidTag`. -/
  decrypt : Bytes → Bytes → Bytes → Option Bytes

variable (x : Context)

/-- `aead.decrypt` of one chunk, with the check that follows it. -/
def decryptChunk (key : Bytes) (chunkIndex : Nat) (final : Bool) (chunkCt : Bytes) : Py Bytes := do
  let nonce ← chunkNonce chunkIndex final
  match x.decrypt key nonce chunkCt with
  | none => .error (.valueError "age payload authentication failed")
  | some chunkPt =>
    require (final || chunkPt.length == chunkSize)
      (.valueError "non-final age payload chunk decrypted to non-64KiB plaintext")
    require (!(final && chunkPt.isEmpty && chunkIndex != 0))
      (.valueError "empty final chunk is only valid for an empty payload")
    return chunkPt

/-- The loop of `decrypt_payload_chunks` on the bytes from `offset` on. -/
def decryptFrom (key : Bytes) (chunkIndex : Nat) (ciphertext : Bytes) : Py Bytes :=
  if ciphertext = [] then .ok []
  else if ciphertext.length ≤ maxNonfinalLen then do
    require (aeadTagSize ≤ ciphertext.length)
      (.valueError "age payload chunk is shorter than the AEAD tag")
    decryptChunk x key chunkIndex true ciphertext
  else do
    let chunkPt ← decryptChunk x key chunkIndex false (ciphertext.take maxNonfinalLen)
    let rest ← decryptFrom key (chunkIndex + 1) (ciphertext.drop maxNonfinalLen)
    return chunkPt ++ rest
termination_by ciphertext.length
decreasing_by
  rw [length_drop]
  unfold maxNonfinalLen aeadTagSize at *
  omega

/-- The key of a payload, after the checks of both functions. -/
def payloadKey (fileKey payloadNonce : Bytes) : Py Bytes := do
  require (fileKey.length == fileKeySize) (.valueError "file_key must be 16 bytes")
  require (payloadNonce.length == payloadNonceSize) (.valueError "payload_nonce must be 16 bytes")
  return hkdfSha256 fileKey payloadNonce (encodeUtf8 "payload".toList)

/-- `decrypt_payload_chunks`. -/
def decryptPayloadChunks (fileKey payloadNonce ciphertext : Bytes) : Py Bytes := do
  let key ← payloadKey fileKey payloadNonce
  require (aeadTagSize ≤ ciphertext.length)
    (.valueError "age payload must include at least one final chunk tag")
  decryptFrom x key 0 ciphertext

/-- `decrypt_age_scrypt`. -/
def decryptAgeScrypt (ageFile : Bytes) : Py Bytes :=
  match ageHeaderEnd ageFile with
  | none => .error (.valueError "age header is missing MAC line")
  | some payloadOffset => do
    let fileKey ← (x.openHeader (ageFile.take payloadOffset)).mapError (x.reraise ageFile)
    require (payloadOffset + payloadNonceSize ≤ ageFile.length)
      (.valueError "age payload is missing 16-byte nonce")
    decryptPayloadChunks x fileKey ((ageFile.drop payloadOffset).take payloadNonceSize)
      (ageFile.drop (payloadOffset + payloadNonceSize))

/-! ## The stream -/

/-- The `while` loop of `iter_decrypt_payload_chunks`: what it yields, and the next index and the
buffer after it. -/
def drain (key : Bytes) (chunkIndex : Nat) (buffer : Bytes) : Py (List Bytes × Nat × Bytes) :=
  if maxNonfinalLen < buffer.length then do
    let chunkPt ← decryptChunk x key chunkIndex false (buffer.take maxNonfinalLen)
    let (yields, state) ← drain key (chunkIndex + 1) (buffer.drop maxNonfinalLen)
    return (chunkPt :: yields, state)
  else .ok ([], chunkIndex, buffer)
termination_by buffer.length
decreasing_by
  rw [length_drop]
  unfold maxNonfinalLen aeadTagSize at *
  omega

/-- The `for` loop of `iter_decrypt_payload_chunks`, and the final chunk. -/
def iterDecryptFrom (key : Bytes) (chunkIndex : Nat) (buffer : Bytes) :
    List Bytes → Py (List Bytes)
  | [] => do
    require (aeadTagSize ≤ buffer.length)
      (.valueError "age payload must include at least one final chunk tag")
    let chunkPt ← decryptChunk x key chunkIndex true buffer
    return [chunkPt]
  | chunk :: chunks =>
    if chunk = [] then iterDecryptFrom key chunkIndex buffer chunks
    else do
      let (yields, chunkIndex, buffer) ← drain x key chunkIndex (buffer ++ chunk)
      let rest ← iterDecryptFrom key chunkIndex buffer chunks
      return yields ++ rest

/-- `iter_decrypt_payload_chunks`: what it yields, if it completes. -/
def iterDecryptPayloadChunks (fileKey payloadNonce : Bytes) (chunks : List Bytes) :
    Py (List Bytes) := do
  let key ← payloadKey fileKey payloadNonce
  iterDecryptFrom x key 0 [] chunks

/-- The loops of `iter_decrypt_age_scrypt`, which read chunks until `stop` finds an end: the bytes
up to there, what was read after them, and the chunks that are left. -/
def readUntil (stop : Bytes → Option Nat) (missing : String) (start : Bytes)
    (chunks : List Bytes) : Py (Bytes × Bytes × List Bytes) :=
  match stop start, chunks with
  | some n, chunks => .ok (start.take n, start.drop n, chunks)
  | none, [] => .error (.valueError missing)
  | none, chunk :: chunks => readUntil stop missing (start ++ chunk) chunks

/-- The end of the nonce. -/
def nonceEnd (data : Bytes) : Option Nat :=
  if data.length < payloadNonceSize then none else some payloadNonceSize

/-- `iter_decrypt_age_scrypt`: what it yields, if it completes. -/
def iterDecryptAgeScrypt (chunks : List Bytes) : Py (List Bytes) := do
  let (header, start, chunks) ← readUntil ageHeaderEnd "age header is missing MAC line" [] chunks
  let fileKey ← x.openHeader header
  let (payloadNonce, start, chunks) ←
    readUntil nonceEnd "age payload is missing 16-byte nonce" start chunks
  iterDecryptPayloadChunks x fileKey payloadNonce (if start = [] then chunks else start :: chunks)

/-! ## The payload -/

variable {x} {key buffer : Bytes} {i : Nat} {chunks : List Bytes} {plaintext : Bytes}

/-- The loop of the batch starts with what the loop of the stream takes from its buffer. -/
theorem decryptFrom_append (buffer rest : Bytes) : decryptFrom x key i (buffer ++ rest) =
    drain x key i buffer >>= fun s => (decryptFrom x key s.2.1 (s.2.2 ++ rest)).map
      (s.1.flatten ++ ·) := by
  fun_induction drain x key i buffer with
  | case1 i buffer h ih =>
    have hlen : maxNonfinalLen ≤ buffer.length := h.le
    have hne : buffer ++ rest ≠ [] := append_ne_nil_of_left_ne_nil (ne_nil_of_length_pos (by omega)) _
    rw [decryptFrom, if_neg hne, if_neg (by rw [length_append]; omega),
      take_append_of_le_length hlen, drop_append_of_le_length hlen]
    cases decryptChunk x key i false (buffer.take maxNonfinalLen) with
    | error e => rfl
    | ok chunkPt =>
      simp only [ok_bind, ih]
      cases drain x key (i + 1) (buffer.drop maxNonfinalLen) with
      | error e => rfl
      | ok s =>
        simp only [ok_bind, pure, Except.pure, flatten_cons, append_assoc]
        cases decryptFrom x key s.2.1 (s.2.2 ++ rest) <;> rfl
  | case2 i buffer h =>
    change _ = (decryptFrom x key i (buffer ++ rest)).map id
    cases decryptFrom x key i (buffer ++ rest) <;> rfl

/-- What is left in the buffer is not too long, and not empty if the buffer was not. -/
theorem drain_left {s : List Bytes × Nat × Bytes}
    (h : drain x key i buffer = .ok s) :
    s.2.2.length ≤ maxNonfinalLen ∧ (buffer ≠ [] → s.2.2 ≠ []) := by
  fun_induction drain x key i buffer generalizing s with
  | case1 i buffer hlt ih =>
    obtain ⟨chunkPt, -, h⟩ := bind_eq_ok.1 h
    obtain ⟨s', hs, h⟩ := bind_eq_ok.1 h
    obtain rfl := Except.ok.inj h
    refine ⟨(ih hs).1, fun _ => (ih hs).2 (ne_nil_of_length_pos ?_)⟩
    rw [length_drop]
    omega
  | case2 i buffer hle =>
    obtain rfl := Except.ok.inj h
    exact ⟨Nat.le_of_not_lt hle, fun h => h⟩

/-- The stream of a payload from some buffer on. -/
theorem iterDecryptFrom_eq_ok (hlen : buffer.length ≤ maxNonfinalLen)
    (hne : buffer ++ chunks.flatten ≠ []) :
    (iterDecryptFrom x key i buffer chunks).map flatten = .ok plaintext ↔
      decryptFrom x key i (buffer ++ chunks.flatten) = .ok plaintext := by
  induction chunks generalizing i buffer plaintext with
  | nil =>
    rw [flatten_nil, append_nil] at hne ⊢
    rw [decryptFrom, if_neg hne, if_pos hlen]
    simp [iterDecryptFrom, map_eq_ok, bind_eq_ok, pure, Except.pure]
  | cons chunk chunks ih =>
    rw [flatten_cons] at hne ⊢
    by_cases hc : chunk = []
    · subst hc
      rw [iterDecryptFrom, if_pos rfl]
      exact ih hlen hne
    · rw [← append_assoc, decryptFrom_append, iterDecryptFrom, if_neg hc, bind_map, bind_eq_ok,
        bind_eq_ok]
      refine exists_congr fun s => and_congr_right fun hs => ?_
      obtain ⟨hle, hleft⟩ := drain_left hs
      have hne' : s.2.2 ++ chunks.flatten ≠ [] :=
        append_ne_nil_of_left_ne_nil (hleft (append_ne_nil_of_right_ne_nil _ hc)) _
      simp only [bind_map, bind_eq_ok, map_eq_ok, ← ih hle hne']
      simp [pure, Except.pure]

theorem iterDecryptFrom_nil (h : chunks.flatten = []) {yields : List Bytes} :
    iterDecryptFrom x key i [] chunks ≠ .ok yields := by
  induction chunks with
  | nil => exact fun h => nomatch h
  | cons chunk chunks ih =>
    obtain ⟨rfl, hrest⟩ := append_eq_nil_iff.1 h
    rw [iterDecryptFrom, if_pos rfl]
    exact ih hrest

theorem length_of_decryptFrom {ciphertext : Bytes} (hne : ciphertext ≠ [])
    (h : decryptFrom x key i ciphertext = .ok plaintext) : aeadTagSize ≤ ciphertext.length := by
  rw [decryptFrom, if_neg hne] at h
  split_ifs at h with hle
  · obtain ⟨_, hlen, -⟩ := bind_eq_ok.1 h
    simpa using hlen
  · unfold maxNonfinalLen at hle
    omega

/-- The stream of a payload yields what the batch returns. -/
theorem iterDecryptPayloadChunks_eq_ok {fileKey payloadNonce : Bytes} :
    (iterDecryptPayloadChunks x fileKey payloadNonce chunks).map flatten = .ok plaintext ↔
      decryptPayloadChunks x fileKey payloadNonce chunks.flatten = .ok plaintext := by
  rw [iterDecryptPayloadChunks, decryptPayloadChunks, bind_map, bind_eq_ok, bind_eq_ok]
  refine exists_congr fun key => and_congr_right fun _ => ?_
  by_cases hne : chunks.flatten = []
  · rw [hne, map_eq_ok]
    constructor
    · rintro ⟨_, h, _⟩
      exact absurd h (iterDecryptFrom_nil hne)
    · rintro ⟨⟩
  · rw [iterDecryptFrom_eq_ok (Nat.zero_le _) hne, nil_append]
    simp only [bind_eq_ok, require_eq_ok, decide_eq_true_eq]
    constructor
    · exact fun h => ⟨(), length_of_decryptFrom hne h, h⟩
    · rintro ⟨_, _, h⟩
      exact h

/-! ## The header and the nonce -/

theorem find_length {marker data : Bytes} {n : Nat} (h : find marker data = some n) :
    n + marker.length ≤ data.length := by
  fun_induction find marker data generalizing n with
  | case1 | case2 => simp_all
  | case3 b data hp =>
    obtain rfl := Option.some.inj h
    simpa using hp.length_le
  | case4 b data hp ih =>
    obtain ⟨n, hn, rfl⟩ := Option.map_eq_some_iff.1 h
    have := ih hn
    rw [length_cons]
    omega

/-- A marker that was found is found again when more bytes follow. -/
theorem find_append {marker data : Bytes} {n : Nat} (h : find marker data = some n) (more : Bytes) :
    find marker (data ++ more) = some n := by
  fun_induction find marker data generalizing n with
  | case1 => cases more <;> simp_all [find]
  | case2 => cases h
  | case3 b data hp =>
    have hlong : marker <+: b :: (data ++ more) := hp.trans (prefix_append (b :: data) more)
    rw [cons_append, find, if_pos hlong, ← h]
  | case4 b data hp ih =>
    obtain ⟨n, hn, rfl⟩ := Option.map_eq_some_iff.1 h
    have hlen := find_length hn
    rw [cons_append, find, if_neg, ih hn]
    · rfl
    · intro hlong
      apply hp
      exact prefix_of_prefix_length_le hlong ⟨more, rfl⟩ (by rw [length_cons]; omega)

theorem ageHeaderEnd_append {data : Bytes} {n : Nat} (more : Bytes)
    (h : ageHeaderEnd data = some n) : n ≤ data.length ∧ ageHeaderEnd (data ++ more) = some n := by
  obtain ⟨start, hs, h⟩ := Option.bind_eq_some_iff.1 h
  obtain ⟨stop, he, h⟩ := Option.bind_eq_some_iff.1 h
  obtain rfl := Option.some.inj h
  have hstart := find_length hs
  have hstop := find_length he
  simp only [length_drop, length_cons, length_nil] at hstart hstop
  refine ⟨by omega, ?_⟩
  rw [ageHeaderEnd, find_append hs, Option.bind_eq_bind, Option.bind_some,
    drop_append_of_le_length (by omega), find_append he]
  rfl

/-- An end that does not change when more bytes follow is the end in the complete file. -/
theorem readUntil_spec {stop : Bytes → Option Nat} {missing : String}
    (hstop : ∀ data n more, stop data = some n → n ≤ data.length ∧ stop (data ++ more) = some n)
    (start : Bytes) (chunks : List Bytes) :
    (∃ header rest left, readUntil stop missing start chunks = .ok (header, rest, left) ∧
      start ++ chunks.flatten = header ++ (rest ++ left.flatten) ∧
      stop (start ++ chunks.flatten) = some header.length) ∨
    readUntil stop missing start chunks = .error (.valueError missing) ∧
      stop (start ++ chunks.flatten) = none := by
  fun_induction readUntil stop missing start chunks with
  | case1 start n chunks hn =>
    obtain ⟨hle, happ⟩ := hstop _ _ chunks.flatten hn
    refine .inl ⟨_, _, _, rfl, ?_, ?_⟩
    · rw [← append_assoc, take_append_drop]
    · rw [happ, length_take, Nat.min_eq_left hle]
  | case2 start hn => exact .inr ⟨rfl, by simpa using hn⟩
  | case3 start chunk chunks hn ih => rwa [flatten_cons, ← append_assoc]

theorem nonceEnd_append {data : Bytes} {n : Nat} (more : Bytes) (h : nonceEnd data = some n) :
    n ≤ data.length ∧ nonceEnd (data ++ more) = some n := by
  unfold nonceEnd at h ⊢
  split_ifs at h with hlen
  obtain rfl := Option.some.inj h
  rw [length_append, if_neg (by omega)]
  exact ⟨by omega, rfl⟩

variable (x) in
/-- The stream of a file completes if and only if the batch returns, with the same plaintext. -/
theorem iterDecryptAgeScrypt_eq_ok (chunks : List Bytes) (plaintext : Bytes) :
    (iterDecryptAgeScrypt x chunks).map flatten = .ok plaintext ↔
      decryptAgeScrypt x chunks.flatten = .ok plaintext := by
  rw [iterDecryptAgeScrypt, decryptAgeScrypt]
  rcases readUntil_spec (fun _ _ => ageHeaderEnd_append) [] chunks with
    ⟨header, rest, left, hread, hwhole, hend⟩ | ⟨hread, hend⟩
  · rw [nil_append] at hwhole hend
    rw [hread, hend, ok_bind, hwhole]
    simp only [bind_map, bind_eq_ok, mapError_eq_ok, take_left, ← drop_drop, drop_left]
    refine exists_congr fun fileKey => and_congr_right fun _ => ?_
    rcases readUntil_spec (fun _ _ => nonceEnd_append) rest left with
      ⟨nonce, start, chunks, hnonce, hrest, hend⟩ | ⟨hnonce, hend⟩
    · have hlen : nonce.length = payloadNonceSize ∧
          payloadNonceSize ≤ (rest ++ left.flatten).length := by
        unfold nonceEnd at hend
        split_ifs at hend with h
        exact ⟨(Option.some.inj hend).symm, Nat.le_of_not_lt h⟩
      have hflat : (if start = [] then chunks else start :: chunks).flatten =
          start ++ chunks.flatten := by
        split_ifs with h <;> simp [h]
      rw [hnonce, hrest, ← hlen.1, take_left, drop_left, ← hflat]
      simp only [Except.ok.injEq, exists_eq_left', iterDecryptPayloadChunks_eq_ok]
      simp
    · have hlen : ¬ payloadNonceSize ≤ (rest ++ left.flatten).length := by
        unfold nonceEnd at hend
        split_ifs at hend with h
        omega
      rw [length_append] at hlen
      simp only [hnonce, length_append, Nat.add_le_add_iff_left, require_eq_ok, hlen, decide_false,
        Bool.false_eq_true, false_and, exists_const, reduceCtorEq]
  · rw [nil_append] at hend
    rw [hread, hend]
    simp [Except.map]

end Riverhog.Age
