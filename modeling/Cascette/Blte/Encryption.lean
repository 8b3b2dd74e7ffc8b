import Cascette.Blte.Compression
import Cascette.Crypto.Arc4
import Cascette.Crypto.Salsa20

/-!
# Encryption of chunks

An encrypted chunk names its key, gives its initialisation vector and its cipher, and then has
the data. Decryption looks at the first byte of what it gets: if that is the byte of a compression
mode, the rest is decompressed. Salsa20 is given the index of the chunk, so both sides must use the
same index (`decryptChunkWithKeys_encryptChunkWithKey`).
-/

namespace Cascette.Blte

open Lib Crypto List

structure EncryptionSpec where
  keyName : UInt64
  iv : Key 4
  encryptionType : UInt8
deriving DecidableEq

/-- A store of keys: the key of a name, or the text of an error. -/
abbrev KeyStore := UInt64 → Except String (Option (Key 16))

def salsa20Type : UInt8 := 0x53

def arc4Type : UInt8 := 0x41

def compressionError (message : String) : Halt BlteError := .error (.compressionError message)

def unknownEncryption (encryptionType : UInt8) : Halt BlteError :=
  compressionError ("Unknown encryption type: 0x" ++ hexByte encryptionType)

/-- ARC4 with a new cipher, in either direction. -/
def applyArc4 (data : Bytes) (key : Key 16) : Except (Halt BlteError) Bytes :=
  match Arc4Cipher.new key.1 with
  | .error e => .error (compressionError ("ARC4 initialization failed: " ++ e.display))
  | .ok cipher => .ok (cipher.encrypt data).1

def applySalsa20 (action : String) (data : Bytes) (key : Key 16) (iv : Bytes) (blockIndex : Nat) :
    Except (Halt BlteError) Bytes :=
  (decryptSalsa20 data key iv blockIndex).mapError fun e =>
    compressionError ("Salsa20 " ++ action ++ " failed: " ++ e.display)

/-- The cipher of a type, in either direction. -/
def applyCipher (action : String) (encryptionType : UInt8) (data : Bytes) (key : Key 16)
    (iv : Bytes) (blockIndex : Nat) : Except (Halt BlteError) Bytes :=
  if encryptionType = salsa20Type then applySalsa20 action data key iv blockIndex
  else if encryptionType = arc4Type then applyArc4 data key
  else .error (unknownEncryption encryptionType)

def encryptChunkWithKey (data : Bytes) (spec : EncryptionSpec) (key : Key 16) (blockIndex : Nat) :
    Except (Halt BlteError) Bytes := do
  let encrypted ← applyCipher "encryption" spec.encryptionType data key spec.iv.1 blockIndex
  .ok ([8] ++ leBytes 8 spec.keyName.toNat ++ [4] ++ spec.iv.1 ++ [spec.encryptionType] ++
    encrypted)

/-- Sixteen upper case hexadecimal digits. -/
def hexName (name : UInt64) : String := String.ofList ((hexBytes 16 name.toNat).map fun b =>
  (Char.ofNat b.toNat).toUpper)

/-- What is behind the decrypted bytes. -/
def openPayload (lib : External) (decrypted : Bytes) : Except (Halt BlteError) Bytes :=
  match decrypted with
  | [] => .ok []
  | byte :: rest =>
    match CompressionMode.fromByte byte with
    | none => .ok (byte :: rest)
    | some .encrypted => .error (.error .nestedEncryption)
    | some mode => decompressChunk lib rest mode

def decryptChunkWithKeys (lib : External) (data : Bytes) (keyStore : KeyStore)
    (blockIndex : Nat) : Except (Halt BlteError) Bytes :=
  if data.length < 17 then
    .error (compressionError ("Encrypted chunk too short: " ++ toString data.length ++
      " bytes (minimum 17)"))
  else
    let keyNameSize := data.headD 0
    if keyNameSize ≠ 8 then
      .error (compressionError ("Invalid key name size: " ++ toString keyNameSize.toNat ++
        " (expected 8)"))
    else
      -- The key name and the size of the vector lie within the seventeen bytes.
      let keyName := UInt64.ofNat (ofLe ((data.drop 1).take 8))
      match keyStore keyName with
      | .error e => .error (compressionError ("Key lookup failed: " ++ e))
      | .ok none => .error (compressionError ("Encryption key not found: 0x" ++ hexName keyName))
      | .ok (some key) =>
        let ivSize := (data.drop 9).headD 0
        if ivSize ≠ 4 ∧ ivSize ≠ 8 then .error (.error (.invalidIvSize ivSize))
        else
          let rest := data.drop 10
          if rest.length < ivSize.toNat then
            .error (compressionError "Encrypted chunk too short for IV")
          else
            let iv := rest.take ivSize.toNat
            match rest.drop ivSize.toNat with
            | [] => .error (compressionError "Encrypted chunk too short for encryption type")
            | encryptionType :: encrypted => do
              let decrypted ← applyCipher "decryption" encryptionType encrypted key iv blockIndex
              openPayload lib decrypted

/-! ## Encrypted blocks -/

/-- The parts of an encrypted block whose key is in the store. -/
structure EncryptedBlock (keyStore : KeyStore) (data : Bytes) where
  name : Bytes
  key : Key 16
  ivSize : UInt8
  iv : Bytes
  encryptionType : UInt8
  encrypted : Bytes
  eq : data = 8 :: (name ++ ivSize :: (iv ++ encryptionType :: encrypted))
  name_length : name.length = 8
  found : keyStore (UInt64.ofNat (ofLe name)) = .ok (some key)
  iv_size : ivSize = 4 ∨ ivSize = 8
  iv_length : iv.length = ivSize.toNat
  long : 17 ≤ data.length

section Block

variable {lib : External} {keyStore : KeyStore} {data : Bytes} {i : Nat}

theorem EncryptedBlock.decrypt (block : EncryptedBlock keyStore data) :
    decryptChunkWithKeys lib data keyStore i = applyCipher "decryption" block.encryptionType
      block.encrypted block.key block.iv i >>= openPayload lib := by
  obtain ⟨name, key, ivSize, iv, type, encrypted, rfl, hName, hKey, hSize, hIv, hLong⟩ := block
  have hDrop9 : (8 :: (name ++ ivSize :: (iv ++ type :: encrypted))).drop 9 =
      ivSize :: (iv ++ type :: encrypted) := drop_left' hName
  have hDrop10 : (8 :: (name ++ ivSize :: (iv ++ type :: encrypted))).drop 10 =
      iv ++ type :: encrypted := by
    rw [← drop_drop (i := 1) (j := 9), hDrop9, drop_one, tail_cons]
  have hNot : ¬ (ivSize ≠ 4 ∧ ivSize ≠ 8) := fun h => hSize.elim h.1 h.2
  rw [decryptChunkWithKeys, if_neg (by omega)]
  dsimp only
  rw [headD_cons, if_neg (not_not.mpr rfl), drop_one, tail_cons, take_left' hName, hKey]
  dsimp only
  rw [hDrop9, hDrop10, headD_cons, if_neg hNot, ← hIv, if_neg (by rw [length_append]; omega),
    take_left' rfl, drop_left' rfl]

/-- Only an encrypted block is decrypted. -/
theorem exists_block {content : Bytes}
    (h : decryptChunkWithKeys lib data keyStore i = .ok content) :
    Nonempty (EncryptedBlock keyStore data) := by
  unfold decryptChunkWithKeys at h
  split at h
  · cases h
  next hLong =>
  dsimp only at h
  split at h
  · cases h
  next hEight =>
  split at h
  · cases h
  · cases h
  next key hKey =>
  split at h
  · cases h
  next hSize =>
  split at h
  · cases h
  next hIv =>
  split at h
  · cases h
  next type encrypted hRest =>
  have hSplit {n : Nat} (hn : n < data.length) :
      data.drop n = (data.drop n).headD 0 :: data.drop (n + 1) := by
    rw [drop_eq_getElem_cons hn, headD_cons]
  have hName : data.drop 1 = (data.drop 1).take 8 ++ data.drop 9 := by
    rw [← drop_drop (i := 8) (j := 1), take_append_drop]
  refine ⟨⟨(data.drop 1).take 8, key, (data.drop 9).headD 0,
    (data.drop 10).take ((data.drop 9).headD 0).toNat, type, encrypted, ?_, ?_, hKey, ?_, ?_,
    not_lt.mp hLong⟩⟩
  · rw [← hRest, take_append_drop, ← hSplit (by omega), ← hName, ← not_not.mp hEight]
    exact hSplit (n := 0) (by omega)
  · rw [length_take, length_drop]
    omega
  · exact or_iff_not_and_not.mpr hSize
  · rw [length_take, Nat.min_eq_left (not_lt.mp hIv)]

end Block

/-! ## Decryption of what was encrypted -/

variable {data encrypted iv payload bytes : Bytes} {key : Key 16} {action : String} {i j : Nat}
  {spec : EncryptionSpec} {type : UInt8}

theorem applyArc4_twice (h : applyArc4 data key = .ok encrypted) :
    applyArc4 encrypted key = .ok data := by
  unfold applyArc4 at h ⊢
  cases hNew : Arc4Cipher.new key.1 with
  | error e =>
    rw [hNew] at h
    cases h
  | ok cipher =>
    rw [hNew] at h
    cases h
    exact congrArg Except.ok (cipher.decrypt_encrypt data)

theorem applySalsa20_twice (hIndex : UInt32.ofNat i = UInt32.ofNat j)
    (h : applySalsa20 action data key iv i = .ok encrypted) (action' : String) :
    applySalsa20 action' encrypted key iv j = .ok data := by
  have hEncrypted : encryptSalsa20 data key iv i = .ok encrypted := by
    rw [encryptSalsa20]
    unfold applySalsa20 at h
    cases hDecrypt : decryptSalsa20 data key iv i with
    | error e =>
      rw [hDecrypt] at h
      cases h
    | ok bytes =>
      rw [hDecrypt] at h
      cases h
      rfl
  rw [applySalsa20, decryptSalsa20_encryptSalsa20 hIndex hEncrypted]
  rfl

theorem length_applyArc4 (h : applyArc4 data key = .ok encrypted) :
    encrypted.length = data.length := by
  unfold applyArc4 at h
  split at h
  · cases h
  · cases h
    exact length_applyKeystream _ _ _

theorem length_applySalsa20 (h : applySalsa20 action data key iv i = .ok encrypted) :
    encrypted.length = data.length := by
  unfold applySalsa20 decryptSalsa20 at h
  cases hNew : Salsa20Cipher.new key iv i with
  | error e =>
    rw [hNew] at h
    cases h
  | ok cipher =>
    rw [hNew] at h
    cases h
    exact length_applyKeystream _ _ _

theorem length_applyCipher (h : applyCipher action type data key iv i = .ok encrypted) :
    encrypted.length = data.length := by
  unfold applyCipher at h
  split at h
  · exact length_applySalsa20 h
  · split at h
    · exact length_applyArc4 h
    · cases h

theorem applyCipher_twice (hIndex : type = salsa20Type → UInt32.ofNat i = UInt32.ofNat j)
    (h : applyCipher action type data key iv i = .ok encrypted) (action' : String) :
    applyCipher action' type encrypted key iv j = .ok data := by
  unfold applyCipher at h ⊢
  split at h
  next hType =>
    rw [if_pos hType]
    exact applySalsa20_twice (hIndex hType) h action'
  next hType =>
    rw [if_neg hType]
    split at h
    next hArc4 =>
      rw [if_pos hArc4]
      exact applyArc4_twice h
    · cases h

/-- Salsa20 has the same index on both sides. -/
def SameIndex (spec : EncryptionSpec) (i j : Nat) : Prop :=
  spec.encryptionType = salsa20Type → UInt32.ofNat i = UInt32.ofNat j

theorem length_encryptChunkWithKey (h : encryptChunkWithKey payload spec key i = .ok bytes) :
    bytes.length = payload.length + 15 := by
  obtain ⟨encrypted, hEncrypted, h⟩ := bind_eq_ok.mp h
  cases h
  have hIv := spec.iv.2
  have hEncryptedLength := length_applyCipher hEncrypted
  simp only [length_append, length_cons, length_nil, leBytes_length]
  omega

theorem decryptChunkWithKeys_encryptChunkWithKey {lib : External}
    {keyStore : KeyStore} (hKey : keyStore spec.keyName = .ok (some key))
    (hIndex : SameIndex spec i j) (hLength : 2 ≤ payload.length)
    (h : encryptChunkWithKey payload spec key i = .ok bytes) :
    decryptChunkWithKeys lib bytes keyStore j = openPayload lib payload := by
  have hTotal := length_encryptChunkWithKey h
  obtain ⟨encrypted, hEncrypted, h⟩ := bind_eq_ok.mp h
  have hName : UInt64.ofNat (ofLe (leBytes 8 spec.keyName.toNat)) = spec.keyName := by
    rw [ofLe_leBytes_of_lt (show _ < 256 ^ 8 from spec.keyName.toNat_lt), UInt64.ofNat_toNat]
  let block : EncryptedBlock keyStore bytes :=
    { name := leBytes 8 spec.keyName.toNat
      key, ivSize := 4, iv := spec.iv.1, encryptionType := spec.encryptionType, encrypted
      eq := by simp [← Except.ok.inj h]
      name_length := leBytes_length 8 _
      found := hName.symm ▸ hKey
      iv_size := .inl rfl
      iv_length := spec.iv.2
      long := by omega }
  rw [block.decrypt, applyCipher_twice hIndex hEncrypted, ok_bind]

theorem exists_encryptChunkWithKey
    (hType : spec.encryptionType = salsa20Type ∨ spec.encryptionType = arc4Type)
    (payload : Bytes) (key : Key 16) (i : Nat) :
    ∃ bytes, encryptChunkWithKey payload spec key i = .ok bytes := by
  obtain ⟨encrypted, hEncrypted⟩ : ∃ encrypted, applyCipher "encryption" spec.encryptionType
      payload key spec.iv.1 i = .ok encrypted := by
    rcases hType with hType | hType
    · have hSize : ¬ (spec.iv.1.length ≠ 4 ∧ spec.iv.1.length ≠ 8) := fun h => h.1 spec.iv.2
      rw [applyCipher, if_pos hType, applySalsa20, decryptSalsa20, Salsa20Cipher.new, if_neg hSize]
      exact ⟨_, rfl⟩
    · have hSize : ¬ (key.1 = [] ∨ key.1.length > 256) := by
        rw [← length_eq_zero_iff, key.2]
        decide
      rw [applyCipher, if_neg (by rw [hType]; decide), if_pos hType, applyArc4, Arc4Cipher.new,
        dif_neg hSize]
      exact ⟨_, rfl⟩
  exact ⟨_, bind_eq_ok.mpr ⟨encrypted, hEncrypted, rfl⟩⟩

/-- The payload comes back as it was exactly if it has two bytes and does not begin with the byte of
a mode, or is what decompressing the rest of it gives. -/
theorem recovers_payload_iff (lib : External) (keyStore : KeyStore) (spec : EncryptionSpec)
    (key : Key 16) (i : Nat) (payload : Bytes)
    (hType : spec.encryptionType = salsa20Type ∨ spec.encryptionType = arc4Type)
    (hKey : keyStore spec.keyName = .ok (some key)) :
    (∃ bytes, encryptChunkWithKey payload spec key i = .ok bytes ∧
      decryptChunkWithKeys lib bytes keyStore i = .ok payload) ↔
    2 ≤ payload.length ∧ ∀ mode, CompressionMode.fromByte (payload.headD 0) = some mode →
      mode ≠ .encrypted ∧ decompressChunk lib payload.tail mode = .ok payload := by
  obtain ⟨bytes, hBytes⟩ := exists_encryptChunkWithKey hType payload key i
  have hSome : (∃ bytes, encryptChunkWithKey payload spec key i = .ok bytes ∧
      decryptChunkWithKeys lib bytes keyStore i = .ok payload) ↔
      decryptChunkWithKeys lib bytes keyStore i = .ok payload := by
    rw [hBytes]
    exact ⟨fun ⟨_, h, hDecrypt⟩ => Except.ok.inj h ▸ hDecrypt, fun h => ⟨bytes, rfl, h⟩⟩
  rw [hSome]
  by_cases hLength : 2 ≤ payload.length
  · rw [decryptChunkWithKeys_encryptChunkWithKey hKey (fun _ => rfl) hLength hBytes,
      and_iff_right hLength]
    obtain ⟨byte, rest, rfl⟩ := exists_cons_of_length_pos (Nat.zero_lt_of_lt hLength)
    rw [openPayload, headD_cons, tail_cons]
    cases CompressionMode.fromByte byte with
    | none => exact iff_of_true rfl fun mode h => by cases h
    | some mode => cases mode <;> simp
  · rw [decryptChunkWithKeys, if_pos (by rw [length_encryptChunkWithKey hBytes]; omega)]
    exact iff_of_false (fun h => by cases h) fun h => hLength h.1

theorem recovers_payload_sample :
    let spec : EncryptionSpec := ⟨1, .fill 4 0, salsa20Type⟩
    spec.encryptionType = salsa20Type ∧ ∀ lib i, ∃ bytes,
      encryptChunkWithKey [1, 2, 3] spec (.fill 16 0) i = .ok bytes ∧
        decryptChunkWithKeys lib bytes (fun _ => .ok (some (.fill 16 0))) i = .ok [1, 2, 3] := by
  refine ⟨rfl, fun lib i => (recovers_payload_iff lib _ _ _ i _ (.inl rfl) rfl).mpr ?_⟩
  exact ⟨by decide, fun mode h => by cases h⟩

/-- An empty payload is encrypted, but its chunk is too short to be decrypted. -/
theorem recovers_payload_refuted :
    let spec : EncryptionSpec := ⟨1, .fill 4 0, salsa20Type⟩
    ∃ bytes, encryptChunkWithKey [] spec (.fill 16 0) 0 = .ok bytes ∧
      ∀ lib, decryptChunkWithKeys lib bytes (fun _ => .ok (some (.fill 16 0))) 0 =
        .error (compressionError "Encrypted chunk too short: 15 bytes (minimum 17)") := by
  intro spec
  obtain ⟨bytes, hBytes⟩ := exists_encryptChunkWithKey
    (show spec.encryptionType = salsa20Type ∨ _ from .inl rfl) [] (.fill 16 0) 0
  have hLength : bytes.length = 15 := length_encryptChunkWithKey hBytes
  refine ⟨bytes, hBytes, fun lib => ?_⟩
  rw [decryptChunkWithKeys, if_pos (by omega), hLength]
  rfl

end Cascette.Blte
