import Dm20.Lib.Memory
import Dm20.CsLib.SocketUtil

namespace IS

/-- What `SocketUtil` and the processors of the security library use of OpenSSL:
the cipher, the message authentication code, whether a station has a certificate
that the authority's certificate confirms, and the test of a signature. -/
structure OpenSSL where
  aes_128_cbc_encrypt : Str → Str → Str → Str
  aes_128_cbc_decrypt : Str → Str → Str → Str
  HMAC_sha256 : Str → Str → Str
  certificate : UInt64 → Bool
  DigestVerify : UInt64 → Str → Str → Bool

def IV_LEN : Nat := 16

def HMAC_LEN : Nat := 32

namespace OpenSSL

/-- What is documented of the library: decryption inverts encryption under the
same key and vector, a block of padding is added at most, and the code of a
message has the length of a SHA-256 digest. -/
structure Lawful (openssl : OpenSSL) : Prop where
  decrypt_encrypt : ∀ key iv s, openssl.aes_128_cbc_decrypt key iv (openssl.aes_128_cbc_encrypt key iv s) = s
  length_encrypt : ∀ key iv s, (openssl.aes_128_cbc_encrypt key iv s).length ≤ s.length + 16
  length_decrypt : ∀ key iv s, (openssl.aes_128_cbc_decrypt key iv s).length ≤ s.length
  length_HMAC : ∀ key s, (openssl.HMAC_sha256 key s).length = HMAC_LEN

/-- A signature that a station has made over some bytes: with it exactly these
bytes are accepted. -/
structure IsSignature (openssl : OpenSSL) (station : UInt64) (message sign : Str) : Prop where
  certificate : openssl.certificate station = true
  verify : ∀ message', openssl.DigestVerify station sign message' = true ↔ message' = message

end OpenSSL

/-- How a transfer of a signed packet can end without a result. -/
inductive TransferFailure where
  | runtime_error (what : String)
  | length_error
  | undefined
deriving DecidableEq, Repr

def sizeof_send_message : Nat := 64168

/-- A signed packet. The last bytes fill the object up to a multiple of eight. -/
structure authenticated_encryption_message where
  signer_station_id : UInt64
  sign_size : Int16
  sign : Memory 72
  message_size : Int16
  message : Memory sizeof_send_message
  padding : Memory 4

def sizeof_authenticated_encryption_message : Nat := 64256

private theorem short_littleEndian (x : Int16) :
    Int16.ofNat (Bytes.ofLittleEndian (Bytes.littleEndian 2 x.toUInt16.toNat)) = x := by
  rw [Bytes.ofLittleEndian_littleEndian, Nat.mod_eq_of_lt (b := 256 ^ 2) x.toUInt16.toNat_lt, ← UInt16.toInt16_ofNat',
    UInt16.ofNat_toNat]
  rfl

namespace authenticated_encryption_message

/-- The object that a signed packet is in memory. -/
def toMemory (m : authenticated_encryption_message) : Memory sizeof_authenticated_encryption_message :=
  ⟨Bytes.littleEndian 8 m.signer_station_id.toNat ++ (Bytes.littleEndian 2 m.sign_size.toUInt16.toNat ++
      (m.sign.1 ++ (Bytes.littleEndian 2 m.message_size.toUInt16.toNat ++ (m.message.1 ++ m.padding.1)))), by
    simp only [List.length_append, Bytes.length_littleEndian, m.sign.2, m.message.2, m.padding.2]
    rfl⟩

private theorem drop_sign_size (m : authenticated_encryption_message) :
    m.toMemory.1.drop 8 = Bytes.littleEndian 2 m.sign_size.toUInt16.toNat ++
      (m.sign.1 ++ (Bytes.littleEndian 2 m.message_size.toUInt16.toNat ++ (m.message.1 ++ m.padding.1))) :=
  List.drop_left' (Bytes.length_littleEndian 8 _)

private theorem drop_sign (m : authenticated_encryption_message) :
    m.toMemory.1.drop 10 =
      m.sign.1 ++ (Bytes.littleEndian 2 m.message_size.toUInt16.toNat ++ (m.message.1 ++ m.padding.1)) := by
  rw [← List.drop_drop (i := 2) (j := 8), drop_sign_size]
  exact List.drop_left' (Bytes.length_littleEndian 2 _)

private theorem drop_message_size (m : authenticated_encryption_message) :
    m.toMemory.1.drop 82 = Bytes.littleEndian 2 m.message_size.toUInt16.toNat ++ (m.message.1 ++ m.padding.1) := by
  rw [← List.drop_drop (i := 72) (j := 10), drop_sign]
  exact List.drop_left' m.sign.2

private theorem drop_message (m : authenticated_encryption_message) :
    m.toMemory.1.drop 84 = m.message.1 ++ m.padding.1 := by
  rw [← List.drop_drop (i := 2) (j := 82), drop_message_size]
  exact List.drop_left' (Bytes.length_littleEndian 2 _)

def ofMemory (m : Memory sizeof_authenticated_encryption_message) : authenticated_encryption_message where
  signer_station_id := UInt64.ofNat (Bytes.ofLittleEndian (m.field 0 8).1)
  sign_size := Int16.ofNat (Bytes.ofLittleEndian (m.field 8 2).1)
  sign := m.field 10 72
  message_size := Int16.ofNat (Bytes.ofLittleEndian (m.field 82 2).1)
  message := m.field 84 sizeof_send_message
  padding := m.field 64252 4

/-- The cleared memory of the receiver, with the first bytes of a packet in it. -/
def received (m : authenticated_encryption_message) (n : Nat) : Memory sizeof_authenticated_encryption_message :=
  (Memory.zero _).memcpy (m.toMemory.1.take n)

section Received

variable (m : authenticated_encryption_message) {n : Nat} (h : 84 ≤ n)
  (hn : n ≤ sizeof_authenticated_encryption_message)
include h hn

/-- The fields of fixed size are those of the packet whose first bytes are
received, if these bytes go beyond them. -/
theorem ofMemory_received :
    (ofMemory (m.received n)).signer_station_id = m.signer_station_id ∧
      (ofMemory (m.received n)).sign_size = m.sign_size ∧
      (ofMemory (m.received n)).message_size = m.message_size := by
  simp only [ofMemory, received]
  rw [Memory.field_zero_memcpy_of_le (by omega) hn, Memory.field_zero_memcpy_of_le (by omega) hn,
    Memory.field_zero_memcpy_of_le (by omega) hn, Memory.field_val (by decide), Memory.field_val (by decide),
    Memory.field_val (by decide), List.drop_zero, drop_sign_size, drop_message_size]
  refine ⟨?_, ?_, ?_⟩
  · rw [toMemory, List.take_left' (Bytes.length_littleEndian 8 _), Bytes.ofLittleEndian_littleEndian]
    rw [Nat.mod_eq_of_lt (b := 256 ^ 8) m.signer_station_id.toNat_lt, UInt64.ofNat_toNat]
  · rw [List.take_left' (Bytes.length_littleEndian 2 _), short_littleEndian]
  · rw [List.take_left' (Bytes.length_littleEndian 2 _), short_littleEndian]

/-- The signature is read back from behind the ten bytes of the numbers in front of it. -/
theorem sign_received {k : Nat} (hk : k ≤ 72) : ((m.received n).1.drop 10).take k = m.sign.1.take k := by
  have hin : 10 + k ≤ sizeof_authenticated_encryption_message := by
    have : 84 ≤ sizeof_authenticated_encryption_message := by decide
    omega
  rw [received, ← Memory.field_val hin, Memory.field_zero_memcpy_of_le (by omega) hn, Memory.field_val hin, drop_sign]
  exact List.take_append_of_le_length (m.sign.2.ge.trans' hk)

/-- Of the message the bytes are there that are received, and zeros for the rest. -/
theorem message_received {k : Nat} (hk : n - 84 ≤ k) (hsize : k ≤ sizeof_send_message) :
    ((m.received n).1.drop 84).take k =
      m.message.1.take (n - 84) ++ List.replicate (k - (n - 84)) (Char.ofNat 0) := by
  have hin : 84 + k ≤ sizeof_authenticated_encryption_message := by
    have : 84 + sizeof_send_message ≤ sizeof_authenticated_encryption_message := by decide
    omega
  have hlength : (m.message.1.take (n - 84)).length = n - 84 := by
    rw [List.length_take, m.message.2]
    omega
  rw [received, ← Memory.field_val hin, Memory.field_zero_memcpy h hin hn, min_eq_right hk, drop_message]
  rw [List.take_append_of_le_length (by rw [m.message.2]; omega), Memory.memcpy_zero (by omega), hlength]

end Received

end authenticated_encryption_message

namespace I2vCryptoProcessor

/-- `iv` are the random bytes, unless the generator fails. -/
def encryptThenMACMessage (openssl : OpenSSL) (iv : Option (Memory IV_LEN)) (message key : Str) :
    Except TransferFailure Str :=
  match iv with
  | none => .error (.runtime_error "RAND_bytes failed")
  | some iv =>
    let encryptedData := iv.1 ++ openssl.aes_128_cbc_encrypt key iv.1 message
    .ok (encryptedData ++ openssl.HMAC_sha256 key encryptedData)

def decryptEtMMessage (openssl : OpenSSL) (encryptedMessage key : Str) : Except TransferFailure Str := do
  if encryptedMessage.length < IV_LEN + HMAC_LEN then throw (.runtime_error "message too short")
  let encryptedDataLen := encryptedMessage.length - HMAC_LEN
  let encryptedData := encryptedMessage.take encryptedDataLen
  let receivedHMAC := encryptedMessage.drop encryptedDataLen
  if openssl.HMAC_sha256 key encryptedData ≠ receivedHMAC then throw (.runtime_error "HMAC verification failed")
  return openssl.aes_128_cbc_decrypt key (encryptedData.take IV_LEN) (encryptedData.drop IV_LEN)

end I2vCryptoProcessor

namespace I2vSignatureProcessor

/-- Signs some bytes with the key of a station, and returns the size of the
signature; a station without a key gives none. `sign` is what the key of a station
makes of the bytes. -/
def makeSignature (sign : UInt64 → Str → Option Str) (buf_str : Str) (sig : Memory 72) (src_station_id : UInt64) :
    Except TransferFailure (Nat × Memory 72) :=
  match sign src_station_id buf_str with
  | none => .ok (0, sig)
  | some s => if s.length ≤ 72 then .ok (s.length, sig.memcpy s) else .error .undefined

/-- `sign` and `message` are what is in memory from the place on that they stand
at. A negative size is a huge one for OpenSSL, which then reads beyond the packet. -/
def verifySignature (openssl : OpenSSL) (signer_station_id : UInt64) (sign_size : Int16) (sign : Str)
    (message_size : Int16) (message : Str) : Except TransferFailure Bool :=
  if openssl.certificate signer_station_id = false then .ok false
  else if sign_size < 0 ∨ message_size < 0 then .error .undefined
  else .ok (openssl.DigestVerify signer_station_id (sign.take sign_size.toInt.toNat)
    (message.take message_size.toInt.toNat))

/-- With a certificate and sizes that are not negative, the signature and the message are those
of the stated sizes. -/
private theorem verifySignature_eq {openssl : OpenSSL} {station : UInt64} (h : openssl.certificate station = true)
    {sign_size message_size : Int16} {a b : Nat} (ha : sign_size.toInt = a) (hb : message_size.toInt = b)
    (sign message : Str) :
    verifySignature openssl station sign_size sign message_size message =
      .ok (openssl.DigestVerify station (sign.take a) (message.take b)) := by
  have hsizes : ¬ (sign_size < 0 ∨ message_size < 0) := by
    rw [Int16.lt_iff_toInt_lt, Int16.lt_iff_toInt_lt, ha, hb]
    simp
  rw [verifySignature, if_neg (by rw [h]; decide), if_neg hsizes, ha, hb]
  rfl

end I2vSignatureProcessor

namespace Socket

/-- The station that a packet comes from, the first field of its header. -/
def src_station_id (buf_ : Memory sizeof_send_message) : UInt64 :=
  UInt64.ofNat (Bytes.ofLittleEndian (buf_.field 0 8).1)

/-- The signed packet for some bytes, in memory that is not initialized. -/
def signed (uninitialized : authenticated_encryption_message) (sig : Memory 72) (slen : Nat) (station : UInt64)
    (buf_str : Str) : authenticated_encryption_message :=
  { uninitialized with
    sign := sig
    signer_station_id := station
    sign_size := Int16.ofNat slen
    message_size := Int16.ofNat buf_str.length
    message := uninitialized.message.memcpy buf_str }

/-- The datagram for a packet. -/
def SendtoEtMonPki (openssl : OpenSSL) (sign : UInt64 → Str → Option Str) (iv : Option (Memory IV_LEN))
    (uninitialized : authenticated_encryption_message) (buf_ : Memory sizeof_send_message) (send_size_ : Nat)
    (aesKey : Str) : Except TransferFailure Str := do
  if sizeof_send_message < send_size_ then throw .undefined
  let buf_str := buf_.1.take send_size_
  let (slen, sig) ← I2vSignatureProcessor.makeSignature sign buf_str uninitialized.sign (src_station_id buf_)
  let ae_message := signed uninitialized sig slen (src_station_id buf_) buf_str
  let messageLength : Int := 12 + ae_message.sign_size.toInt + ae_message.message_size.toInt
  if messageLength < 0 then throw .length_error
  let message := ae_message.toMemory.1.take messageLength.toNat
  I2vCryptoProcessor.encryptThenMACMessage openssl iv message aesKey

/-- The packet in a decrypted message, if its signature is accepted: the value
returned and what the packet holds. -/
def unpack (openssl : OpenSSL) (memory : Memory sizeof_authenticated_encryption_message) :
    Except TransferFailure (Int × Memory sizeof_send_message) := do
  let buf_ := Memory.zero sizeof_send_message
  let ae_message := authenticated_encryption_message.ofMemory memory
  if ← I2vSignatureProcessor.verifySignature openssl ae_message.signer_station_id ae_message.sign_size
      (memory.1.drop 10) ae_message.message_size (memory.1.drop 84) then
    if ae_message.message_size < 0 then throw .undefined
    return (ae_message.message_size.toInt, buf_.memcpy (ae_message.message.1.take ae_message.message_size.toInt.toNat))
  return (-1, buf_)

/-- Takes in a datagram. -/
def RecvfromEtMonPki (openssl : OpenSSL) (datagram : Str) (recv_size_ : Nat) (aesKey : Str) :
    Except TransferFailure (Int × Memory sizeof_send_message) := do
  let encryptedStr := datagram.take recv_size_
  let decryptedMessage ← I2vCryptoProcessor.decryptEtMMessage openssl encryptedStr aesKey
  if sizeof_authenticated_encryption_message < decryptedMessage.length then throw .undefined
  unpack openssl ((Memory.zero sizeof_authenticated_encryption_message).memcpy decryptedMessage)

/-- With a certificate of the signer, the stated sizes decide what is taken as the signature and
as the encrypted message. -/
theorem unpack_eq {openssl : OpenSSL} {memory : Memory sizeof_authenticated_encryption_message} {a b : Nat}
    (h : openssl.certificate (authenticated_encryption_message.ofMemory memory).signer_station_id = true)
    (ha : (authenticated_encryption_message.ofMemory memory).sign_size.toInt = a)
    (hb : (authenticated_encryption_message.ofMemory memory).message_size.toInt = b) :
    unpack openssl memory =
      if openssl.DigestVerify (authenticated_encryption_message.ofMemory memory).signer_station_id
          ((memory.1.drop 10).take a) ((memory.1.drop 84).take b) then
        .ok ((b : Int), (Memory.zero sizeof_send_message).memcpy ((memory.1.drop 84).take b))
      else .ok (-1, Memory.zero sizeof_send_message) := by
  have hshort := (authenticated_encryption_message.ofMemory memory).message_size.toInt_lt
  have hb_le : b ≤ sizeof_send_message := by
    simp only [sizeof_send_message]
    omega
  have hnot : ¬ (authenticated_encryption_message.ofMemory memory).message_size < 0 := by
    rw [Int16.lt_iff_toInt_lt, hb]
    simp
  have hmessage : (authenticated_encryption_message.ofMemory memory).message.1.take b = (memory.1.drop 84).take b := by
    have hfield : (authenticated_encryption_message.ofMemory memory).message.1 = _ := Memory.field_val (by decide)
    rw [hfield, List.take_take, min_eq_left hb_le]
  rw [unpack, I2vSignatureProcessor.verifySignature_eq h ha hb]
  simp only [bind, Except.bind, hb, Int.toNat_natCast, hmessage, if_neg hnot]
  rfl

end Socket

end IS
