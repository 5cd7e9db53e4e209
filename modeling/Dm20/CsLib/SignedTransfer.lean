import Dm20.CsLib.SignedPacket

namespace IS

namespace I2vCryptoProcessor

/-- The message carries the authentication code of what stands before it. -/
def Authentic (openssl : OpenSSL) (encryptedMessage key : Str) : Prop :=
  IV_LEN + HMAC_LEN ≤ encryptedMessage.length ∧
    openssl.HMAC_sha256 key (encryptedMessage.take (encryptedMessage.length - HMAC_LEN)) =
      encryptedMessage.drop (encryptedMessage.length - HMAC_LEN)

/-- What the cipher makes of a message. -/
def plainText (openssl : OpenSSL) (encryptedMessage key : Str) : Str :=
  openssl.aes_128_cbc_decrypt key ((encryptedMessage.take (encryptedMessage.length - HMAC_LEN)).take IV_LEN)
    ((encryptedMessage.take (encryptedMessage.length - HMAC_LEN)).drop IV_LEN)

private theorem decryptEtMMessage_of_authentic {openssl : OpenSSL} {encryptedMessage key : Str}
    (h : Authentic openssl encryptedMessage key) :
    decryptEtMMessage openssl encryptedMessage key = .ok (plainText openssl encryptedMessage key) := by
  have hnot : ¬ openssl.HMAC_sha256 key (encryptedMessage.take (encryptedMessage.length - HMAC_LEN)) ≠
      encryptedMessage.drop (encryptedMessage.length - HMAC_LEN) := not_not.mpr h.2
  simp only [decryptEtMMessage, if_neg h.1.not_gt, if_neg hnot]
  rfl

private theorem decryptEtMMessage_of_not_authentic {openssl : OpenSSL} {encryptedMessage key : Str}
    (h : ¬ Authentic openssl encryptedMessage key) :
    ∃ what, decryptEtMMessage openssl encryptedMessage key = .error (.runtime_error what) := by
  by_cases hshort : encryptedMessage.length < IV_LEN + HMAC_LEN
  · exact ⟨_, by simp only [decryptEtMMessage, if_pos hshort]; rfl⟩
  · have hcode := fun hcode => h ⟨not_lt.mp hshort, hcode⟩
    exact ⟨_, by simp only [decryptEtMMessage, if_neg hshort, if_pos hcode]; rfl⟩

/-- What was encrypted and authenticated under a key is decrypted under it again, and the
datagram is at most 64 bytes longer. -/
private theorem decryptEtMMessage_encryptThenMACMessage {openssl : OpenSSL} (hopenssl : openssl.Lawful)
    (iv : Memory IV_LEN) (message key : Str) {datagram : Str}
    (h : encryptThenMACMessage openssl (some iv) message key = .ok datagram) :
    decryptEtMMessage openssl datagram key = .ok message ∧ datagram.length ≤ message.length + 64 := by
  obtain rfl := Except.ok.inj h
  have hHMAC := hopenssl.length_HMAC key (iv.1 ++ openssl.aes_128_cbc_encrypt key iv.1 message)
  have hencrypt := hopenssl.length_encrypt key iv.1 message
  have hlength : (iv.1 ++ openssl.aes_128_cbc_encrypt key iv.1 message ++
      openssl.HMAC_sha256 key (iv.1 ++ openssl.aes_128_cbc_encrypt key iv.1 message)).length - HMAC_LEN =
      (iv.1 ++ openssl.aes_128_cbc_encrypt key iv.1 message).length := by
    simp only [List.length_append, hHMAC, Nat.add_sub_cancel]
  constructor
  · simp only [decryptEtMMessage, hlength, List.take_left, List.drop_left, List.take_left' iv.2,
      List.drop_left' iv.2, hopenssl.decrypt_encrypt]
    rw [if_neg (by rw [List.length_append, List.length_append, iv.2, hHMAC]; omega)]
    simp [pure, Except.pure]
  · rw [List.length_append, List.length_append, iv.2, hHMAC]
    simp only [IV_LEN, HMAC_LEN]
    omega

end I2vCryptoProcessor

namespace Socket

/-- The packet comes out at the receiver: the datagram built for it gives the size
that was sent, with the bytes that were sent. -/
def Arrives (openssl : OpenSSL) (sign : UInt64 → Str → Option Str) (iv : Memory IV_LEN)
    (uninitialized : authenticated_encryption_message) (buf_ : Memory sizeof_send_message) (send_size_ : Nat)
    (aesKey : Str) : Prop :=
  ∃ datagram received, SendtoEtMonPki openssl sign (some iv) uninitialized buf_ send_size_ aesKey = .ok datagram ∧
    RecvfromEtMonPki openssl datagram sizeof_send_message aesKey = .ok ((send_size_ : Int), received) ∧
    received.1.take send_size_ = buf_.1.take send_size_

section Transfer

variable {openssl : OpenSSL} {sign : UInt64 → Str → Option Str} {uninitialized : authenticated_encryption_message}
  {buf_ : Memory sizeof_send_message} {send_size_ : Nat} {s : Str}

/-- A packet is sent with a signature that its station has made over it. -/
structure Signed (openssl : OpenSSL) (sign : UInt64 → Str → Option Str) (buf_ : Memory sizeof_send_message)
    (send_size_ : Nat) (s : Str) : Prop where
  header : sizeof_send_message_header ≤ send_size_
  fits : send_size_ ≤ sizeof_send_message
  sign : sign (src_station_id buf_) (buf_.1.take send_size_) = some s
  size : s.length ≤ 72
  signature : openssl.IsSignature (src_station_id buf_) (buf_.1.take send_size_) s

/-- Nothing of the packet is lost: its size is a positive `short`, and the bytes
that a signature below 72 bytes cuts from its end are zero. -/
def Uncut (buf_ : Memory sizeof_send_message) (send_size_ : Nat) (s : Str) : Prop :=
  send_size_ < 2 ^ 15 ∧ ∀ c ∈ (buf_.1.take send_size_).drop (send_size_ - (72 - s.length)), c = Char.ofNat 0

/-- With the signature at hand, the sender hands on the prefix of the signed packet that the
stated size says, unless that size does not fit 15 bits. -/
private theorem SendtoEtMonPki_eq (hsize : send_size_ ≤ sizeof_send_message)
    (hsign : sign (src_station_id buf_) (buf_.1.take send_size_) = some s) (hs : s.length ≤ 72)
    (iv : Option (Memory IV_LEN)) (aesKey : Str) :
    SendtoEtMonPki openssl sign iv uninitialized buf_ send_size_ aesKey =
      if send_size_ < 2 ^ 15 then
        I2vCryptoProcessor.encryptThenMACMessage openssl iv
          ((signed uninitialized (uninitialized.sign.memcpy s) s.length (src_station_id buf_)
            (buf_.1.take send_size_)).toMemory.1.take (12 + s.length + send_size_)) aesKey
      else .error .length_error := by
  have hlength : (buf_.1.take send_size_).length = send_size_ := by
    rw [List.length_take, buf_.2]
    omega
  have hsign_size : (Int16.ofNat s.length).toInt = s.length := Int16.toInt_ofNat_of_lt (by omega)
  simp only [SendtoEtMonPki, I2vSignatureProcessor.makeSignature, hsign, signed, hlength]
  rw [if_neg (by omega), if_pos hs]
  simp only [bind, Except.bind]
  by_cases hshort : send_size_ < 2 ^ 15
  · have hmessage_size : (Int16.ofNat send_size_).toInt = send_size_ := Int16.toInt_ofNat_of_lt hshort
    rw [if_pos hshort, hmessage_size, hsign_size, if_neg (by omega)]
    congr 2
  · have hmessage_size : (Int16.ofNat send_size_).toInt = send_size_ - 2 ^ 16 := by
      simp only [sizeof_send_message] at hsize
      rw [Int16.toInt_ofNat', Int16.size, Int.bmod_def, if_neg (by omega)]
      omega
    rw [if_neg hshort, hmessage_size, hsign_size, if_pos (by simp only [sizeof_send_message] at hsize; omega)]
    rfl

/-- What comes out of the packet's own datagram, without the cut bytes. -/
theorem RecvfromEtMonPki_eq (hheader : 72 ≤ send_size_) (hshort : send_size_ < 2 ^ 15)
    (hs : s.length ≤ 72) (hsignature : openssl.IsSignature (src_station_id buf_) (buf_.1.take send_size_) s)
    {datagram aesKey : Str} {recv_size_ : Nat} (hdatagram : datagram.length ≤ recv_size_)
    (hdecrypt : I2vCryptoProcessor.decryptEtMMessage openssl datagram aesKey =
      .ok ((signed uninitialized (uninitialized.sign.memcpy s) s.length (src_station_id buf_)
        (buf_.1.take send_size_)).toMemory.1.take (12 + s.length + send_size_))) :
    let arrived := buf_.1.take (send_size_ - (72 - s.length)) ++ List.replicate (72 - s.length) (Char.ofNat 0)
    RecvfromEtMonPki openssl datagram recv_size_ aesKey =
      if arrived = buf_.1.take send_size_ then
        .ok ((send_size_ : Int), (Memory.zero sizeof_send_message).memcpy arrived)
      else .ok (-1, Memory.zero sizeof_send_message) := by
  intro arrived
  have hsize : send_size_ ≤ sizeof_send_message := by simp only [sizeof_send_message]; omega
  have hlength : (buf_.1.take send_size_).length = send_size_ := by
    rw [List.length_take, buf_.2]
    omega
  set m := signed uninitialized (uninitialized.sign.memcpy s) s.length (src_station_id buf_) (buf_.1.take send_size_)
  have hn : 84 ≤ 12 + s.length + send_size_ := by omega
  have hn' : 12 + s.length + send_size_ ≤ sizeof_authenticated_encryption_message := by
    simp only [sizeof_authenticated_encryption_message]
    omega
  obtain ⟨hstation, hsign_size, hmessage_size⟩ := m.ofMemory_received hn hn'
  set memory := m.received (12 + s.length + send_size_)
  have hsign_size : (authenticated_encryption_message.ofMemory memory).sign_size.toInt = s.length :=
    hsign_size ▸ Int16.toInt_ofNat_of_lt (by omega)
  have hmessage_size : (authenticated_encryption_message.ofMemory memory).message_size.toInt = send_size_ := by
    rw [hmessage_size]
    exact (congrArg (fun n => (Int16.ofNat n).toInt) hlength).trans (Int16.toInt_ofNat_of_lt hshort)
  have hsign : (memory.1.drop 10).take s.length = s := by
    rw [m.sign_received hn hn' hs]
    exact (congrArg (List.take s.length) (Memory.memcpy_val hs)).trans List.take_left
  have hmessage : (memory.1.drop 84).take send_size_ = arrived := by
    have hcopied : m.message.1 = buf_.1.take send_size_ ++ uninitialized.message.1.drop send_size_ := by
      have hcopied : m.message.1 = _ := Memory.memcpy_val (hlength.trans_le hsize)
      rwa [hlength] at hcopied
    have hcut : 12 + s.length + send_size_ - 84 = send_size_ - (72 - s.length) := by omega
    rw [m.message_received hn hn' (by omega) hsize, hcut, hcopied, List.take_append_of_le_length (by omega),
      List.take_take, min_eq_left (Nat.sub_le _ _), Nat.sub_sub_self (by omega)]
  have hlength_decrypt :
      (m.toMemory.1.take (12 + s.length + send_size_)).length ≤ sizeof_authenticated_encryption_message := by
    rw [List.length_take]
    omega
  have hcertificate :
      openssl.certificate (authenticated_encryption_message.ofMemory memory).signer_station_id = true := by
    rw [hstation]
    exact hsignature.certificate
  rw [RecvfromEtMonPki, List.take_of_length_le hdatagram, hdecrypt]
  simp only [bind, Except.bind]
  rw [if_neg hlength_decrypt.not_gt]
  refine (unpack_eq hcertificate hsign_size hmessage_size).trans ?_
  rw [hsign, hmessage, hstation]
  exact if_congr (hsignature.verify arrived) rfl rfl

/-- What comes out is what was sent where the bytes cut from the end are zero. -/
theorem append_zeros_eq_iff {t : Str} {n k : Nat} (ht : t.length = n) (hk : k ≤ n) :
    t.take (n - k) ++ List.replicate k (Char.ofNat 0) = t ↔ ∀ c ∈ t.drop (n - k), c = Char.ofNat 0 := by
  have hlength : (t.drop (n - k)).length = k := by
    rw [List.length_drop]
    omega
  have hsplit : t.take (n - k) ++ List.replicate k (Char.ofNat 0) = t ↔ List.replicate k (Char.ofNat 0) =
    t.drop (n - k) := by
    have hparts : t = t.take (n - k) ++ t.drop (n - k) := (List.take_append_drop _ _).symm
    exact ⟨fun h => List.append_cancel_left (h.trans hparts), fun h => h ▸ hparts.symm⟩
  rw [hsplit, eq_comm, List.eq_replicate_iff]
  exact and_iff_right hlength

/-- A signed packet arrives as it was sent exactly if its tail is not cut. -/
private theorem arrives_iff (hopenssl : openssl.Lawful) (h : Signed openssl sign buf_ send_size_ s) (iv : Memory IV_LEN)
    (aesKey : Str) :
    Arrives openssl sign iv uninitialized buf_ send_size_ aesKey ↔ Uncut buf_ send_size_ s := by
  have hheader : 168 ≤ send_size_ := h.header
  have hlength : (buf_.1.take send_size_).length = send_size_ := by
    rw [List.length_take, buf_.2]
    exact min_eq_left h.fits
  have hsend : SendtoEtMonPki openssl sign (some iv) uninitialized buf_ send_size_ aesKey = _ :=
    SendtoEtMonPki_eq h.fits h.sign h.size (some iv) aesKey
  by_cases hshort : send_size_ < 2 ^ 15
  · rw [if_pos hshort] at hsend
    obtain ⟨datagram, hdatagram⟩ : ∃ datagram,
      SendtoEtMonPki openssl sign (some iv) uninitialized buf_ send_size_ aesKey =
        .ok datagram := ⟨_, hsend⟩
    obtain ⟨hdecrypt, hdatagram_length⟩ :=
      I2vCryptoProcessor.decryptEtMMessage_encryptThenMACMessage hopenssl iv _ aesKey (hsend.symm.trans hdatagram)
    have hfits : datagram.length ≤ sizeof_send_message := by
      rw [List.length_take] at hdatagram_length
      have := h.size
      simp only [sizeof_send_message]
      omega
    have hreceive := RecvfromEtMonPki_eq (by omega) hshort h.size h.signature hfits hdecrypt
    have hcut : buf_.1.take (send_size_ - (72 - s.length)) =
        (buf_.1.take send_size_).take (send_size_ - (72 - s.length)) := by
      rw [List.take_take, min_eq_left (Nat.sub_le _ _)]
    simp only [hcut] at hreceive
    have hsame := append_zeros_eq_iff hlength (k := 72 - s.length) (by omega)
    by_cases hzeros : ∀ c ∈ (buf_.1.take send_size_).drop (send_size_ - (72 - s.length)), c = Char.ofNat 0
    · rw [hsame.mpr hzeros, if_pos rfl] at hreceive
      refine iff_of_true ⟨datagram, _, hdatagram, hreceive, ?_⟩ ⟨hshort, hzeros⟩
      rw [Memory.memcpy_val (hlength.trans_le h.fits)]
      exact List.take_left' hlength
    · rw [if_neg (hsame.not.mpr hzeros)] at hreceive
      refine iff_of_false ?_ fun huncut => hzeros huncut.2
      rintro ⟨datagram', received, hdatagram', hreceived, -⟩
      cases hdatagram.symm.trans hdatagram'
      have hsize := congrArg Prod.fst (Except.ok.inj (hreceive.symm.trans hreceived))
      simp only at hsize
      omega
  · rw [if_neg hshort] at hsend
    constructor
    · rintro ⟨datagram, received, hdatagram, -⟩
      cases hsend.symm.trans hdatagram
    · exact fun huncut => absurd huncut.1 hshort

end Transfer

section Rejection

/-- What a decrypted message holds, in the cleared memory of the receiver. -/
def opened (openssl : OpenSSL) (datagram aesKey : Str) : Memory sizeof_authenticated_encryption_message :=
  (Memory.zero _).memcpy (I2vCryptoProcessor.plainText openssl datagram aesKey)

/-- The datagram decrypts, and its signature is accepted. -/
def Accepted (openssl : OpenSSL) (datagram aesKey : Str) : Prop :=
  I2vCryptoProcessor.Authentic openssl datagram aesKey ∧ ∃ received, 0 ≤ received.1 ∧
    unpack openssl (opened openssl datagram aesKey) = .ok received

/-- The datagram is turned down with the value that stands for a failure. -/
def Rejects (openssl : OpenSSL) (datagram aesKey : Str) : Prop :=
  (RecvfromEtMonPki openssl datagram sizeof_send_message aesKey).map Prod.fst = .ok (-1)

/-- Where the signer has a certificate neither of the two sizes is negative. -/
def Sized (openssl : OpenSSL) (memory : Memory sizeof_authenticated_encryption_message) : Prop :=
  openssl.certificate (authenticated_encryption_message.ofMemory memory).signer_station_id = true →
    0 ≤ (authenticated_encryption_message.ofMemory memory).sign_size ∧
      0 ≤ (authenticated_encryption_message.ofMemory memory).message_size

variable {openssl : OpenSSL}

/-- A negative size makes the unpacking undefined. -/
private theorem unpack_of_not_sized {memory : Memory sizeof_authenticated_encryption_message}
    (h : ¬ Sized openssl memory) :
    unpack openssl memory = .error .undefined := by
  obtain ⟨hcertificate, hsizes⟩ := Classical.not_imp.mp h
  have hnegative : (authenticated_encryption_message.ofMemory memory).sign_size < 0 ∨
      (authenticated_encryption_message.ofMemory memory).message_size < 0 := by
    rw [not_and_or, Int16.not_le, Int16.not_le] at hsizes
    exact hsizes
  rw [unpack, I2vSignatureProcessor.verifySignature, if_neg (by rw [hcertificate]; decide), if_pos hnegative]
  rfl

/-- With sizes that are not negative a packet comes out, or it is turned down. -/
theorem unpack_of_sized {memory : Memory sizeof_authenticated_encryption_message} (h : Sized openssl memory) :
    (∃ received, 0 ≤ received.1 ∧ unpack openssl memory = .ok received) ∨
      unpack openssl memory = .ok (-1, Memory.zero sizeof_send_message) := by
  by_cases hcertificate :
      openssl.certificate (authenticated_encryption_message.ofMemory memory).signer_station_id = true
  · obtain ⟨hsign, hmessage⟩ := h hcertificate
    obtain ⟨a, ha⟩ := Int.eq_ofNat_of_zero_le (Int16.le_iff_toInt_le.mp hsign)
    obtain ⟨b, hb⟩ := Int.eq_ofNat_of_zero_le (Int16.le_iff_toInt_le.mp hmessage)
    rw [unpack_eq hcertificate ha hb]
    split
    · exact .inl ⟨_, Int.natCast_nonneg b, rfl⟩
    · exact .inr rfl
  · right
    rw [unpack, I2vSignatureProcessor.verifySignature, if_pos (Bool.eq_false_iff.mpr hcertificate)]
    rfl

/-- A datagram with the right code is what it decrypts to. -/
theorem RecvfromEtMonPki_of_authentic (hopenssl : openssl.Lawful) {datagram aesKey : Str}
    (h : I2vCryptoProcessor.Authentic openssl (datagram.take sizeof_send_message) aesKey) :
    RecvfromEtMonPki openssl datagram sizeof_send_message aesKey =
      unpack openssl (opened openssl (datagram.take sizeof_send_message) aesKey) := by
  have hplain : (I2vCryptoProcessor.plainText openssl (datagram.take sizeof_send_message) aesKey).length ≤
      sizeof_authenticated_encryption_message := by
    refine (hopenssl.length_decrypt _ _ _).trans ?_
    simp only [List.length_drop, List.length_take, sizeof_send_message, sizeof_authenticated_encryption_message]
    omega
  rw [RecvfromEtMonPki, I2vCryptoProcessor.decryptEtMMessage_of_authentic h]
  simp only [bind, Except.bind]
  rw [if_neg hplain.not_gt]
  rfl

/-- A datagram that is not accepted is turned down with the value for a failure exactly if it is
authentic and, where its signer has a certificate, states no negative size. -/
private theorem rejects_iff (hopenssl : openssl.Lawful) {datagram aesKey : Str}
    (hnot : ¬ Accepted openssl (datagram.take sizeof_send_message) aesKey) :
    Rejects openssl datagram aesKey ↔
      I2vCryptoProcessor.Authentic openssl (datagram.take sizeof_send_message) aesKey ∧
        Sized openssl (opened openssl (datagram.take sizeof_send_message) aesKey) := by
  by_cases hauthentic : I2vCryptoProcessor.Authentic openssl (datagram.take sizeof_send_message) aesKey
  · rw [Rejects, RecvfromEtMonPki_of_authentic hopenssl hauthentic, and_iff_right hauthentic]
    by_cases hsized : Sized openssl (opened openssl (datagram.take sizeof_send_message) aesKey)
    · obtain ⟨received, hnonneg, hunpack⟩ | hunpack := unpack_of_sized hsized
      · exact absurd ⟨hauthentic, received, hnonneg, hunpack⟩ hnot
      · rw [hunpack]
        exact iff_of_true rfl hsized
    · rw [unpack_of_not_sized hsized]
      exact iff_of_false (by rintro ⟨⟩) hsized
  · obtain ⟨what, hdecrypt⟩ := I2vCryptoProcessor.decryptEtMMessage_of_not_authentic hauthentic
    rw [Rejects, RecvfromEtMonPki, hdecrypt]
    exact iff_of_false (by rintro ⟨⟩) fun h => hauthentic h.1

/-- What is turned down is not accepted. -/
theorem Rejects.not_accepted (hopenssl : openssl.Lawful) {datagram aesKey : Str} (h : Rejects openssl datagram aesKey) :
    ¬ Accepted openssl (datagram.take sizeof_send_message) aesKey := by
  rintro ⟨hauthentic, received, hnonneg, hunpack⟩
  rw [Rejects, RecvfromEtMonPki_of_authentic hopenssl hauthentic, hunpack] at h
  have hnegative : received.1 = -1 := Except.ok.inj h
  omega

end Rejection

/-- A packet arrives unchanged exactly where its size is a `short` and nothing is
cut from its end but zeros; and a datagram that does not decrypt or verify is
turned down, without an exception, exactly where its authentication code is right
and a signer with a certificate gives no negative size. -/
theorem etMonPki_iff {openssl : OpenSSL} (hopenssl : openssl.Lawful) (aesKey : Str) :
    (∀ sign iv uninitialized buf_ send_size_ s, Signed openssl sign buf_ send_size_ s →
      (Arrives openssl sign iv uninitialized buf_ send_size_ aesKey ↔ Uncut buf_ send_size_ s)) ∧
    ∀ datagram : Str, ¬ Accepted openssl (datagram.take sizeof_send_message) aesKey →
      (Rejects openssl datagram aesKey ↔
        I2vCryptoProcessor.Authentic openssl (datagram.take sizeof_send_message) aesKey ∧
          Sized openssl (opened openssl (datagram.take sizeof_send_message) aesKey)) :=
  ⟨fun _ iv _ _ _ _ h => arrives_iff hopenssl h iv aesKey, fun _ hnot => rejects_iff hopenssl hnot⟩

/-- A packet of one byte, sent from the station 5 to the station 1: the signature of its
sender, what the cipher makes of the signed packet, and the code of that. -/
structure Sample where
  payload : Char
  sign : Str
  cipher : Str
  code : Str

namespace Sample

def header : Str :=
  (5 :: List.replicate 7 0 ++ 1 :: List.replicate 11 0 ++ 1 :: List.replicate 147 0).map Bytes.toChar

def text (x : Sample) : Str :=
  header ++ [x.payload]

/-- The signed packet as far as it is sent: the signature is one byte shorter than its
place, so that the payload is cut. -/
def message (x : Sample) : Str :=
  Bytes.littleEndian 8 5 ++ Bytes.littleEndian 2 71 ++ x.sign ++ [Char.ofNat 0] ++ Bytes.littleEndian 2 169 ++ header

def aesKey : Str :=
  "0123456789abcdef".toList

def iv : Memory IV_LEN :=
  ⟨(List.range 16).map Char.ofNat, rfl⟩

def datagram (x : Sample) : Str :=
  iv.1 ++ x.cipher ++ x.code

def buf (x : Sample) : Memory sizeof_send_message :=
  (Memory.zero _).memcpy x.text

/-- A packet whose byte is zero. -/
def zero : Sample where
  payload := Char.ofNat 0
  sign :=
    [48, 69, 2, 32, 84, 114, 206, 143, 247, 100, 21, 237, 100, 130, 253, 155, 93, 24, 238, 90, 5, 185, 164,
      210, 240, 126, 5, 136, 249, 168, 209, 140, 127, 18, 93, 3, 2, 33, 0, 146, 123, 119, 78, 130, 90, 241, 46,
      199, 227, 130, 189, 76, 135, 149, 99, 73, 128, 164, 221, 235, 232, 58, 43, 180, 235, 188, 221, 43, 222,
      244, 148].map Bytes.toChar
  cipher :=
    [245, 203, 113, 90, 116, 36, 83, 36, 76, 25, 241, 37, 231, 74, 225, 230, 233, 93, 131, 72, 116, 19, 49,
      142, 192, 103, 54, 104, 244, 218, 89, 170, 162, 205, 178, 144, 147, 247, 189, 165, 30, 3, 82, 53, 251,
      241, 151, 137, 83, 168, 68, 48, 133, 72, 128, 31, 128, 225, 111, 121, 19, 70, 157, 67, 70, 127, 71, 197,
      102, 141, 162, 60, 190, 112, 90, 110, 2, 252, 98, 69, 143, 176, 154, 163, 70, 93, 132, 180, 81, 89, 51,
      179, 116, 220, 174, 203, 221, 71, 58, 131, 42, 16, 237, 147, 224, 11, 200, 33, 210, 117, 162, 98, 102,
      187, 51, 29, 248, 179, 7, 79, 107, 201, 69, 248, 37, 223, 102, 120, 40, 33, 252, 199, 149, 251, 84, 150,
      90, 59, 138, 246, 183, 153, 209, 134, 46, 164, 254, 63, 84, 210, 186, 66, 134, 121, 159, 134, 214, 177,
      74, 190, 232, 101, 175, 95, 181, 85, 251, 142, 246, 27, 239, 58, 136, 186, 212, 146, 244, 88, 205, 241,
      103, 251, 35, 71, 32, 221, 252, 171, 91, 29, 193, 51, 209, 131, 116, 82, 99, 124, 102, 177, 131, 68, 209,
      250, 255, 127, 124, 153, 164, 170, 77, 186, 116, 224, 155, 190, 50, 187, 48, 86, 9, 160, 11, 65, 115,
      129, 151, 75, 36, 193, 34, 131, 129, 251, 57, 193, 162, 13, 64, 15, 120, 155, 148, 88, 93, 108, 74, 184,
      220, 100, 52, 69, 60, 146, 42, 94].map Bytes.toChar
  code :=
    [95, 200, 216, 232, 81, 119, 195, 88, 167, 235, 119, 17, 35, 134, 85, 145, 50, 123, 235, 105, 207, 179,
      233, 177, 45, 240, 157, 99, 111, 27, 27, 106].map Bytes.toChar

/-- A packet whose byte is a letter. -/
def letter : Sample where
  payload := 'k'
  sign :=
    [48, 69, 2, 33, 0, 210, 210, 73, 26, 220, 181, 83, 205, 77, 70, 254, 136, 179, 145, 94, 149, 209, 155, 19,
      142, 166, 89, 236, 117, 75, 65, 170, 146, 0, 39, 107, 156, 2, 32, 66, 200, 9, 20, 139, 219, 31, 209, 248,
      127, 104, 78, 53, 217, 174, 146, 210, 220, 19, 100, 196, 185, 89, 189, 141, 91, 240, 31, 74,
      156, 90, 96].map Bytes.toChar
  cipher :=
    [212, 8, 6, 108, 159, 94, 181, 245, 29, 113, 11, 75, 68, 29, 165, 34, 188, 167, 152, 6, 21, 88, 0, 116,
      200, 88, 179, 115, 176, 5, 159, 228, 65, 43, 163, 31, 227, 69, 202, 85, 100, 47, 140, 133, 171, 174, 141,
      124, 246, 48, 135, 15, 36, 60, 220, 89, 38, 30, 111, 78, 225, 207, 156, 121, 154, 140, 228, 7, 42, 145,
      112, 219, 234, 106, 74, 40, 203, 69, 233, 113, 154, 18, 10, 223, 122, 218, 106, 21, 0, 23, 188, 7, 182,
      154, 85, 63, 111, 198, 14, 67, 91, 95, 21, 136, 162, 67, 111, 191, 244, 130, 37, 115, 52, 206, 225, 219,
      46, 115, 225, 184, 73, 246, 41, 226, 42, 112, 177, 54, 40, 52, 176, 251, 4, 123, 53, 108, 27, 176, 17,
      166, 10, 200, 15, 104, 234, 247, 10, 156, 94, 64, 150, 37, 58, 242, 16, 186, 254, 140, 80, 3, 39, 157,
      238, 45, 15, 176, 88, 88, 242, 73, 70, 84, 118, 76, 133, 64, 28, 174, 198, 99, 218, 79, 6, 181, 150, 78,
      5, 232, 155, 155, 130, 148, 186, 240, 1, 69, 87, 48, 100, 71, 67, 219, 169, 165, 24, 102, 54, 168, 46,
      111, 175, 59, 252, 241, 127, 96, 60, 95, 0, 243, 48, 168, 219, 16, 132, 6, 173, 81, 38, 253, 97, 221,
      248, 208, 66, 66, 6, 167, 58, 249, 43, 7, 64, 151, 47, 220, 26, 27, 198, 226, 187, 246, 158,
      142, 100, 49].map Bytes.toChar
  code :=
    [102, 87, 84, 42, 7, 51, 143, 236, 144, 137, 75, 182, 225, 34, 134, 201, 0, 115, 122, 194, 39, 54, 216,
      131, 192, 66, 93, 174, 38, 137, 15, 19].map Bytes.toChar

def samples : List Sample :=
  [zero, letter]

def encipher (s : Str) : Str :=
  (samples.find? fun x => x.message = s).elim (s ++ [Char.ofNat 0]) cipher

def decipher (s : Str) : Str :=
  (samples.find? fun x => x.cipher = s).elim s.dropLast message

/-- What OpenSSL does with the two packets. Other texts are given a byte at the end, and
it is taken away again. -/
def openssl : OpenSSL where
  aes_128_cbc_encrypt key iv' s := if key = aesKey ∧ iv' = iv.1 then encipher s else s ++ [Char.ofNat 0]
  aes_128_cbc_decrypt key iv' s := if key = aesKey ∧ iv' = iv.1 then decipher s else s.dropLast
  HMAC_sha256 key s :=
    ((if key = aesKey then samples else []).find? fun x => iv.1 ++ x.cipher = s).elim
      (List.replicate HMAC_LEN (Char.ofNat 0)) code
  certificate station := decide (station = 5)
  DigestVerify station sign s := decide (station = 5) && samples.any fun x => x.sign = sign && x.text = s

/-- The signatures that the station 5 makes. -/
def signature (station : UInt64) (s : Str) : Option Str :=
  if station = 5 then (samples.find? fun x => x.text = s).map Sample.sign else none

/-- The memory that the signed packet is built in. -/
def cleared : authenticated_encryption_message :=
  authenticated_encryption_message.ofMemory (Memory.zero _)

private theorem cipher_spec :
    ∀ x ∈ samples, x.cipher.length ≤ x.message.length + 16 ∧ x.message.length ≤ x.cipher.length ∧
    x.cipher.getLast? ≠ some (Char.ofNat 0) ∧ x.code.length = HMAC_LEN ∧
    ∀ x' ∈ samples, x.cipher = x'.cipher → x.message = x'.message := by
  decide +kernel

private theorem find_spec {xs : List Sample} {p : Sample → Str} {s : Str} {x : Sample}
    (h : xs.find? (fun x => p x = s) = some x) : x ∈ xs ∧ p x = s :=
  ⟨List.mem_of_find?_eq_some h, by simpa using List.find?_some h⟩

/-- The cipher of the samples is undone by its inverse. -/
private theorem decipher_encipher (s : Str) : decipher (encipher s) = s := by
  cases hmessage : samples.find? (fun x => x.message = s) with
  | none =>
    have hnone : samples.find? (fun x => x.cipher = s ++ [Char.ofNat 0]) = none := by
      rw [List.find?_eq_none]
      intro x hx hcipher
      refine (cipher_spec x hx).2.2.1 ?_
      rw [of_decide_eq_true hcipher, List.getLast?_concat]
    rw [encipher, hmessage, Option.elim_none, decipher, hnone, Option.elim_none, List.dropLast_concat]
  | some x =>
    obtain ⟨hx, hmessage'⟩ := find_spec hmessage
    rw [encipher, hmessage, Option.elim_some]
    cases hcipher : samples.find? (fun x' => x'.cipher = x.cipher) with
    | none => exact absurd (decide_eq_true rfl) (List.find?_eq_none.mp hcipher x hx)
    | some x' =>
      obtain ⟨hx', hsame⟩ := find_spec hcipher
      rw [decipher, hcipher, Option.elim_some, (cipher_spec x' hx').2.2.2.2 x hx hsame, hmessage']

/-- The library that the samples are run with keeps the laws that are asked of OpenSSL. -/
private theorem openssl_lawful : openssl.Lawful where
  decrypt_encrypt key iv' s := by
    by_cases hkey : key = aesKey ∧ iv' = iv.1
    · simp only [openssl, if_pos hkey, decipher_encipher]
    · simp only [openssl, if_neg hkey, List.dropLast_concat]
  length_encrypt key iv' s := by
    simp only [openssl, encipher]
    split
    · cases hmessage : samples.find? (fun x => x.message = s) with
      | none => simp
      | some x =>
        obtain ⟨hx, rfl⟩ := find_spec hmessage
        exact (cipher_spec x hx).1
    · simp
  length_decrypt key iv' s := by
    simp only [openssl, decipher]
    split
    · cases hcipher : samples.find? (fun x => x.cipher = s) with
      | none => simp
      | some x =>
        obtain ⟨hx, rfl⟩ := find_spec hcipher
        exact (cipher_spec x hx).2.1
    · simp
  length_HMAC key s := by
    simp only [openssl]
    cases hcode : (if key = aesKey then samples else []).find? (fun x => iv.1 ++ x.cipher = s) with
    | none => exact List.length_replicate
    | some x =>
      have hx := List.mem_of_find?_eq_some hcode
      split at hx
      · exact (cipher_spec x hx).2.2.2.1
      · cases hx

private theorem sign_spec : ∀ x ∈ samples, x.sign.length = 71 ∧ x.text.length = 169 ∧ signature 5 x.text = some x.sign ∧
    x.text.take 8 = Bytes.littleEndian 8 5 ∧ ∀ x' ∈ samples, x'.sign = x.sign → x'.text = x.text := by
  decide +kernel

private theorem take_buf {x : Sample} (hx : x ∈ samples) {n : Nat} (hn : n ≤ 169) : x.buf.1.take n = x.text.take n := by
  obtain ⟨-, hlength, -⟩ := sign_spec x hx
  rw [buf, Memory.memcpy_val (by rw [hlength]; decide), List.take_append_of_le_length (by omega)]

/-- Each sample is signed by the signature that the library finds for it. -/
private theorem signed_sample {x : Sample} (hx : x ∈ samples) : Signed openssl signature x.buf 169 x.sign := by
  obtain ⟨hsign, hlength, hsignature, hstation, hother⟩ := sign_spec x hx
  have htext : x.buf.1.take 169 = x.text := by
    rw [take_buf hx le_rfl, List.take_of_length_le hlength.le]
  have hfive : src_station_id x.buf = 5 := by
    rw [src_station_id, Memory.field_val (by decide), List.drop_zero, take_buf hx (by decide), hstation]
    rfl
  refine ⟨by decide, by decide, ?_, by omega, ?_⟩
  · rw [hfive, htext, hsignature]
  · rw [hfive, htext]
    refine ⟨rfl, fun message' => ?_⟩
    simp only [openssl, decide_true, Bool.true_and, List.any_eq_true, Bool.and_eq_true, decide_eq_true_eq]
    constructor
    · rintro ⟨x', hx', hsame, rfl⟩
      exact hother x' hx' hsame
    · rintro rfl
      exact ⟨x, hx, rfl, rfl⟩

/-- The datagram of a packet as the sender builds it. -/
theorem sent : ∀ x ∈ samples, SendtoEtMonPki openssl signature (some iv) cleared x.buf 169 aesKey = .ok x.datagram := by
  decide +kernel

/-- The datagram with another last byte of the code. -/
def tampered (x : Sample) : Str :=
  x.datagram.dropLast ++ [Char.ofNat 0]

private theorem not_authentic_tampered :
    ¬ I2vCryptoProcessor.Authentic openssl (zero.tampered.take sizeof_send_message) aesKey := by
  have hcode : openssl.HMAC_sha256 aesKey ((zero.tampered.take sizeof_send_message).take
      ((zero.tampered.take sizeof_send_message).length - HMAC_LEN)) ≠
        (zero.tampered.take sizeof_send_message).drop ((zero.tampered.take sizeof_send_message).length - HMAC_LEN) := by
    decide +kernel
  exact fun h => hcode h.2

private theorem rejects_letter : Rejects openssl letter.datagram aesKey := by
  unfold Rejects
  decide +kernel

end Sample

open Sample

/-- The packet whose last byte is zero arrives, the other one does not. Its datagram is turned
down, having the right code; one with another code is not. -/
theorem etMonPki_iff_samples :
    Arrives openssl signature iv cleared zero.buf 169 aesKey ∧
      ¬ Arrives openssl signature iv cleared letter.buf 169 aesKey ∧
      SendtoEtMonPki openssl signature (some iv) cleared letter.buf 169 aesKey = .ok letter.datagram ∧
      Sized openssl (opened openssl (letter.datagram.take sizeof_send_message) aesKey) ∧
      ¬ Rejects openssl zero.tampered aesKey := by
  obtain ⟨harrives, hrejects⟩ := etMonPki_iff openssl_lawful aesKey
  have hzero : (zero.buf.1.take 169).drop (169 - (72 - zero.sign.length)) = [Char.ofNat 0] := by decide +kernel
  have hletter : (letter.buf.1.take 169).drop (169 - (72 - letter.sign.length)) = ['k'] := by decide +kernel
  refine ⟨?_, ?_, sent letter (List.mem_cons_of_mem _ List.mem_cons_self), ?_, ?_⟩
  · refine (harrives _ _ _ _ _ _ (signed_sample List.mem_cons_self)).mpr ⟨by decide, ?_⟩
    rw [hzero, List.forall_mem_singleton]
  · rw [harrives _ _ _ _ _ _ (signed_sample (List.mem_cons_of_mem _ List.mem_cons_self)), Uncut, hletter,
      List.forall_mem_singleton]
    decide
  · exact ((hrejects _ (rejects_letter.not_accepted openssl_lawful)).mp rejects_letter).2
  · intro h
    exact not_authentic_tampered ((hrejects _ fun haccepted => not_authentic_tampered haccepted.1).mp h).1

/-- The packet whose last byte is a letter does not arrive, and the datagram with a wrong code
ends in an exception. -/
theorem shortSignature_not_exact :
    openssl.Lawful ∧ Signed openssl signature letter.buf 169 letter.sign ∧
      ¬ Arrives openssl signature iv cleared letter.buf 169 aesKey ∧
      ¬ Accepted openssl (zero.tampered.take sizeof_send_message) aesKey ∧
      RecvfromEtMonPki openssl zero.tampered sizeof_send_message aesKey =
        .error (.runtime_error "HMAC verification failed") := by
  have hsigned : Signed openssl signature letter.buf 169 letter.sign :=
    signed_sample (List.mem_cons_of_mem _ List.mem_cons_self)
  have hletter : (letter.buf.1.take 169).drop (169 - (72 - letter.sign.length)) = ['k'] := by decide +kernel
  refine ⟨openssl_lawful, hsigned, ?_, fun haccepted => not_authentic_tampered haccepted.1, ?_⟩
  · rw [arrives_iff openssl_lawful hsigned, Uncut, hletter, List.forall_mem_singleton]
    decide
  · have hdecrypt : I2vCryptoProcessor.decryptEtMMessage openssl (zero.tampered.take sizeof_send_message) aesKey =
        .error (.runtime_error "HMAC verification failed") := by decide +kernel
    rw [RecvfromEtMonPki, hdecrypt]
    rfl

end Socket

end IS
