import Nightfall.X509.SigLib

/-! What the contract takes from a certificate. Every function here searches the whole
flattened list of TLVs and reads the elements that follow the one it finds. -/

namespace Nightfall.X509

open Bytes Contract Revert

variable (tlvs : List DecodedTlv) (host : Host) (utcTime : ByteString)

def bytes32 (value : ByteString) : Word :=
  BitVec.ofNat 256 (beNat ((value ++ List.replicate 32 0).take 32))

def shiftedDown (value : ByteString) (length : ℕ) : Except String Word := do
  require (length ≤ 32) "panic: arithmetic underflow"
  return bytes32 value >>> ((32 - length) * 8)

def getSignature (maxId : ℕ) : Except String ByteString := do
  require (maxId ≠ 0) "panic: arithmetic underflow"
  let signatureTlv ← readAt tlvs (maxId - 1)
  require (signatureTlv.depth = 1) "X509: Signature tlv depth is incorrect"
  require (signatureTlv.tag.tagType = 0x03) "X509: Signature tlv should have a tag type of BIT STRING"
  let bitString := signatureTlv.value
  require (1 < bitString.length) "X509: Signature BIT STRING too short"
  require (bitString[0]? = some 0x00) "X509: Signature unused bits must be 0"
  return bitString.drop 1

theorem getSignature_ne_nil {tlvs : List DecodedTlv} {maxId : ℕ} {signature : ByteString}
    (found : getSignature tlvs maxId = .ok signature) : signature ≠ [] := by
  simp only [getSignature, bind_eq_ok, require_eq_ok, pure_eq_ok] at found
  obtain ⟨_, _, _, _, _, _, _, _, _, long, _, _, rfl⟩ := found
  exact List.ne_nil_of_length_pos (by rw [List.length_drop]; omega)

def getMessage : Except String ByteString := do
  let messageTlv ← readAt tlvs 1
  require (messageTlv.depth = 1) "X509: Message tlv depth is incorrect"
  require (messageTlv.tag.tagType = 0x10) "X509: Message tlv should have a tag type of SEQUENCE"
  return messageTlv.octets

def decimalDigit (index : ℕ) : Except String ℕ := do
  let letter ← readAt utcTime index
  require (48 ≤ letter.toNat) "panic: arithmetic underflow"
  return letter.toNat - 48

def twoDigits (index : ℕ) : Except String ℕ := do
  let tens ← decimalDigit utcTime index
  let units ← decimalDigit utcTime (index + 1)
  return tens * 10 + units

def daysFromDate (year month day : ℤ) : ℤ :=
  day - 32075 + (1461 * (year + 4800 + (month - 14).tdiv 12)).tdiv 4 +
    (367 * (month - 2 - (month - 14).tdiv 12 * 12)).tdiv 12 -
    (3 * (year + 4900 + (month - 14).tdiv 12).tdiv 100).tdiv 4 - 2440588

def timestampFromDate : Except String ℕ := do
  let year ← twoDigits utcTime 0
  let month ← twoDigits utcTime 2
  let day ← twoDigits utcTime 4
  require (1970 ≤ year + 2000) "X509: year < 1970"
  let days := daysFromDate (year + 2000) month day
  -- a negative count would become a huge unsigned one
  require (0 ≤ days) "panic: arithmetic overflow"
  return days.toNat * 86400

def isSequenceAtDepth2 (tlv : DecodedTlv) : Bool :=
  decide (tlv.tag.tagType = 0x10 ∧ tlv.depth = 2)

/-- The index of the `wanted`-th item with the property, or the number of items. -/
def nthIndex {α : Type} (property : α → Bool) : List α → ℕ → ℕ
  | [], _ => 0
  | item :: rest, wanted =>
    let left := if property item then wanted - 1 else wanted
    if left = 0 then 0 else nthIndex property rest left + 1

theorem nthIndex_agree {α : Type} {property : α → Bool} {bound : ℕ} :
    ∀ {left right : List α} {wanted : ℕ}, (∀ j, j < bound → left[j]?.map property = right[j]?.map property) →
      nthIndex property left wanted < bound → nthIndex property right wanted = nthIndex property left wanted := by
  induction bound with
  | zero => exact fun _ small => absurd small (Nat.not_lt_zero _)
  | succ bound ih =>
    intro left right wanted agree small
    have heads := agree 0 (Nat.succ_pos bound)
    have tails : ∀ j, j < bound → left.tail[j]?.map property = right.tail[j]?.map property := by
      intro j inside
      simpa using agree (j + 1) (Nat.succ_lt_succ inside)
    cases left with
    | nil =>
      cases right with
      | nil => rfl
      | cons other rest => simp at heads
    | cons item items =>
      cases right with
      | nil => simp at heads
      | cons other others =>
        have same : property item = property other := by simpa using heads
        simp only [nthIndex, ← same] at small ⊢
        generalize (if property item = true then wanted - 1 else wanted) = count at small ⊢
        by_cases done : count = 0
        · rw [if_pos done, if_pos done]
        · rw [if_neg done] at small
          rw [if_neg done, if_neg done]
          exact congrArg (· + 1) (ih tails (Nat.lt_of_succ_lt_succ small))

def sequenceIndex (wanted : ℕ) : ℕ :=
  nthIndex isSequenceAtDepth2 tlvs wanted

def checkDates (timestamp : ℕ) (tlvs : List DecodedTlv) : Except String ℕ := do
  let i := sequenceIndex tlvs 3
  let first ← readAt tlvs (i + 1)
  require (first.tag.tagType = 0x17) "X509: First tag was not in fact a UTC time"
  let second ← readAt tlvs (i + 2)
  require (second.tag.tagType = 0x17) "X509: Second tag was not in fact a UTC time"
  let notBefore ← timestampFromDate first.value
  require (notBefore < timestamp) "X509: It is too early to use this certificate"
  let expiry ← timestampFromDate second.value
  require (timestamp < expiry) "X509: This certificate has expired"
  return expiry

def rsaEncryptionOid : ByteString := [0x2a, 0x86, 0x48, 0x86, 0xf7, 0x0d, 0x01, 0x01, 0x01]

def extractPublicKey (tlvs : List DecodedTlv) : Except String RSAPublicKey := do
  let i := sequenceIndex tlvs 5
  let algorithm ← readAt tlvs (i + 2)
  require (host.chain.keccak256 algorithm.value = host.chain.keccak256 rsaEncryptionOid)
    "X509: Only RSA encryption keys are supported, OID indicates different key type"
  let keyTlv ← readAt tlvs (i + 4)
  let keyTlvs ← parseDER keyTlv.value 1 10
  let modulus ← readAt keyTlvs 1
  let exponentTlv ← readAt keyTlvs 2
  let exponent ← shiftedDown exponentTlv.value exponentTlv.value.length
  return ⟨modulus.value, exponent⟩

def extensionOid (arc : UInt8) : Word := bytes32 [0x55, 0x1d, arc]

def isOidAtDepth5 (oid : Word) (tlv : DecodedTlv) : Bool :=
  decide (tlv.depth = 5 ∧ bytes32 tlv.value = oid)

def oidIndex (oid : Word) : ℕ := nthIndex (isOidAtDepth5 oid) tlvs 1

def identifierBytes (arc : UInt8) (missing tooLong : String) : Except String ByteString := do
  let i := oidIndex tlvs (extensionOid arc)
  require (i < tlvs.length) missing
  let tlv ← readAt tlvs (i + 1)
  require (tlv.value.length < 33) tooLong
  return tlv.value

def extractSubjectKeyIdentifier : Except String Word := do
  let skidBytes ← identifierBytes tlvs 0x0e "X509: SKID OID not found" "X509: SKID too long"
  let skidTlvs ← parseDER skidBytes 0 2
  let skid ← readAt skidTlvs 0
  shiftedDown skid.value skid.length

def extractAuthorityKeyIdentifier : Except String Word := do
  let akidBytes ← identifierBytes tlvs 0x23 "X509: AKID OID not found" "X509: AKID too long"
  let akidTlvs ← parseDER akidBytes 0 2
  let akid ← readAt akidTlvs 1
  shiftedDown akid.value akid.value.length

def extensionBytes (arc : UInt8) (missing : String) : Except String ByteString := do
  let i := oidIndex tlvs (extensionOid arc)
  require (i < tlvs.length) missing
  let tlv ← readAt tlvs (i + 1)
  let first ← readAt tlv.octets 0
  if first = 0x01 then do
    let behind ← readAt tlvs (i + 2)
    return behind.value
  else return tlv.value

def usageFlags (ignored flags : UInt8) : UInt8 :=
  UInt8.ofNat (flags.toNat >>> ignored.toNat <<< ignored.toNat)

def checkKeyUsage (usageBitMask : UInt8) : Except String Unit := do
  let usageBytes ← extensionBytes tlvs 0x0f "X509: OID for Key Usage not found"
  let usageTlvs ← parseDER usageBytes 0 1
  let usage ← readAt usageTlvs 0
  require (usage.length = 2) "X509: Key usage bytes must be length 2"
  let flags ← readAt usage.value 1
  let ignored ← readAt usage.value 0
  require (usageFlags ignored flags &&& usageBitMask = usageBitMask) "X509: Key usage is not as required"

def checkExtendedKeyUsage (extendedKeyUsageOIDs : List (List Word)) (oidGroup : Word) : Except String Unit := do
  let extendedUsageBytes ← extensionBytes tlvs 0x25 "X509: OID for Extended Key Usage not found"
  let tlvLength ← computeNumberOfTlvs extendedUsageBytes 0
  let extendedUsageTlvs ← parseDER extendedUsageBytes 0 tlvLength
  let oids ← readAt extendedKeyUsageOIDs oidGroup.toNat
  require (oids.all (fun oid => extendedUsageTlvs.any (bytes32 ·.octets = oid)) = true)
    "X509: Required Extended Key Usage OID not found"

def checkCertificatePolicies (certificatePoliciesOIDs : List (List Word)) (oidGroup : Word) : Except String Unit := do
  let policyBytes ← extensionBytes tlvs 0x20 "X509: OID for Certificate Policies not found"
  let tlvLength ← computeNumberOfTlvs policyBytes 0
  let policyTlvs ← parseDER policyBytes 0 tlvLength
  let policyOIDs := (policyTlvs.filter (·.depth = 2)).map fun tlv => bytes32 tlv.octets
  let oids ← readAt certificatePoliciesOIDs oidGroup.toNat
  require (oids.all policyOIDs.contains = true) "X509: Required Certificate Policy OID not found"

def sha512Digest (sha512Impl : Address) (message : ByteString) : Except String ByteString :=
  if sha512Impl = 0 then .error "call to non-contract"
  else match host.sha512 sha512Impl message with
    | some digest => .ok digest
    | none => .error "sha512 call reverted"

def checkCertificateSignature (sha512Impl : Address)
    (signature message : ByteString) (publicKey : RSAPublicKey) : Except String Unit := do
  let sigHash ← extractDigestFromSignature host signature publicKey.modulus publicKey.exponent
  let digest ← sha512Digest host sha512Impl message
  require (host.chain.keccak256 sigHash = host.chain.keccak256 (wordBytes (host.chain.sha256 message)) ∨
    host.chain.keccak256 sigHash = host.chain.keccak256 digest)
    "X509: Certificate signature is invalid"

theorem checkCertificateSignature_ne_empty {host : Host} {sha512Impl : Address} {signature message : ByteString}
    {publicKey : RSAPublicKey} {result : Unit} (nonempty : signature ≠ [])
    (checked : checkCertificateSignature host sha512Impl signature message publicKey = .ok result) :
    publicKey ≠ .empty := by
  rintro rfl
  simp only [checkCertificateSignature, bind_eq_ok] at checked
  obtain ⟨digest, extracted, _⟩ := checked
  exact extractDigestFromSignature_empty host nonempty extracted

def addressLinkMessage (addr : Address) : ByteString :=
  ascii "ADDR-LINK|v1|contract:" ++ addressBytes host.self ++ ascii "|chainId:" ++
    beBytes 8 host.chain.chainId.toNat ++ ascii "|addr:" ++ addressBytes addr

def checkAddressSignaturePSS (signature message : ByteString) (publicKey : RSAPublicKey) : Except String Unit := do
  let ok ← rsaPssVerifySha256 host signature message publicKey.modulus publicKey.exponent 32
  require (ok = true) "X509: Address signature is invalid"

end Nightfall.X509
