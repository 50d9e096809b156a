import Nightfall.X509.Der

/-! `X509SigLib`: the RSA signatures of certificates (PKCS#1 v1.5) and of addresses (PSS). -/

namespace Nightfall.X509

open Bytes Contract Revert

/-- What the contract runs on: `modExp` is the precompile and `sha512` the answer of
the helper contract at an address, each `none` when the call fails. -/
structure Host where
  chain : Chain
  self : Address
  modExp : ByteString → Word → ByteString → Option ByteString
  sha512 : Address → ByteString → Option ByteString

structure RSAPublicKey where
  modulus : ByteString
  exponent : Word
deriving DecidableEq

def RSAPublicKey.empty : RSAPublicKey := ⟨[], 0⟩

def diPrefixSha256 : ByteString :=
  [0x30, 0x31, 0x30, 0x0d, 0x06, 0x09, 0x60, 0x86, 0x48, 0x01, 0x65, 0x03, 0x04, 0x02, 0x01, 0x05, 0x00, 0x04, 0x20]

def diPrefixSha512 : ByteString :=
  [0x30, 0x51, 0x30, 0x0d, 0x06, 0x09, 0x60, 0x86, 0x48, 0x01, 0x65, 0x03, 0x04, 0x02, 0x03, 0x05, 0x00, 0x04, 0x40]

def stripLeadingZero : ByteString → ByteString
  | 0 :: rest => rest
  | bytes => bytes

def lessThanBytes : ByteString → ByteString → Bool
  | a :: left, b :: right => if a < b then true else if b < a then false else lessThanBytes left right
  | _, _ => false

def lessThan (a b : ByteString) : Except String Bool := do
  require (a.length = b.length) "X509: length mismatch"
  return lessThanBytes a b

def hasPrefix (data start : ByteString) : Bool := decide (data.take start.length = start)

def sliceChecked (data : ByteString) (offset length : ℕ) : Except String ByteString := do
  require (offset + length ≤ data.length) "X509: slice out of range"
  return slice data offset length

def modExp (host : Host) (b : ByteString) (e : Word) (m : ByteString) : Except String ByteString :=
  match host.modExp b e m with
  | some result => .ok result
  | none => .error "X509: modexp failed"

def validateSignatureAndExtractMessageHash (decrypt : ByteString) : Except String ByteString := do
  require (11 ≤ decrypt.length) "X509: EM too short"
  require (decrypt[0]? = some 0x00) "X509: bad leading 0x00"
  require (decrypt[1]? = some 0x01) "X509: bad block type"
  let psLen := ((decrypt.drop 2).takeWhile (· = 0xff)).length
  require (8 ≤ psLen) "X509: PS too short"
  require (2 + psLen < decrypt.length) "X509: no separator"
  require (decrypt[2 + psLen]? = some 0x00) "X509: bad separator"
  let tOffset := 2 + psLen + 1
  require (tOffset < decrypt.length) "X509: no DigestInfo"
  let tLen := decrypt.length - tOffset
  let t ← sliceChecked decrypt tOffset tLen
  if tLen = diPrefixSha256.length + 32 ∧ hasPrefix t diPrefixSha256 = true then
    sliceChecked t diPrefixSha256.length 32
  else if tLen = diPrefixSha512.length + 64 ∧ hasPrefix t diPrefixSha512 = true then
    sliceChecked t diPrefixSha512.length 64
  else .error "X509: Unsupported or invalid DigestInfo"

def extractDigestFromSignature (host : Host) (signature modulusRaw : ByteString)
    (exponent : Word) : Except String ByteString := do
  let modulus := stripLeadingZero modulusRaw
  require (signature.length = modulus.length) "X509: sig/mod length mismatch"
  let inRange ← lessThan signature modulus
  require (inRange = true) "X509: signature out of range"
  let signatureDecrypt ← modExp host signature exponent modulus
  require (signatureDecrypt.length = modulus.length) "X509: EM length mismatch"
  let first ← readAt signatureDecrypt 0
  require (first = 0x00) "X509: EM leading byte != 0x00"
  validateSignatureAndExtractMessageHash signatureDecrypt

theorem extractDigestFromSignature_empty (host : Host) {signature digest : ByteString} (nonempty : signature ≠ []) :
    extractDigestFromSignature host signature RSAPublicKey.empty.modulus
      RSAPublicKey.empty.exponent ≠ .ok digest := by
  intro accepted
  simp only [extractDigestFromSignature, bind_eq_ok, require_eq_ok] at accepted
  obtain ⟨_, sameLength, _⟩ := accepted
  exact nonempty (List.length_eq_zero_iff.mp sameLength)

def rsaRecoverEncodedMessage (host : Host) (signature modulusRaw : ByteString)
    (exponent : Word) : Except String ByteString := do
  let modulus := stripLeadingZero modulusRaw
  require (0 < modulus.length) "X509: empty modulus"
  require (signature.length = modulus.length) "X509: sig/mod size mismatch"
  let inRange ← lessThan signature modulus
  require (inRange = true) "X509: signature out of range"
  let em ← modExp host signature exponent modulus
  require (em.length = modulus.length) "X509: bad EM length"
  return em

def mgf1Sha256 (host : Host) (seed : ByteString) (maskLen : ℕ) : ByteString :=
  ((List.range ((maskLen + 31) / 32)).flatMap fun counter =>
    wordBytes (host.chain.sha256 (seed ++ beBytes 4 counter))).take maskLen

def unmaskedDb (host : Host) (db h : ByteString) : ByteString :=
  match List.zipWith (· ^^^ ·) db (mgf1Sha256 host h db.length) with
  | first :: rest => (first &&& 0x7f) :: rest
  | [] => []

def rsaPssVerifySha256FromEM (host : Host) (em message : ByteString) (saltLen : ℕ) : Bool :=
  let hLen := 32
  if em.length < hLen + saltLen + 2 then false
  else if em[em.length - 1]? ≠ some 0xbc then false
  else
    let dbLen := em.length - hLen - 1
    let h := slice em dbLen hLen
    let db := unmaskedDb host (em.take dbLen) h
    match db.dropWhile (· = 0x00) with
    | 0x01 :: salt =>
      if salt.length ≠ saltLen then false
      else
        let hPrime := host.chain.sha256 (List.replicate 8 0 ++ wordBytes (host.chain.sha256 message) ++ salt)
        decide (host.chain.keccak256 h = host.chain.keccak256 (wordBytes hPrime))
    | _ => false

def rsaPssVerifySha256 (host : Host) (signature message modulusRaw : ByteString)
    (exponent : Word) (saltLen : ℕ) : Except String Bool := do
  let em ← rsaRecoverEncodedMessage host signature modulusRaw exponent
  return rsaPssVerifySha256FromEM host em message saltLen

end Nightfall.X509
