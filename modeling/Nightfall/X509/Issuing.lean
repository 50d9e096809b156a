import Mathlib.Data.Nat.Bitwise
import Nightfall.X509.Registry

/-! The other side of the parser: the DER encoding of a TLV, read back by `getNextTlv`,
and small certificates built with it. -/

namespace Nightfall.X509

open Bytes Contract Revert

def derLength (length : ℕ) : ByteString :=
  if length < 128 then [UInt8.ofNat length]
  else if length < 256 then 0x81 :: beBytes 1 length
  else 0x82 :: beBytes 2 length

def derTlv (tag : UInt8) (content : ByteString) : ByteString :=
  tag :: (derLength content.length ++ content)

/-! A small deployment. Its hash is a remainder, and its RSA keys have the exponent 1, so
that a signature is the padded digest itself. -/

def toyDigest (bytes : ByteString) : Word := BitVec.ofNat 256 (beNat bytes % (2 ^ 256 - 189))

def toyHost : Host where
  chain := {
    sha256 := toyDigest
    keccak256 := toyDigest
    chainId := 1
    tryRecover := fun _ _ => none
    g1Add := fun _ _ => none
    hashToG2 := fun _ _ => none
    pairing := fun _ => none }
  self := 0x509
  modExp := fun b e m => some (beBytes m.length (beNat b ^ e.toNat % beNat m))
  sha512 := fun _ _ => some (List.replicate 64 0)

def toyKey : RSAPublicKey := ⟨List.replicate 66 0xff, 1⟩

def toySignature (message : ByteString) : ByteString :=
  [0x00, 0x01] ++ List.replicate 12 0xff ++ [0x00] ++ diPrefixSha256 ++ wordBytes (toyDigest message)

def toyAddressSignature (addr : Address) : ByteString :=
  let h := wordBytes (toyDigest (List.replicate 8 0 ++
    wordBytes (toyDigest (addressLinkMessage toyHost addr)) ++ List.replicate 32 0))
  List.zipWith (· ^^^ ·) (0x01 :: List.replicate 32 0) (mgf1Sha256 toyHost h 33) ++ h ++ [0xbc]

def derExtension (arc : UInt8) (content : ByteString) : ByteString :=
  derTlv 0x30 (derTlv 0x06 [0x55, 0x1d, arc] ++ derTlv 0x04 content)

structure ToyFields where
  authority : UInt8
  subject : UInt8
  notAfter : String
  usage : UInt8

def ToyFields.subjectExtension (fields : ToyFields) : ByteString :=
  derExtension 0x0e (derTlv 0x04 [fields.subject])

def ToyFields.extensions (fields : ToyFields) : ByteString :=
  derExtension 0x23 (derTlv 0x30 (derTlv 0x80 [fields.authority])) ++
    derExtension 0x0f (derTlv 0x03 [0x00, fields.usage]) ++
    derExtension 0x25 (derTlv 0x30 []) ++ derExtension 0x20 (derTlv 0x30 [])

def toySubjectPublicKey : ByteString :=
  derTlv 0x30 (derTlv 0x30 (derTlv 0x06 rsaEncryptionOid ++ derTlv 0x05 []) ++
    derTlv 0x03 (0x00 :: derTlv 0x30 (derTlv 0x02 toyKey.modulus ++ derTlv 0x02 [0x01])))

def ToyFields.signedPart (fields : ToyFields) (extensions : ByteString) : ByteString :=
  derTlv 0x30 (derTlv 0x30 [] ++ derTlv 0x30 [] ++
    derTlv 0x30 (derTlv 0x17 (ascii "250101") ++ derTlv 0x17 (ascii fields.notAfter)) ++
    derTlv 0x30 [] ++ toySubjectPublicKey ++ derTlv 0xa3 (derTlv 0x30 extensions))

def toyCertificate (signedPart unsigned : ByteString) : ByteString :=
  derTlv 0x30 (signedPart ++ unsigned ++ derTlv 0x03 (0x00 :: toySignature signedPart))

def ToyFields.certificate (fields : ToyFields) : ByteString :=
  toyCertificate (fields.signedPart (fields.subjectExtension ++ fields.extensions)) (derTlv 0x30 [])

theorem toyAccounts : (0xA : Address) ≠ 0 ∧ (0xB : Address) ≠ 0 ∧ (0xC : Address) ≠ 0 := by
  decide

def toyOwner (timestamp : ℕ) : Call := ⟨0xA, timestamp, toyAccounts.1⟩

def toyUser (timestamp : ℕ) : Call := ⟨0xB, timestamp, toyAccounts.2.1⟩

def toyStranger (timestamp : ℕ) : Call := ⟨0xC, timestamp, toyAccounts.2.2⟩

def toySetup : List (Call × Action) :=
  [(toyOwner 1, .owner (.setTrustedPublicKey toyKey 1)), (toyOwner 1, .owner (.addExtendedKeyUsage [])),
    (toyOwner 1, .owner (.addCertificatePolicies [])), (toyOwner 1, .owner (.setSha512Impl 0x512))]

def toyReady : State :=
  { State.initial 0xA with
    trustedPublicKeys := Function.update (fun _ => .empty) 1 toyKey
    extendedKeyUsageOIDs := [[]]
    certificatePoliciesOIDs := [[]]
    sha512Impl := 0x512 }

theorem toySetup_run : Runs.run (step toyHost) (.initial 0xA) toySetup = toyReady := rfl

def ToyFields.linking (fields : ToyFields) : CertificateArgs :=
  ⟨fields.certificate, 32, toyAddressSignature 0xB, true, false, 0, 0⟩

def toyLinking : Call × Action :=
  (toyUser 1750000000, .validateCertificate (ToyFields.linking ⟨1, 2, "300101", 0x80⟩))

def toyLinked : State := toyReady.link 0xB 2 1893456000

theorem toyLinked_step : step toyHost toyReady toyLinking = .ok toyLinked :=
  step_assess _ _ _ (show assess _ _ _ _ = .ok (.link 0xB 2 1893456000) by decide +kernel)

end Nightfall.X509
