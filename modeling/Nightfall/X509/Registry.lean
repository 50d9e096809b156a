import Nightfall.Library.Runs
import Nightfall.X509.Certificate

/-! The `X509` contract with its `Allowlist`: trusted and revoked keys, the binding of
addresses to end-user certificates, and every call that changes them. -/

namespace Nightfall.X509

open Contract Revert Function

variable (state : State) (host : Host) (call : Call) (state : State) (args : CertificateArgs)

structure State where
  owner : Address
  allowlisting : Bool
  users : Address → Bool
  expires : Address → ℕ
  trustedPublicKeys : Word → RSAPublicKey
  revokedKeys : Word → Bool
  keysByUser : Address → Word
  addressByKey : Word → Address
  oidGroupByAuthorityKeyIdentifier : Word → Word
  extendedKeyUsageOIDs : List (List Word)
  certificatePoliciesOIDs : List (List Word)
  usageBitMaskEndUser : UInt8
  usageBitMaskIntermediate : UInt8
  sha512Impl : Address

def State.initial (owner : Address) : State where
  owner := owner
  allowlisting := true
  users := fun _ => false
  expires := fun _ => 0
  trustedPublicKeys := fun _ => .empty
  revokedKeys := fun _ => false
  keysByUser := fun _ => 0
  addressByKey := fun _ => 0
  oidGroupByAuthorityKeyIdentifier := fun _ => 0
  extendedKeyUsageOIDs := []
  certificatePoliciesOIDs := []
  usageBitMaskEndUser := 0x80
  usageBitMaskIntermediate := 0x06
  sha512Impl := 0

structure Call where
  sender : Address
  timestamp : ℕ
  isAccount : sender ≠ 0

structure CertificateArgs where
  certificate : ByteString
  tlvLength : ℕ
  addressSignature : ByteString
  isEndUser : Bool
  checkOnly : Bool
  oidGroup : Word
  addr : Address

/-- What `validateCertificate` takes from the certificate's TLVs. -/
structure Certificate where
  tlvs : List DecodedTlv
  authorityKeyIdentifier : Word
  signature : ByteString
  message : ByteString
  expiry : ℕ
  publicKey : RSAPublicKey
  subjectKeyIdentifier : Word

/-- The part of `validateCertificate` that end-user and intermediate certificates share. -/
def authenticate : Except String Certificate := do
  require (args.addr = 0 ∨ args.addr = call.sender) "X509: You can only allowlist your own address"
  let tlvs ← walkDerTree args.certificate 0 args.tlvLength
  let authorityKeyIdentifier ← extractAuthorityKeyIdentifier tlvs
  require (state.oidGroupByAuthorityKeyIdentifier authorityKeyIdentifier = args.oidGroup)
    "X509: OID group does not match allowed EKUs and Certificate Policies"
  let signature ← getSignature tlvs args.tlvLength
  let message ← getMessage tlvs
  checkCertificateSignature host state.sha512Impl signature message (state.trustedPublicKeys authorityKeyIdentifier)
  let expiry ← checkDates call.timestamp tlvs
  let certificatePublicKey ← extractPublicKey host tlvs
  let subjectKeyIdentifier ← extractSubjectKeyIdentifier tlvs
  require (state.revokedKeys subjectKeyIdentifier = false)
    "X509: The subject key of this certificate has been revoked"
  require (state.revokedKeys authorityKeyIdentifier = false)
    "X509: The authority key of this certificate has been revoked"
  return ⟨tlvs, authorityKeyIdentifier, signature, message, expiry, certificatePublicKey, subjectKeyIdentifier⟩

def State.trust (key : Word) (publicKey : RSAPublicKey) : State :=
  { state with trustedPublicKeys := update state.trustedPublicKeys key publicKey }

def State.link (addr : Address) (key : Word) (expiry : ℕ) : State :=
  { state with
    expires := update state.expires addr expiry
    keysByUser := update state.keysByUser addr key
    addressByKey := update state.addressByKey key addr
    users := update state.users addr true }

def checkEndUser (tlvs : List DecodedTlv) (oidGroup : Word) : Except String Unit := do
  checkKeyUsage tlvs state.usageBitMaskEndUser
  checkExtendedKeyUsage tlvs state.extendedKeyUsageOIDs oidGroup
  checkCertificatePolicies tlvs state.certificatePoliciesOIDs oidGroup

inductive Update where
  | keep
  | trust (key : Word) (publicKey : RSAPublicKey)
  | link (addr : Address) (key : Word) (expiry : ℕ)
deriving DecidableEq

def State.apply : Update → State
  | .keep => state
  | .trust key publicKey => state.trust key publicKey
  | .link addr key expiry => state.link addr key expiry

def assess : Except String Update := do
  let cert ← authenticate host call state args
  if args.isEndUser = false then do
    checkKeyUsage cert.tlvs state.usageBitMaskIntermediate
    if args.checkOnly then return .keep
    else return .trust cert.subjectKeyIdentifier cert.publicKey
  else do
    checkEndUser state cert.tlvs args.oidGroup
    if args.checkOnly then return .keep
    else do
      require (state.keysByUser call.sender = 0 ∨ state.keysByUser call.sender = cert.subjectKeyIdentifier)
        "X509: This address is already linked to a different certificate"
      require (state.addressByKey cert.subjectKeyIdentifier = 0 ∨
          state.addressByKey cert.subjectKeyIdentifier = call.sender)
        "X509: This certificate is already linked to a different address"
      checkAddressSignaturePSS host args.addressSignature (addressLinkMessage host call.sender) cert.publicKey
      return .link call.sender cert.subjectKeyIdentifier cert.expiry

def validateCertificate : Except String State := do
  let update ← assess host call state args
  return state.apply update

def State.isAllowlisted (user : Address) : Bool :=
  if state.allowlisting = false then true else state.users user

def State.x509Check (timestamp : ℕ) (user : Address) : Bool :=
  decide (state.allowlisting = false ∨ state.revokedKeys (state.keysByUser user) = false ∧
    timestamp < state.expires user ∧ state.isAllowlisted user = true)

def State.revoke (key : Word) : State :=
  { state with
    revokedKeys := update state.revokedKeys key true
    trustedPublicKeys := update state.trustedPublicKeys key .empty
    keysByUser := update state.keysByUser (state.addressByKey key) 0
    addressByKey := update state.addressByKey key 0 }

def revokeKeyFromUserAddress (subjectKeyIdentifier : Word) : Except String State := do
  require (state.keysByUser call.sender = subjectKeyIdentifier ∨ call.sender = state.owner)
    "X509: You are not the owner of this key"
  return state.revoke subjectKeyIdentifier

inductive OwnerCall where
  | setUsageBitMaskEndUser (usageBitMask : UInt8)
  | setUsageBitMaskIntermediate (usageBitMask : UInt8)
  | addExtendedKeyUsage (oids : List Word)
  | addCertificatePolicies (oids : List Word)
  | setTrustedCA (authorityKeyIdentifier oidGroup : Word)
  | removeExtendedKeyUsage
  | removeCertificatePolicies
  | setTrustedPublicKey (trustedPublicKey : RSAPublicKey) (authorityKeyIdentifier : Word)
  | setSha512Impl (impl : Address)
  | transferOwnership (newOwner : Address)
  | enableAllowlisting (allowlisting : Bool)

def ownerCall (setting : OwnerCall) : Except String State := do
  require (call.sender = state.owner) "Caller is not the owner"
  match setting with
  | .setUsageBitMaskEndUser usageBitMask =>
    return { state with usageBitMaskEndUser := usageBitMask }
  | .setUsageBitMaskIntermediate usageBitMask =>
    return { state with usageBitMaskIntermediate := usageBitMask }
  | .addExtendedKeyUsage oids =>
    return { state with extendedKeyUsageOIDs := state.extendedKeyUsageOIDs ++ [oids] }
  | .addCertificatePolicies oids =>
    return { state with certificatePoliciesOIDs := state.certificatePoliciesOIDs ++ [oids] }
  | .setTrustedCA authorityKeyIdentifier oidGroup =>
    return { state with
      oidGroupByAuthorityKeyIdentifier := update
        state.oidGroupByAuthorityKeyIdentifier authorityKeyIdentifier oidGroup }
  | .removeExtendedKeyUsage => return { state with extendedKeyUsageOIDs := [] }
  | .removeCertificatePolicies => return { state with certificatePoliciesOIDs := [] }
  | .setTrustedPublicKey trustedPublicKey authorityKeyIdentifier =>
    return state.trust authorityKeyIdentifier trustedPublicKey
  | .setSha512Impl impl => do
      require (impl ≠ 0) "X509: sha512 impl zero"
      return { state with sha512Impl := impl }
  | .transferOwnership newOwner => do
      require (newOwner ≠ 0) "Invalid owner"
      return { state with owner := newOwner }
  | .enableAllowlisting allowlisting => return { state with allowlisting := allowlisting }

inductive Action where
  | validateCertificate (args : CertificateArgs)
  | revokeKeyFromUserAddress (subjectKeyIdentifier : Word)
  | owner (setting : OwnerCall)

def step : Call × Action → Except String State
  | (call, .validateCertificate args) => validateCertificate host call state args
  | (call, .revokeKeyFromUserAddress key) => revokeKeyFromUserAddress call state key
  | (call, .owner setting) => ownerCall call state setting

abbrev Event := Runs.Event State (Call × Action)

@[mk_iff] structure Authentic (host : Host) (call : Call) (state : State) (args : CertificateArgs)
    (cert : Certificate) : Prop where
  walked : walkDerTree args.certificate 0 args.tlvLength = .ok cert.tlvs
  authority : extractAuthorityKeyIdentifier cert.tlvs = .ok cert.authorityKeyIdentifier
  group : state.oidGroupByAuthorityKeyIdentifier cert.authorityKeyIdentifier = args.oidGroup
  signature : getSignature cert.tlvs args.tlvLength = .ok cert.signature
  message : getMessage cert.tlvs = .ok cert.message
  signed : checkCertificateSignature host state.sha512Impl cert.signature cert.message
    (state.trustedPublicKeys cert.authorityKeyIdentifier) = .ok ()
  dates : checkDates call.timestamp cert.tlvs = .ok cert.expiry
  publicKey : extractPublicKey host cert.tlvs = .ok cert.publicKey
  subject : extractSubjectKeyIdentifier cert.tlvs = .ok cert.subjectKeyIdentifier
  subjectLive : state.revokedKeys cert.subjectKeyIdentifier = false
  authorityLive : state.revokedKeys cert.authorityKeyIdentifier = false

section

variable (state : State) (addr : Address) (key : Word) (publicKey : RSAPublicKey) (expiry : ℕ)

@[simp] theorem trust_trustedPublicKeys : (state.trust key publicKey).trustedPublicKeys =
    update state.trustedPublicKeys key publicKey := rfl

@[simp] theorem link_users : (state.link addr key expiry).users = update state.users addr true := rfl

@[simp] theorem link_expires : (state.link addr key expiry).expires = update state.expires addr expiry := rfl

@[simp] theorem link_keysByUser : (state.link addr key expiry).keysByUser = update state.keysByUser addr key := rfl

@[simp] theorem link_addressByKey :
    (state.link addr key expiry).addressByKey = update state.addressByKey key addr := rfl

@[simp] theorem revoke_revokedKeys : (state.revoke key).revokedKeys = update state.revokedKeys key true := rfl

@[simp] theorem revoke_keysByUser : (state.revoke key).keysByUser =
    update state.keysByUser (state.addressByKey key) 0 := rfl

@[simp] theorem revoke_addressByKey : (state.revoke key).addressByKey = update state.addressByKey key 0 := rfl

end

section

variable (host : Host) (call : Call) (state next : State) (args : CertificateArgs)

theorem authenticate_eq_ok (cert : Certificate) : authenticate host call state args = .ok cert ↔
      (args.addr = 0 ∨ args.addr = call.sender) ∧ Authentic host call state args cert := by
  obtain ⟨⟩ := cert
  simp [authenticate, authentic_iff]

theorem Authentic.trusted {host : Host} {call : Call} {state : State} {args : CertificateArgs}
    {cert : Certificate} (authentic : Authentic host call state args cert) :
    state.trustedPublicKeys cert.authorityKeyIdentifier ≠ .empty :=
  checkCertificateSignature_ne_empty (getSignature_ne_nil authentic.signature) authentic.signed

@[mk_iff] structure Claimed (host : Host) (call : Call) (state : State) (args : CertificateArgs)
    (cert : Certificate) : Prop where
  user : state.keysByUser call.sender = 0 ∨ state.keysByUser call.sender = cert.subjectKeyIdentifier
  key : state.addressByKey cert.subjectKeyIdentifier = 0 ∨ state.addressByKey cert.subjectKeyIdentifier = call.sender
  held : checkAddressSignaturePSS host args.addressSignature (addressLinkMessage host call.sender)
    cert.publicKey = .ok ()

theorem assess_eq_ok (update : Update) : assess host call state args = .ok update ↔
      (args.addr = 0 ∨ args.addr = call.sender) ∧ ∃ cert, Authentic host call state args cert ∧
        ((args.isEndUser = false ∧ checkKeyUsage cert.tlvs state.usageBitMaskIntermediate = .ok () ∧
            (args.checkOnly = true ∧ update = .keep ∨ args.checkOnly = false ∧
                update = .trust cert.subjectKeyIdentifier cert.publicKey)) ∨
          args.isEndUser = true ∧ checkEndUser state cert.tlvs args.oidGroup = .ok () ∧
            (args.checkOnly = true ∧ update = .keep ∨ args.checkOnly = false ∧ Claimed host call state args cert ∧
                update = .link call.sender cert.subjectKeyIdentifier cert.expiry)) := by
  cases isEndUser : args.isEndUser <;> cases isChecked : args.checkOnly <;>
    simp [-bind_pure_comp, assess, authenticate_eq_ok, isEndUser, isChecked, claimed_iff, @eq_comm _ update, and_assoc,
      Unique.exists_iff]

theorem validateCertificate_eq_ok : validateCertificate host call state args = .ok next ↔
      ∃ update, assess host call state args = .ok update ∧ state.apply update = next := by
  simp only [validateCertificate, bind_eq_ok, pure_eq_ok]

theorem step_assess {args : CertificateArgs} {update : Update} (assessed : assess host call state args = .ok update) :
    step host state (call, .validateCertificate args) = .ok (state.apply update) :=
  (validateCertificate_eq_ok _ _ _ _ _).mpr ⟨update, assessed, rfl⟩

theorem revokeKeyFromUserAddress_eq_ok (key : Word) : revokeKeyFromUserAddress call state key = .ok next ↔
      (state.keysByUser call.sender = key ∨ call.sender = state.owner) ∧ next = state.revoke key := by
  simp only [revokeKeyFromUserAddress, bind_eq_ok, require_eq_ok, pure_eq_ok]
  constructor
  · rintro ⟨_, allowed, rfl⟩
    exact ⟨allowed, rfl⟩
  · rintro ⟨allowed, rfl⟩
    exact ⟨(), allowed, rfl⟩

/-- The state an owner's call leaves has the same users, keys and bindings, apart from the
trusted key that `setTrustedPublicKey` writes. -/
structure SameRegistry (state next : State) : Prop where
  users : next.users = state.users
  expires : next.expires = state.expires
  revokedKeys : next.revokedKeys = state.revokedKeys
  keysByUser : next.keysByUser = state.keysByUser
  addressByKey : next.addressByKey = state.addressByKey

theorem ownerCall_eq_ok {setting : OwnerCall} (accepted : ownerCall call state setting = .ok next) :
    SameRegistry state next ∧ ((∃ publicKey key, setting = .setTrustedPublicKey publicKey key ∧
          next.trustedPublicKeys = update state.trustedPublicKeys key publicKey) ∨
        next.trustedPublicKeys = state.trustedPublicKeys) := by
  simp only [ownerCall, bind_eq_ok, require_eq_ok] at accepted
  obtain ⟨_, _, accepted⟩ := accepted
  cases setting with
  | setTrustedPublicKey publicKey key =>
    obtain rfl := (pure_eq_ok _ _).mp accepted
    exact ⟨⟨rfl, rfl, rfl, rfl, rfl⟩, Or.inl ⟨publicKey, key, rfl, rfl⟩⟩
  | setSha512Impl impl | transferOwnership newOwner =>
    obtain ⟨_, _, stored⟩ := (bind_eq_ok _ _ _).mp accepted
    obtain rfl := (pure_eq_ok _ _).mp stored
    exact ⟨⟨rfl, rfl, rfl, rfl, rfl⟩, Or.inr rfl⟩
  | _ =>
    obtain rfl := (pure_eq_ok _ _).mp accepted
    exact ⟨⟨rfl, rfl, rfl, rfl, rfl⟩, Or.inr rfl⟩

inductive Effect (host : Host) (state : State) : Call × Action → State → Prop
  | trusts (call : Call) (args : CertificateArgs) (cert : Certificate)
      (authentic : Authentic host call state args cert) (isIntermediate : args.isEndUser = false)
      (stored : args.checkOnly = false) :
      Effect host state (call, .validateCertificate args) (state.trust cert.subjectKeyIdentifier cert.publicKey)
  | links (call : Call) (args : CertificateArgs) (cert : Certificate)
      (authentic : Authentic host call state args cert) (isEndUser : args.isEndUser = true)
      (stored : args.checkOnly = false) (claimed : Claimed host call state args cert) :
      Effect host state (call, .validateCertificate args)
        (state.link call.sender cert.subjectKeyIdentifier cert.expiry)
  | checks (call : Call) (args : CertificateArgs) (onlyChecked : args.checkOnly = true) :
      Effect host state (call, .validateCertificate args) state
  | revokes (call : Call) (key : Word) (allowed : state.keysByUser call.sender = key ∨ call.sender = state.owner) :
      Effect host state (call, .revokeKeyFromUserAddress key) (state.revoke key)
  | sets (call : Call) (setting : OwnerCall) (next : State) (same : SameRegistry state next)
      (keys : (∃ publicKey key, setting = .setTrustedPublicKey publicKey key ∧
          next.trustedPublicKeys = update state.trustedPublicKeys key publicKey) ∨
        next.trustedPublicKeys = state.trustedPublicKeys) :
      Effect host state (call, .owner setting) next

variable {host state next}

theorem step_effect {move : Call × Action} (accepted : step host state move = .ok next) :
    Effect host state move next := by
  obtain ⟨call, action⟩ := move
  cases action with
  | validateCertificate args =>
    obtain ⟨update, assessed, rfl⟩ :=
      (validateCertificate_eq_ok host call state next args).mp accepted
    obtain ⟨_, cert, authentic, finished⟩ := (assess_eq_ok host call state args update).mp assessed
    obtain ⟨isIntermediate, _, finished⟩ | ⟨isEndUser, _, finished⟩ := finished
    · obtain ⟨onlyChecked, rfl⟩ | ⟨stored, rfl⟩ := finished
      · exact .checks call args onlyChecked
      · exact .trusts call args cert authentic isIntermediate stored
    · obtain ⟨onlyChecked, rfl⟩ | ⟨stored, claimed, rfl⟩ := finished
      · exact .checks call args onlyChecked
      · exact .links call args cert authentic isEndUser stored claimed
  | revokeKeyFromUserAddress key =>
    obtain ⟨allowed, rfl⟩ := (revokeKeyFromUserAddress_eq_ok call state next key).mp accepted
    exact .revokes call key allowed
  | owner setting =>
    obtain ⟨same, keys⟩ := ownerCall_eq_ok call state next accepted
    exact .sets call setting next same keys

end

end Nightfall.X509
