import Nightfall.X509.Issuing

/-! Where the key that verifies an end-user certificate comes from. Trust is stored key by key: each
trusted key was set by the owner or taken from an intermediate certificate that another trusted key
had verified. -/

namespace Nightfall.X509

open Contract Revert Runs

/-- A chain of accepted intermediate certificates, each verified with the key that the one
above it brought in, from a key of the owner down to `key`. -/
inductive TrustChain (host : Host) (live : Word → Prop) (valid : Certificate → Prop)
    (top : Word) : List Event → Word → RSAPublicKey → Prop
  | root {past before after : List Event} {event : Event} {call : Call} {publicKey : RSAPublicKey}
      (split : past = before ++ event :: after)
      (sets : event.action = (call, .owner (.setTrustedPublicKey publicKey top)))
      (isLive : live top) : TrustChain host live valid top past top publicKey
  | link {past before after : List Event} {event : Event} {call : Call} {args : CertificateArgs}
      {cert : Certificate} (split : past = before ++ event :: after)
      (accepts : event.action = (call, .validateCertificate args))
      (isIntermediate : args.isEndUser = false) (stored : args.checkOnly = false)
      (authentic : Authentic host call event.before args cert)
      (above : TrustChain host live valid top before cert.authorityKeyIdentifier
        (event.before.trustedPublicKeys cert.authorityKeyIdentifier))
      (isLive : live cert.subjectKeyIdentifier) (isValid : valid cert) :
      TrustChain host live valid top past cert.subjectKeyIdentifier cert.publicKey

def Certificate.InDate (cert : Certificate) (timestamp : ℕ) : Prop :=
  ∃ expiry, checkDates timestamp cert.tlvs = .ok expiry

/-- No key above or at the certificate is revoked, every certificate is in date, and the
OID group of the call is the top authority's. -/
def LiveChain (host : Host) (past : List Event) (state : State) (call : Call)
    (args : CertificateArgs) (cert : Certificate) : Prop :=
  ∃ top, TrustChain host (fun key => state.revokedKeys key = false) (·.InDate call.timestamp) top
      past cert.authorityKeyIdentifier (state.trustedPublicKeys cert.authorityKeyIdentifier) ∧
    state.revokedKeys cert.subjectKeyIdentifier = false ∧ cert.InDate call.timestamp ∧
    args.oidGroup = state.oidGroupByAuthorityKeyIdentifier top

/-- What the contract does not look at: the keys above the direct authority, the dates of
the intermediates, and the group of the top authority. -/
def LiveAbove (host : Host) (past : List Event) (state : State) (call : Call) (cert : Certificate) : Prop :=
  ∃ top, TrustChain host (fun key => key ≠ cert.authorityKeyIdentifier → state.revokedKeys key = false)
      (·.InDate call.timestamp) top past cert.authorityKeyIdentifier
      (state.trustedPublicKeys cert.authorityKeyIdentifier) ∧
    state.oidGroupByAuthorityKeyIdentifier top = state.oidGroupByAuthorityKeyIdentifier cert.authorityKeyIdentifier

section

variable {host : Host} {live live' : Word → Prop} {valid : Certificate → Prop} {top key : Word}
  {past : List Event} {publicKey : RSAPublicKey}

variable (chain : TrustChain host live valid top past key publicKey)
include chain

theorem TrustChain.extend (more : List Event) : TrustChain host live valid top (past ++ more) key publicKey := by
  cases chain with
  | root split sets isLive =>
    exact .root (by rw [split, List.append_assoc, List.cons_append]) sets isLive
  | link split accepts isIntermediate stored authentic above isLive isValid =>
    exact .link (by rw [split, List.append_assoc, List.cons_append]) accepts isIntermediate
      stored authentic above isLive isValid

theorem TrustChain.weaken (imp : ∀ key, live key → live' key) :
    TrustChain host live' valid top past key publicKey := by
  induction chain with
  | root split sets isLive => exact .root split sets (imp _ isLive)
  | link split accepts isIntermediate stored authentic above isLive isValid ih =>
    exact .link split accepts isIntermediate stored authentic ih (imp _ isLive) isValid

theorem TrustChain.isLive : live key := by
  cases chain with
  | root split sets isLive | link split accepts isIntermediate stored authentic above isLive isValid => exact isLive

end

section

variable (host : Host)

def Chained (past : List Event) (state : State) : Prop :=
  ∀ key, state.trustedPublicKeys key ≠ .empty →
    ∃ top, TrustChain host (fun _ => True) (fun _ => True) top past key (state.trustedPublicKeys key)

theorem Chained.initial (owner : Address) : Chained host [] (.initial owner) :=
  fun _ trusted => absurd rfl trusted

theorem Chained.keep {past : List Event} {state next : State} (chained : Chained host past state)
    (event : Event) {key : Word} (same : next.trustedPublicKeys key = state.trustedPublicKeys key)
    (trusted : next.trustedPublicKeys key ≠ .empty) :
    ∃ top, TrustChain host (fun _ => True) (fun _ => True) top (past ++ [event]) key
      (next.trustedPublicKeys key) := by
  rw [same] at trusted ⊢
  obtain ⟨top, chain⟩ := chained key trusted
  exact ⟨top, chain.extend [event]⟩

theorem Chained.effect {past : List Event} {state next : State} {move : Call × Action}
    (chained : Chained host past state) (effect : Effect host state move next) :
    Chained host (past ++ [⟨state, move, next⟩]) next := by
  intro key trusted
  cases effect with
  | trusts call args cert authentic isIntermediate stored =>
    by_cases isSubject : key = cert.subjectKeyIdentifier
    · obtain ⟨top, above⟩ := chained _ authentic.trusted
      rw [isSubject, trust_trustedPublicKeys, Function.update_self]
      exact ⟨top, .link rfl rfl isIntermediate stored authentic above trivial trivial⟩
    · exact chained.keep host _ (Function.update_of_ne isSubject _ _) trusted
  | links | checks => exact chained.keep host _ rfl trusted
  | revokes call revoked allowed =>
    by_cases isRevoked : key = revoked
    · rw [isRevoked] at trusted
      exact absurd (Function.update_self _ _ _) trusted
    · exact chained.keep host _ (Function.update_of_ne isRevoked _ _) trusted
  | sets call setting next same keys =>
    obtain ⟨publicKey, set, rfl, written⟩ | unchanged := keys
    · by_cases isSet : key = set
      · subst isSet
        rw [written, Function.update_self]
        exact ⟨key, .root rfl rfl trivial⟩
      · exact chained.keep host _ (by rw [written, Function.update_of_ne isSet]) trusted
    · exact chained.keep host _ (by rw [unchanged]) trusted

variable (owner : Address) (moves : List (Call × Action))

theorem chained_before {earlier later : List Event} {event : Event}
    (split : trace (step host) (.initial owner) moves = earlier ++ event :: later) :
    Chained host earlier event.before :=
  (invariant_before (step host) (Chained host) moves (.initial owner) (.initial host owner)
    (fun _ _ _ chained accepted => chained.effect host (step_effect accepted)) split).1

/-- A validation that binds an address has a chain of trust behind it; the chain is live
exactly when one is live above the direct authority. -/
theorem live_chain_iff {earlier later : List Event} {event : Event}
    (split : trace (step host) (.initial owner) moves = earlier ++ event :: later) {call : Call}
    {args : CertificateArgs} (validates : event.action = (call, .validateCertificate args))
    (isEndUser : args.isEndUser = true) (stored : args.checkOnly = false) :
    ∃ cert, Authentic host call event.before args cert ∧
      event.after = event.before.link call.sender cert.subjectKeyIdentifier cert.expiry ∧
      (∃ top, TrustChain host (fun _ => True) (fun _ => True) top earlier cert.authorityKeyIdentifier
        (event.before.trustedPublicKeys cert.authorityKeyIdentifier)) ∧
      (LiveChain host earlier event.before call args cert ↔ LiveAbove host earlier event.before call cert) := by
  have accepted := (trace_step _ split).2
  rw [validates] at accepted
  obtain ⟨update, assessed, applied⟩ := (validateCertificate_eq_ok _ _ _ _ _).mp accepted
  obtain ⟨_, cert, authentic, outcome⟩ := (assess_eq_ok _ _ _ _ _).mp assessed
  have linked : update = .link call.sender cert.subjectKeyIdentifier cert.expiry := by
    obtain ⟨isIntermediate, _⟩ | ⟨_, _, ⟨onlyChecked, _⟩ | ⟨_, _, linked⟩⟩ := outcome
    · exact absurd (isEndUser.symm.trans isIntermediate) (by decide)
    · exact absurd (onlyChecked.symm.trans stored) (by decide)
    · exact linked
  refine ⟨cert, authentic, by rw [← applied, linked, State.apply],
    chained_before host owner moves split _ authentic.trusted, ?_⟩
  constructor
  · rintro ⟨top, chain, _, _, group⟩
    exact ⟨top, chain.weaken fun _ isLive _ => isLive, by rw [← group, authentic.group]⟩
  · rintro ⟨top, chain, group⟩
    refine ⟨top, chain.weaken ?_, authentic.subjectLive, ⟨_, authentic.dates⟩, by rw [group, authentic.group]⟩
    intro key isLive
    by_cases isAuthority : key = cert.authorityKeyIdentifier
    · rw [isAuthority, authentic.authorityLive]
    · exact isLive isAuthority

end

theorem live_chain_iff_sample :
    ∃ cert, Authentic toyHost (toyUser 1750000000) toyReady (ToyFields.linking ⟨1, 2, "300101", 0x80⟩) cert ∧
      toyLinked = toyReady.link 0xB cert.subjectKeyIdentifier cert.expiry ∧
      (∃ top, TrustChain toyHost (fun _ => True) (fun _ => True) top
        (trace (step toyHost) (.initial 0xA) toySetup) cert.authorityKeyIdentifier
        (toyReady.trustedPublicKeys cert.authorityKeyIdentifier)) ∧
      (LiveChain toyHost (trace (step toyHost) (.initial 0xA) toySetup) toyReady
          (toyUser 1750000000) (ToyFields.linking ⟨1, 2, "300101", 0x80⟩) cert ↔
        LiveAbove toyHost (trace (step toyHost) (.initial 0xA) toySetup) toyReady (toyUser 1750000000) cert) := by
  have split : trace (step toyHost) (.initial 0xA) (toySetup ++ [toyLinking]) =
      trace (step toyHost) (.initial 0xA) toySetup ++ [⟨toyReady, toyLinking, toyLinked⟩] := by
    rw [trace_append, toySetup_run, trace_cons_ok _ toyLinked_step, trace]
  exact live_chain_iff toyHost 0xA (toySetup ++ [toyLinking]) split rfl rfl rfl

def toyIntermediate : CertificateArgs :=
  ⟨ToyFields.certificate ⟨1, 3, "300101", 0x06⟩, 32, [], false, false, 0, 0⟩

def toyDelegated : State := toyReady.trust 3 toyKey

def toyOrphaning : List Event :=
  trace (step toyHost) (.initial 0xA) toySetup ++
    [⟨toyReady, (toyStranger 1750000000, .validateCertificate toyIntermediate), toyDelegated⟩,
      ⟨toyDelegated, (toyOwner 1750000001, .revokeKeyFromUserAddress 1), toyDelegated.revoke 1⟩]

theorem authority_of_authentic {host : Host} {call : Call} {state : State} {args : CertificateArgs}
    {cert : Certificate} (authentic : Authentic host call state args cert) (own : args.addr = 0) {key : Word}
    (found : (authenticate host call state args).map (·.authorityKeyIdentifier) = .ok key) :
    cert.authorityKeyIdentifier = key := by
  rw [(authenticate_eq_ok _ _ _ _ _).mpr ⟨Or.inl own, authentic⟩] at found
  exact Except.ok.inj found

theorem toyOrphaning_cases {event : Event} (member : event ∈ toyOrphaning) :
    event.action ∈ toySetup ∨ event = ⟨toyReady, (toyStranger 1750000000, .validateCertificate toyIntermediate),
        toyDelegated⟩ ∨ event = ⟨toyDelegated, (toyOwner 1750000001, .revokeKeyFromUserAddress 1),
        toyDelegated.revoke 1⟩ := by
  obtain setup | later := List.mem_append.mp member
  · exact Or.inl (mem_trace _ _ _ _ setup).1
  · exact Or.inr (by simpa using later)

theorem toyOrphaning_no_chain {valid : Certificate → Prop} {top : Word} {publicKey : RSAPublicKey} :
    ¬ TrustChain toyHost (fun key => (toyDelegated.revoke 1).revokedKeys key = false) valid top
      toyOrphaning 3 publicKey := by
  intro chain
  generalize reached : (3 : Word) = key at chain
  cases chain with
  | @root _ before after event _ _ split sets isLive =>
    have member : event ∈ toyOrphaning := split ▸ List.mem_append_right _ List.mem_cons_self
    obtain setup | rfl | rfl := toyOrphaning_cases member
    · rw [sets] at setup
      obtain ⟨_, _, isRoot⟩ : _ ∧ _ ∧ top = 1 := by simpa [toySetup] using setup
      exact absurd (reached.trans isRoot) (by decide)
    · cases sets
    · cases sets
  | @link _ before after event call args cert split accepts isIntermediate stored authentic above isLive isValid =>
      have member : event ∈ toyOrphaning := split ▸ List.mem_append_right _ List.mem_cons_self
      obtain setup | rfl | rfl := toyOrphaning_cases member
      · rw [accepts] at setup
        simp [toySetup] at setup
      · cases accepts
        have isRoot : cert.authorityKeyIdentifier = 1 :=
          authority_of_authentic authentic rfl (by decide +kernel)
        have notRevoked := above.isLive
        rw [isRoot] at notRevoked
        cases notRevoked
      · cases accepts

/-- The owner revokes the root key, and a certificate below it still binds an address. -/
theorem revoked_root_still_binds : ∃ event, trace (step toyHost) (.initial 0xA) (toySetup ++
      [(toyStranger 1750000000, .validateCertificate toyIntermediate),
        (toyOwner 1750000001, .revokeKeyFromUserAddress 1),
        (toyUser 1750000002, .validateCertificate (ToyFields.linking ⟨3, 2, "300101", 0x80⟩))]) =
      toyOrphaning ++ [event] ∧
    event.after.keysByUser 0xB = 2 ∧
    ∀ cert, Authentic toyHost (toyUser 1750000002) event.before (ToyFields.linking ⟨3, 2, "300101", 0x80⟩) cert →
      ¬ LiveChain toyHost toyOrphaning event.before (toyUser 1750000002)
        (ToyFields.linking ⟨3, 2, "300101", 0x80⟩) cert := by
  have first : step toyHost toyReady (toyStranger 1750000000,
      .validateCertificate toyIntermediate) = .ok toyDelegated :=
    step_assess _ _ _ (show assess _ _ _ _ = .ok (.trust 3 toyKey) by decide +kernel)
  have second : step toyHost toyDelegated (toyOwner 1750000001, .revokeKeyFromUserAddress 1) =
      .ok (toyDelegated.revoke 1) :=
    (revokeKeyFromUserAddress_eq_ok _ _ _ _).mpr ⟨Or.inr rfl, rfl⟩
  have third : step toyHost (toyDelegated.revoke 1) (toyUser 1750000002,
      .validateCertificate (ToyFields.linking ⟨3, 2, "300101", 0x80⟩)) =
        .ok ((toyDelegated.revoke 1).link 0xB 2 1893456000) :=
    step_assess _ _ _ (show assess _ _ _ _ = .ok (.link 0xB 2 1893456000) by decide +kernel)
  refine ⟨⟨toyDelegated.revoke 1, (toyUser 1750000002,
      .validateCertificate (ToyFields.linking ⟨3, 2, "300101", 0x80⟩)),
    (toyDelegated.revoke 1).link 0xB 2 1893456000⟩, ?_, rfl, ?_⟩
  · rw [trace_append, toySetup_run, trace_cons_ok _ first, trace_cons_ok _ second,
      trace_cons_ok _ third, toyOrphaning, List.append_assoc]
    rfl
  · rintro cert authentic ⟨top, chain, _⟩
    have isIntermediate : cert.authorityKeyIdentifier = 3 :=
      authority_of_authentic authentic rfl (by decide +kernel)
    rw [isIntermediate] at chain
    exact toyOrphaning_no_chain chain

end Nightfall.X509
