import Nightfall.X509.Issuing

/-! The two mappings that bind addresses to certificates. -/

namespace Nightfall.X509

open Bytes Contract Revert Runs Function

def Matched (state : State) : Prop :=
  ∀ a k, a ≠ 0 → k ≠ 0 → (state.keysByUser a = k ↔ state.addressByKey k = a)

def BindingsMatch (host : Host) (owner : Address) (moves : List (Call × Action)) : Prop :=
  ∀ event ∈ trace (step host) (.initial owner) moves, Matched event.after

def ZeroKeyAlone (event : Event) : Prop :=
  ∀ call, event.action = (call, .revokeKeyFromUserAddress 0) →
    event.before.keysByUser (event.before.addressByKey 0) = 0

def RevokedForGood (host : Host) (owner : Address) (moves : List (Call × Action)) : Prop :=
  ∀ earlier event later, trace (step host) (.initial owner) moves = earlier ++ event :: later →
    ∀ key revocation revoker, revocation ∈ earlier → revocation.action = (revoker, .revokeKeyFromUserAddress key) →
      ∀ call args, event.action = (call, .validateCertificate args) →
        event.after.trustedPublicKeys key = event.before.trustedPublicKeys key ∧
        event.after.addressByKey key = event.before.addressByKey key ∧
        ∀ a, event.after.keysByUser a = key → event.before.keysByUser a = key

section

variable {host : Host} {state next : State} {move : Call × Action}

theorem matched_initial (owner : Address) : Matched (.initial owner) := by
  intro a k address key
  exact ⟨fun same => absurd same.symm key, fun same => absurd same.symm address⟩

theorem Matched.of_same (matched : Matched state) (same : SameRegistry state next) : Matched next := by
  intro a k address key
  rw [same.keysByUser, same.addressByKey]
  exact matched a k address key

theorem Matched.link (matched : Matched state) {sender : Address} (isAccount : sender ≠ 0) {key : Word} {expiry : ℕ}
    (user : state.keysByUser sender = 0 ∨ state.keysByUser sender = key)
    (holder : state.addressByKey key = 0 ∨ state.addressByKey key = sender) :
    Matched (state.link sender key expiry) := by
  intro a k address nonzero
  by_cases isSender : a = sender
  · subst isSender
    by_cases isKey : k = key
    · subst isKey
      simp
    · have other : state.addressByKey k ≠ a := by
        intro bound
        have held := (matched a k address nonzero).mpr bound
        rw [held] at user
        exact user.elim nonzero isKey
      simp [isKey, other, Ne.symm isKey]
  · by_cases isKey : k = key
    · subst isKey
      have other : state.keysByUser a ≠ k := by
        intro held
        have bound := (matched a k address nonzero).mp held
        rw [bound] at holder
        exact holder.elim address isSender
      simp [isSender, other, Ne.symm isSender]
    · simpa [isSender, isKey] using matched a k address nonzero

theorem Matched.revoke (matched : Matched state) (key : Word)
    (alone : key = 0 → state.keysByUser (state.addressByKey 0) = 0) : Matched (state.revoke key) := by
  intro a k address nonzero
  rw [revoke_keysByUser, revoke_addressByKey]
  by_cases isKey : k = key
  · subst isKey
    rw [update_self]
    refine ⟨?_, fun same => absurd same.symm address⟩
    by_cases isHolder : a = state.addressByKey k
    · rw [isHolder, update_self]
      exact fun same => absurd same.symm nonzero
    · rw [update_of_ne isHolder]
      exact fun held => absurd ((matched a k address nonzero).mp held).symm isHolder
  · rw [update_of_ne isKey]
    by_cases isHolder : a = state.addressByKey key
    · rw [← isHolder, update_self]
      refine ⟨fun same => absurd same.symm nonzero, fun bound => absurd ?_ isKey⟩
      have held := (matched a k address nonzero).mpr bound
      by_cases isZero : key = 0
      · subst isZero
        have empty := alone rfl
        rw [← isHolder, held] at empty
        exact absurd empty nonzero
      · have heldKey := (matched a key address isZero).mpr isHolder.symm
        exact held.symm.trans heldKey
    · rw [update_of_ne isHolder]
      exact matched a k address nonzero

theorem Matched.effect (matched : Matched state) (effect : Effect host state move next)
    (alone : ∀ call, move = (call, .revokeKeyFromUserAddress 0) → state.keysByUser (state.addressByKey 0) = 0) :
    Matched next := by
  cases effect with
  | trusts | checks => exact matched
  | links call args cert authentic isEndUser stored claimed =>
    exact matched.link call.isAccount claimed.user claimed.key
  | revokes call key allowed => exact matched.revoke key fun isZero => alone call (by rw [isZero])
  | sets call setting next same => exact matched.of_same same

theorem Effect.keysByUser_zero (effect : Effect host state move next)
    (unbound : state.keysByUser 0 = 0) : next.keysByUser 0 = 0 := by
  cases effect with
  | trusts | checks => exact unbound
  | links call args cert authentic isEndUser stored claimed =>
    rw [link_keysByUser, update_of_ne call.isAccount.symm, unbound]
  | revokes call key allowed =>
    rw [revoke_keysByUser, update_apply, unbound, ite_self]
  | sets call setting next same => rw [same.keysByUser, unbound]

theorem Effect.revokedKeys (effect : Effect host state move next) {key : Word}
    (revoked : state.revokedKeys key = true) : next.revokedKeys key = true := by
  cases effect with
  | trusts | links | checks => exact revoked
  | revokes call other allowed =>
    rw [revoke_revokedKeys, update_apply, revoked, ite_self]
  | sets call setting next same => rw [same.revokedKeys, revoked]

theorem Effect.validate_revoked {call : Call} {args : CertificateArgs}
    (effect : Effect host state (call, .validateCertificate args) next) {key : Word}
    (revoked : state.revokedKeys key = true) :
    next.trustedPublicKeys key = state.trustedPublicKeys key ∧ next.addressByKey key = state.addressByKey key ∧
      ∀ a, next.keysByUser a = key → state.keysByUser a = key := by
  cases effect with
  | trusts call args cert authentic isIntermediate stored =>
    have other : key ≠ cert.subjectKeyIdentifier := by
      rintro rfl
      exact Bool.false_ne_true (authentic.subjectLive.symm.trans revoked)
    exact ⟨update_of_ne other _ _, rfl, fun a => id⟩
  | links call args cert authentic isEndUser stored claimed =>
    have other : key ≠ cert.subjectKeyIdentifier := by
      rintro rfl
      exact Bool.false_ne_true (authentic.subjectLive.symm.trans revoked)
    refine ⟨rfl, update_of_ne other _ _, ?_⟩
    intro a held
    by_cases isSender : a = call.sender
    · rw [link_keysByUser, isSender, update_self] at held
      exact absurd held.symm other
    · rwa [link_keysByUser, update_of_ne isSender] at held
  | checks => exact ⟨rfl, rfl, fun a => id⟩

end

section

variable (host : Host) (owner : Address) (moves : List (Call × Action))

theorem matched_around (alone : ∀ event ∈ trace (step host) (.initial owner) moves, ZeroKeyAlone event)
    (event : Event) (member : event ∈ trace (step host) (.initial owner) moves) : Matched event.before := by
  obtain ⟨earlier, later, split⟩ := List.append_of_mem member
  exact (invariant_before (step host) (fun _ => Matched) moves (.initial owner) (matched_initial owner)
    (fun past event member matched accepted =>
      matched.effect (step_effect accepted) fun call isRevocation =>
        alone event member call isRevocation) split).1

theorem keysByUser_zero (event : Event) (member : event ∈ trace (step host) (.initial owner) moves) :
    event.before.keysByUser 0 = 0 := by
  obtain ⟨earlier, later, split⟩ := List.append_of_mem member
  exact (invariant_before (step host) (fun _ state => state.keysByUser 0 = 0) moves (.initial owner) rfl
    (fun past event member unbound accepted => (step_effect accepted).keysByUser_zero unbound) split).1

theorem revoked_since {earlier later : List Event} {event : Event}
    (split : trace (step host) (.initial owner) moves = earlier ++ event :: later) {key : Word}
    {revocation : Event} {revoker : Call} (before : revocation ∈ earlier)
    (revokes : revocation.action = (revoker, .revokeKeyFromUserAddress key)) :
    event.before.revokedKeys key = true := by
  let Revoked (past : List Event) (state : State) : Prop := ∀ revocation ∈ past, ∀ revoker,
    revocation.action = (revoker, .revokeKeyFromUserAddress key) → state.revokedKeys key = true
  have initially : Revoked [] (.initial owner) :=
    fun revocation none => absurd none List.not_mem_nil
  have preserved : ∀ past event, event ∈ trace (step host) (.initial owner) moves →
      Revoked past event.before → step host event.before event.action = .ok event.after →
      Revoked (past ++ [event]) event.after := by
    intro past event member revoked accepted revocation known revoker revokes
    obtain known | isLast := List.mem_append.mp known
    · exact (step_effect accepted).revokedKeys (revoked revocation known revoker revokes)
    · rw [List.mem_singleton.mp isLast] at revokes
      rw [revokes, step, revokeKeyFromUserAddress_eq_ok] at accepted
      rw [accepted.2, revoke_revokedKeys, update_self]
  exact (invariant_before (step host) Revoked moves (.initial owner) initially preserved split).1
    revocation before revoker revokes

theorem revokedForGood : RevokedForGood host owner moves := by
  intro earlier event later split key revocation revoker before revokes call args validates
  have revoked := revoked_since host owner moves split before revokes
  have accepted := (trace_step _ split).2
  rw [validates] at accepted
  exact (step_effect accepted).validate_revoked revoked

theorem bindings_match_iff :
    (BindingsMatch host owner moves ↔ ∀ event ∈ trace (step host) (.initial owner) moves, ZeroKeyAlone event) ∧
    RevokedForGood host owner moves := by
  refine ⟨⟨?_, ?_⟩, revokedForGood host owner moves⟩
  · intro kept event member call revokes
    by_contra bound
    have accepted := (mem_trace _ _ _ event member).2
    obtain ⟨earlier, later, split⟩ := List.append_of_mem member
    obtain ⟨matched, _⟩ := invariant_before (step host) (fun _ => Matched) moves (.initial owner)
      (matched_initial owner) (fun past event member _ _ => kept event member) split
    -- the holder of the zero key keeps its other key on one side
    have address : event.before.addressByKey 0 ≠ 0 := by
      intro nobody
      rw [nobody] at bound
      exact bound (keysByUser_zero host owner moves event member)
    have after := kept event member
    rw [revokes, step, revokeKeyFromUserAddress_eq_ok] at accepted
    rw [accepted.2] at after
    have held := (after _ _ address bound).mpr (by
      rw [revoke_addressByKey, update_of_ne bound]
      exact (matched _ _ address bound).mp rfl)
    rw [revoke_keysByUser, update_self] at held
    exact bound held.symm
  · intro alone event member
    have matched := matched_around host owner moves alone event member
    exact matched.effect (step_effect (mem_trace _ _ _ event member).2) fun call revokes =>
      alone event member call revokes

end

def toyZeroLinked : State := toyReady.link 0xB 0 1893456000

def toyTwiceLinked : State := toyZeroLinked.link 0xB 2 1893456000

/-- The user links a certificate with the zero key, then one with the key 2; then the zero
key is revoked, which every unbound account may do. -/
theorem zero_key_unbinds_one_side : ¬ BindingsMatch toyHost 0xA (toySetup ++
    [(toyUser 1750000000, .validateCertificate (ToyFields.linking ⟨1, 0, "300101", 0x80⟩)),
      (toyUser 1750000001, .validateCertificate (ToyFields.linking ⟨1, 2, "300101", 0x80⟩)),
      (toyStranger 1750000002, .revokeKeyFromUserAddress 0)]) := by
  intro kept
  have first : step toyHost toyReady (toyUser 1750000000,
      .validateCertificate (ToyFields.linking ⟨1, 0, "300101", 0x80⟩)) = .ok toyZeroLinked :=
    step_assess _ _ _ (show assess _ _ _ _ = .ok (.link 0xB 0 1893456000) by decide +kernel)
  have second : step toyHost toyZeroLinked (toyUser 1750000001,
      .validateCertificate (ToyFields.linking ⟨1, 2, "300101", 0x80⟩)) = .ok toyTwiceLinked :=
    step_assess _ _ _ (show assess _ _ _ _ = .ok (.link 0xB 2 1893456000) by decide +kernel)
  have third : step toyHost toyTwiceLinked (toyStranger 1750000002, .revokeKeyFromUserAddress 0) =
      .ok (toyTwiceLinked.revoke 0) :=
    (revokeKeyFromUserAddress_eq_ok _ _ _ _).mpr ⟨Or.inl rfl, rfl⟩
  have after := kept ⟨toyTwiceLinked, (toyStranger 1750000002, .revokeKeyFromUserAddress 0),
    toyTwiceLinked.revoke 0⟩ (by
      rw [trace_append, toySetup_run, trace_cons_ok _ first, trace_cons_ok _ second, trace_cons_ok _ third]
      simp)
  have held := (after 0xB 2 (by decide) (by decide)).mpr rfl
  exact absurd held (by decide)

end Nightfall.X509
