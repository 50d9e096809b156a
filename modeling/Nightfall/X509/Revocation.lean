import Nightfall.X509.Issuing

/-! What a revocation changes for the address that was bound to the key. It deletes the
address's entry in `keysByUser`, so from then on `x509Check` asks whether the zero key is
revoked; the allowlist entry and the expiry stay. -/

namespace Nightfall.X509

open Contract Revert Runs

def Revalidates (user : Address) (event : Event) : Prop :=
  ∃ call args, event.action = (call, .validateCertificate args) ∧ call.sender = user

def StaysOut (host : Host) (state : State) (user : Address) (since : ℕ) : Prop :=
  ∀ moves timestamp, since ≤ timestamp → (∀ event ∈ trace (step host) state moves, ¬ Revalidates user event) →
    (run (step host) state moves).allowlisting = true → (run (step host) state moves).x509Check timestamp user = false

def Listed (state : State) : Prop :=
  ∀ key, state.addressByKey key ≠ 0 → state.users (state.addressByKey key) = true

section

variable {host : Host} {state next : State} {move : Call × Action}

theorem Listed.effect (listed : Listed state) (effect : Effect host state move next) : Listed next := by
  cases effect with
  | trusts | checks => exact listed
  | links call args cert authentic isEndUser stored claimed =>
    intro key bound
    rw [link_addressByKey, Function.update_apply] at bound ⊢
    rw [link_users]
    split at bound
    · rename_i isKey
      rw [if_pos isKey, Function.update_self]
    · rename_i other
      rw [if_neg other, Function.update_apply, listed key bound, ite_self]
  | revokes call revoked allowed =>
    intro key bound
    rw [revoke_addressByKey, Function.update_apply] at bound ⊢
    split at bound
    · exact absurd rfl bound
    · rename_i other
      rw [if_neg other]
      exact listed key bound
  | sets call setting next same =>
    intro key bound
    rw [same.addressByKey] at bound ⊢
    rw [same.users]
    exact listed key bound

structure Unbound (user : Address) (expiry : ℕ) (zeroRevoked : Bool) (state : State) : Prop where
  key : state.keysByUser user = 0
  listed : state.users user = true
  expiry : state.expires user = expiry
  zero : zeroRevoked = true → state.revokedKeys 0 = true

variable {user : Address} {expiry : ℕ} {zeroRevoked : Bool}

theorem Unbound.effect (unbound : Unbound user expiry zeroRevoked state) (effect : Effect host state move next)
    (elsewhere : ∀ call args, move = (call, .validateCertificate args) → call.sender ≠ user) :
    Unbound user expiry zeroRevoked next := by
  cases effect with
  | trusts => exact ⟨unbound.key, unbound.listed, unbound.expiry, unbound.zero⟩
  | links call args cert authentic isEndUser stored claimed =>
    have other : user ≠ call.sender := (elsewhere call args rfl).symm
    constructor
    · rw [link_keysByUser, Function.update_of_ne other, unbound.key]
    · rw [link_users, Function.update_of_ne other, unbound.listed]
    · rw [link_expires, Function.update_of_ne other, unbound.expiry]
    · exact unbound.zero
  | checks => exact unbound
  | revokes call key allowed =>
    refine ⟨?_, unbound.listed, unbound.expiry, fun revoked => ?_⟩
    · rw [revoke_keysByUser, Function.update_apply, unbound.key, ite_self]
    · rw [revoke_revokedKeys, Function.update_apply, unbound.zero revoked, ite_self]
  | sets call setting next same =>
    constructor
    · rw [same.keysByUser, unbound.key]
    · rw [same.users, unbound.listed]
    · rw [same.expires, unbound.expiry]
    · rw [same.revokedKeys]
      exact unbound.zero

theorem Unbound.x509Check (unbound : Unbound user expiry zeroRevoked state) (on : state.allowlisting = true)
    (timestamp : ℕ) : state.x509Check timestamp user = false ↔ state.revokedKeys 0 = true ∨ expiry ≤ timestamp := by
  have allowed : state.isAllowlisted user = true := by
    rw [State.isAllowlisted, if_neg (by simp [on]), unbound.listed]
  rw [State.x509Check, decide_eq_false_iff_not, unbound.key, unbound.expiry, on, allowed]
  cases state.revokedKeys 0 with
  | false => simp
  | true => simp

end

section

variable (host : Host) (owner : Address) (past : List (Call × Action))

theorem listed_run : Listed (run (step host) (.initial owner) past) :=
  invariant_run (step host) (fun _ => Listed) past [] (.initial owner) (fun _ bound => absurd rfl bound)
    (fun _ _ _ listed accepted => listed.effect (step_effect accepted))

variable {user : Address} {expiry : ℕ} {zeroRevoked : Bool} {state : State}

theorem Unbound.run (unbound : Unbound user expiry zeroRevoked state) (moves : List (Call × Action))
    (silent : ∀ event ∈ trace (step host) state moves, ¬ Revalidates user event) :
    Unbound user expiry zeroRevoked (run (step host) state moves) :=
  invariant_run (step host) (fun _ => Unbound user expiry zeroRevoked) moves [] state unbound
    fun _ event member unbound accepted =>
      unbound.effect (step_effect accepted) fun call args validates isUser =>
        silent event member ⟨call, args, validates, isUser⟩

/-- A revocation shuts its user out exactly when the zero key is revoked or the user's
certificate has run out. -/
theorem revocation_effective_iff (user : Address) (call : Call) (key : Word) (next : State)
    (accepted : step host (run (step host) (.initial owner) past) (call, .revokeKeyFromUserAddress key) = .ok next)
    (bound : (run (step host) (.initial owner) past).addressByKey key = user) (isUser : user ≠ 0)
    (on : next.allowlisting = true) :
    StaysOut host next user call.timestamp ↔ key = 0 ∨ (run (step host) (.initial owner) past).revokedKeys 0 = true ∨
        (run (step host) (.initial owner) past).expires user ≤ call.timestamp := by
  have listed := listed_run host owner past key (bound ▸ isUser)
  obtain ⟨_, rfl⟩ := (revokeKeyFromUserAddress_eq_ok _ _ _ _).mp accepted
  have unbound : Unbound user ((run (step host) (.initial owner) past).expires user)
      (((run (step host) (.initial owner) past).revoke key).revokedKeys 0)
      ((run (step host) (.initial owner) past).revoke key) := by
    refine ⟨?_, bound ▸ listed, rfl, id⟩
    rw [revoke_keysByUser, bound, Function.update_self]
  have zero : ((run (step host) (.initial owner) past).revoke key).revokedKeys 0 = true ↔
      key = 0 ∨ (run (step host) (.initial owner) past).revokedKeys 0 = true := by
    rw [revoke_revokedKeys]
    by_cases isZero : key = 0
    · rw [isZero, Function.update_self]
      exact ⟨fun _ => Or.inl rfl, fun _ => rfl⟩
    · rw [Function.update_of_ne (Ne.symm isZero)]
      exact ⟨Or.inr, fun either => either.resolve_left isZero⟩
  rw [← or_assoc, ← zero]
  constructor
  · intro staysOut
    exact (unbound.x509Check on _).mp (staysOut [] call.timestamp (Nat.le_refl _)
      (fun _ member => absurd member List.not_mem_nil) on)
  · intro out moves timestamp later silent stillOn
    have reached := unbound.run host moves silent
    refine (reached.x509Check stillOn timestamp).mpr (out.imp reached.zero ?_)
    intro expired
    exact expired.trans later

end

theorem toyLinked_run : run (step toyHost) (.initial 0xA) (toySetup ++ [toyLinking]) = toyLinked := by
  rw [run_append, toySetup_run, run_cons_ok _ toyLinked_step, run]

theorem revocation_effective_iff_sample : StaysOut toyHost (toyLinked.revoke 2) 0xB 1750000001 ↔
      (2 : Word) = 0 ∨ toyLinked.revokedKeys 0 = true ∨ toyLinked.expires 0xB ≤ 1750000001 := by
  have accepted : step toyHost toyLinked (toyUser 1750000001, .revokeKeyFromUserAddress 2) =
      .ok (toyLinked.revoke 2) := (revokeKeyFromUserAddress_eq_ok _ _ _ _).mpr ⟨Or.inl rfl, rfl⟩
  have effective := revocation_effective_iff toyHost 0xA (toySetup ++ [toyLinking]) 0xB
    (toyUser 1750000001) 2 (toyLinked.revoke 2)
  rw [toyLinked_run] at effective
  exact effective accepted rfl toyAccounts.2.1 rfl

/-- The user revokes their own certificate, and the check still passes a second later. -/
theorem revoked_user_passes_check : run (step toyHost) (.initial 0xA) (toySetup ++
        [toyLinking, (toyUser 1750000001, .revokeKeyFromUserAddress 2)]) = toyLinked.revoke 2 ∧
      (toyLinked.revoke 2).allowlisting = true ∧ (toyLinked.revoke 2).revokedKeys 2 = true ∧
      (toyLinked.revoke 2).x509Check 1750000002 0xB = true := by
  have accepted : step toyHost toyLinked (toyUser 1750000001, .revokeKeyFromUserAddress 2) =
      .ok (toyLinked.revoke 2) := (revokeKeyFromUserAddress_eq_ok _ _ _ _).mpr ⟨Or.inl rfl, rfl⟩
  have split : toySetup ++ [toyLinking, (toyUser 1750000001, .revokeKeyFromUserAddress 2)] =
      (toySetup ++ [toyLinking]) ++ [(toyUser 1750000001, .revokeKeyFromUserAddress 2)] := by simp
  refine ⟨?_, rfl, rfl, rfl⟩
  rw [split, run_append, toyLinked_run, run_cons_ok _ accepted, run]

end Nightfall.X509
