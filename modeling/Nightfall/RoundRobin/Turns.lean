import Nightfall.RoundRobin.Inactivity

/-! The grace period of a new turn. A rotation, and the exit of the current
proposer, start a turn without starting the clock, so the newcomer inherits what
is left of the old grace period. -/

namespace Nightfall.RoundRobin

open Contract Revert Rings Runs Totals

def StartsTurn (ring : State) (call : Call) (action : Action) : Prop :=
  action = .rotateProposer ∨ action = .skipInactiveProposer ∨
    (action = .removeProposer ∧ call.sender = ring.current.addr)

/-- However the run goes on, no skip hits the proposer that is current now within the grace
period of a turn that started at the given block. -/
def Protected (config : Config) (world : World) (turnStart : ℕ) : Prop :=
  ∀ moves earlier event later call, trace (advance config) world moves = earlier ++ event :: later →
    (∀ past ∈ earlier, past.after.ring.current.addr = world.ring.current.addr) →
    event.action = .call call .skipInactiveProposer → turnStart + config.graceBlocks ≤ call.block

def StaysAlone (config : Config) (world : World) (turnStart : ℕ) : Prop :=
  ∀ moves, (run (advance config) world moves).layer2BlockNumber = world.layer2BlockNumber →
    (run (advance config) world moves).block < turnStart + config.graceBlocks →
    (run (advance config) world moves).ring.proposerCount = 1

def ClockCovers (config : Config) (world : World) (turnStart : ℕ) : Prop :=
  turnStart ≤ world.ring.lastProposedAt ∨
  world.ring.lastSeenL2Block < world.layer2BlockNumber ∨
  2 ^ 256 ≤ world.ring.lastProposedAt + config.graceBlocks ∨
  StaysAlone config world turnStart

section

variable {config : Config} {call : Call} {state next : State} {rest : List Address}

theorem skip_changes_current (wellFormed : WellFormed state rest)
    (accepted : skipInactiveProposer config call state = .ok next) : next.current.addr ≠ state.current.addr := by
  obtain ⟨others, after⟩ := wellFormed.skipInactiveProposer accepted
  have inRing := (after.members.mem_iff _).mp (List.mem_cons_self (a := next.current.addr))
  obtain ⟨several, block, seen, charged, penalty, rfl⟩ := skipInactiveProposer_cases accepted
  have reset := wellFormed.setClock block seen
  rcases lazyPenalizeProposer_eq_ok.mp penalty with ⟨_, removal⟩ | ⟨_, _, rfl⟩
  · have entries : (charged.skipped call state.current.addr).proposers = charged.proposers := by
      simp only [State.skipped]
      split <;> rfl
    intro same
    rw [same, entries, removeProposer_entry removal] at inRing
    exact inRing rfl
  · have members := @WellFormed.penalized config _ _ reset
    have successor := @WellFormed.penalized_next config _ _ reset
    have next := members.named _ (members.next_mem List.mem_cons_self)
    rw [← successor] at next
    rw [State.skipped, if_pos ((members.mem_iff _).mp List.mem_cons_self)]
    exact next.trans_ne (reset.next_ne several)

theorem alone_stays_current (wellFormed : WellFormed state []) {action : Action}
    (accepted : step config state (call, action) = .ok next) : next.current.addr = state.current.addr := by
  have single : state.proposerCount = 1 := wellFormed.count
  have members := wellFormed.members
  have noRemoval : ∀ address left, removeProposer config call state address ≠ .ok left := by
    intro address left removal
    obtain ⟨named, nonzero, ⟨_, several, _⟩ | ⟨other, _⟩⟩ := removeProposer_eq_ok.mp removal
    · omega
    · have member : address ∈ [state.current.addr] := by
        rw [members.mem_iff, named]
        exact nonzero
      exact other (List.mem_singleton.mp member)
  cases action with
  | addProposer proposerUrl =>
    obtain ⟨may, rfl⟩ := addProposer_eq_ok.mp accepted
    change (state.joinedProposers config call proposerUrl state.current.addr).addr = _
    have fresh := wellFormed.newcomer_not_mem may.newcomer
    have old : state.current.addr ≠ call.sender := fun same => fresh (same ▸ List.mem_cons_self)
    rw [wellFormed.joined_entries proposerUrl may.newcomer, if_neg old]
    exact members.named _ List.mem_cons_self
  | removeProposer => exact absurd (unpaid accepted) (noRemoval _ _)
  | rotateProposer =>
    obtain ⟨charged, first, others, address, inRing, _, member, rfl, removal | ⟨rfl, rfl⟩⟩ :=
      wellFormed.rotated (unpaid accepted)
    · exact absurd removal (noRemoval _ _)
    · exact (inRing.named address member).trans (List.mem_singleton.mp member)
  | skipInactiveProposer =>
    have several := (skipInactiveProposer_cases (unpaid accepted)).1
    omega
  | withdraw amount =>
    obtain ⟨_, _, _, rfl⟩ := withdraw_eq_ok.mp (unpaid accepted)
    rfl

end

variable {config : Config} {world : World} {move : Move}

theorem alone_keeps_turn {next : World} (timed : Timed world) (alone : world.ring.proposerCount = 1)
    (accepted : advance config world move = .ok next) : next.ring.current.addr = world.ring.current.addr := by
  obtain ⟨rest, wellFormed⟩ := timed.wellFormed
  obtain rfl : rest = [] := List.length_eq_zero_iff.mp (by have := wellFormed.count; omega)
  cases move with
  | acceptBlock block =>
    obtain ⟨_, _, rfl⟩ := advance_acceptBlock_eq_ok.mp accepted
    rfl
  | call call action =>
    obtain ⟨_, ring, stepped, rfl⟩ := advance_call_eq_ok.mp accepted
    exact alone_stays_current wellFormed stepped

theorem advance_mono {next : World} (accepted : advance config world move = .ok next) :
    world.block ≤ next.block ∧ world.layer2BlockNumber ≤ next.layer2BlockNumber := by
  cases move with
  | acceptBlock block =>
    obtain ⟨mined, _, rfl⟩ := advance_acceptBlock_eq_ok.mp accepted
    exact ⟨mined.1, by simp⟩
  | call call action =>
    obtain ⟨admitted, ring, _, rfl⟩ := advance_call_eq_ok.mp accepted
    exact ⟨admitted.1, Int.le_refl _⟩

theorem run_mono (config : Config) (world : World) (moves : List Move) :
    world.block ≤ (run (advance config) world moves).block ∧
      world.layer2BlockNumber ≤ (run (advance config) world moves).layer2BlockNumber := by
  refine invariant_run (advance config) (fun _ reached => world.block ≤ reached.block ∧
    world.layer2BlockNumber ≤ reached.layer2BlockNumber) moves [] world
    ⟨Nat.le_refl _, Int.le_refl _⟩ ?_
  intro past event _ before accepted
  have after := advance_mono accepted
  exact ⟨before.1.trans after.1, before.2.trans after.2⟩

/-- The turn of the proposer that is current in `world` goes on, and the clock is as it was. -/
structure SameTurn (world reached : World) : Prop where
  timed : Timed reached
  current : reached.ring.current.addr = world.ring.current.addr
  proposedAt : reached.ring.lastProposedAt = world.ring.lastProposedAt
  seen : reached.ring.lastSeenL2Block = world.ring.lastSeenL2Block
  layer2 : world.layer2BlockNumber ≤ reached.layer2BlockNumber

theorem SameTurn.refl (timed : Timed world) : SameTurn world world :=
  ⟨timed, rfl, rfl, rfl, Int.le_refl _⟩

theorem SameTurn.advance {reached next : World}
    (turn : SameTurn world reached) (accepted : advance config reached move = .ok next)
    (current : next.ring.current.addr = world.ring.current.addr) : SameTurn world next := by
  have timed := turn.timed.advance accepted
  have mono := (advance_mono accepted).2
  cases move with
  | acceptBlock block =>
    obtain ⟨_, _, rfl⟩ := advance_acceptBlock_eq_ok.mp accepted
    exact ⟨timed, current, turn.proposedAt, turn.seen, turn.layer2.trans mono⟩
  | call call action =>
    obtain ⟨_, ring, stepped, rfl⟩ := advance_call_eq_ok.mp accepted
    have noSkip : action ≠ .skipInactiveProposer := by
      rintro rfl
      obtain ⟨rest, wellFormed⟩ := turn.timed.wellFormed
      exact skip_changes_current wellFormed (unpaid stepped) (current.trans turn.current.symm)
    obtain ⟨proposedAt, seen⟩ := (step_clock stepped).1 noSkip
    exact ⟨timed, current, proposedAt.trans turn.proposedAt, seen.trans turn.seen, turn.layer2.trans mono⟩

theorem sameTurn_run (timed : Timed world) (moves : List Move)
    (current : ∀ past ∈ trace (advance config) world moves, past.after.ring.current.addr = world.ring.current.addr) :
    SameTurn world (run (advance config) world moves) :=
  invariant_run (advance config) (fun _ reached => SameTurn world reached) moves [] world
    (SameTurn.refl timed) fun _ event member turn accepted =>
      turn.advance accepted (current event member)

theorem covered_protects (timed : Timed world) {turnStart : ℕ}
    (covers : ClockCovers config world turnStart) : Protected config world turnStart := by
  intro moves earlier event later call split current called
  obtain ⟨first, second, _, traced, continued⟩ := trace_split (advance config) moves world _ _ split
  obtain ⟨here, _, accepted⟩ := trace_head (advance config) second _ event later continued
  have turn := sameTurn_run timed first (by rw [traced]; exact current)
  rw [← here] at turn
  rw [called] at accepted
  obtain ⟨several, nothingNew, fits, due⟩ := skip_accepted accepted
  have layer2 := turn.layer2
  have seenBefore := timed.seen
  rw [turn.proposedAt] at fits due
  rw [turn.seen] at nothingNew
  rcases covers with reset | behind | never | alone
  · omega
  · omega
  · omega
  · by_contra early
    have mined := (advance_call_eq_ok.mp accepted).1.1
    have single := alone first (by rw [← here]; omega) (by rw [← here]; omega)
    rw [← here] at single
    omega

theorem joined_before (config : Config) (world : World) (limit : ℕ) (moves : List Move) :
    ∀ reached, SameTurn world reached →
      (run (advance config) reached moves).layer2BlockNumber = world.layer2BlockNumber →
      (run (advance config) reached moves).block < limit →
      (run (advance config) reached moves).ring.proposerCount ≠ 1 →
      ∃ first, SameTurn world (run (advance config) reached first) ∧
        (run (advance config) reached first).layer2BlockNumber = world.layer2BlockNumber ∧
        (run (advance config) reached first).block < limit ∧
        1 < (run (advance config) reached first).ring.proposerCount ∧ ∀ past ∈ trace (advance config) reached first,
          past.after.ring.current.addr = world.ring.current.addr := by
  induction moves with
  | nil =>
    intro reached turn layer2 early several
    obtain ⟨rest, wellFormed⟩ := turn.timed.wellFormed
    have count := wellFormed.count
    simp only [run] at layer2 early several
    refine ⟨[], turn, layer2, early, ?_, ?_⟩
    · simp only [run]
      omega
    · simp [trace]
  | cons move moves ih =>
    intro reached turn layer2 early several
    have mono := run_mono config reached (move :: moves)
    have before := turn.layer2
    by_cases already : reached.ring.proposerCount = 1
    · cases outcome : advance config reached move with
      | error reason =>
        rw [run_cons_error _ outcome] at layer2 early several
        exact ih reached turn layer2 early several
      | ok next =>
        rw [run_cons_ok _ outcome] at layer2 early several
        have current : next.ring.current.addr = world.ring.current.addr :=
          (alone_keeps_turn turn.timed already outcome).trans turn.current
        have nextTurn := turn.advance outcome current
        obtain ⟨first, firstTurn, firstLayer2, firstEarly, firstSeveral, kept⟩ :=
          ih next nextTurn layer2 early several
        refine ⟨move :: first, ?_⟩
        rw [run_cons_ok _ outcome, trace_cons_ok _ outcome]
        refine ⟨firstTurn, firstLayer2, firstEarly, firstSeveral, ?_⟩
        intro past member
        rcases List.mem_cons.mp member with rfl | later
        · exact current
        · exact kept past later
    · obtain ⟨rest, wellFormed⟩ := turn.timed.wellFormed
      have count := wellFormed.count
      refine ⟨[], turn, ?_, ?_, ?_, ?_⟩
      · simp only [run]
        omega
      · simp only [run]
        omega
      · simp only [run]
        omega
      · simp [trace]

theorem protected_iff (timed : Timed world) (turnStart : ℕ) :
    Protected config world turnStart ↔ ClockCovers config world turnStart := by
  refine ⟨?_, covered_protects timed⟩
  intro safe
  by_contra uncovered
  simp only [ClockCovers, not_or, Nat.not_le, Int.not_lt] at uncovered
  obtain ⟨older, upToDate, expires, company⟩ := uncovered
  simp only [StaysAlone, not_forall] at company
  obtain ⟨moves, sameLayer2, early, several⟩ := company
  obtain ⟨first, turn, layer2, before, joined, kept⟩ := joined_before config world _ moves world
    (SameTurn.refl timed) sameLayer2 early several
  have proposedAt := turn.proposedAt
  have sawL2 := turn.seen
  obtain ⟨call, admitted, free, isAt⟩ := turn.timed.exists_call
    (Nat.le_max_left _ (world.ring.lastProposedAt + config.graceBlocks))
    (Nat.max_lt.mpr ⟨turn.timed.blockFits, expires⟩)
  obtain ⟨next, skipped⟩ := (skip_succeeds_iff turn.timed joined admitted free).mpr
    ⟨by omega, by rw [proposedAt, isAt]; exact Nat.le_max_right _ _⟩
  have split : trace (advance config) world (first ++ [.call call .skipInactiveProposer]) =
      trace (advance config) world first ++
        ⟨run (advance config) world first, .call call .skipInactiveProposer, next⟩ :: [] := by
    rw [trace_append, trace_cons_ok _ skipped, trace]
  have late := safe _ _ _ [] call split kept rfl
  omega

def TurnsProtected (config : Config) (history : List (Runs.Event World Move)) : Prop :=
  ∀ event ∈ history, ∀ call action, event.action = .call call action →
    StartsTurn event.before.ring call action → Protected config event.after call.block

section

variable {deployer owner : Call} {config : Config} {start booted : State}
  {stake lazyPenalty exitPenalty coolingBlocks rotationBlocks graceBlocks : ℕ}
  {address : Address} {url : String}
  (deployed : initializeContract deployer stake lazyPenalty exitPenalty coolingBlocks rotationBlocks
    graceBlocks = .ok (config, start))
  (nonzero : address ≠ 0) (seeded : bootstrapDefaultProposer config owner start address url = .ok booted)
include deployed nonzero seeded

theorem trace_timed (mined : owner.block < 2 ^ 256) (moves : List Move) :
    ∀ event ∈ trace (advance config) ⟨booted, owner.layer2BlockNumber, owner.block, owner.block,
      owner.block⟩ moves, Timed event.after := by
  intro event member
  obtain ⟨earlier, later, split⟩ := List.append_of_mem member
  obtain ⟨before, accepted⟩ := invariant_before (advance config) (fun _ world => Timed world) moves _
    (run_timed deployed nonzero seeded mined []) (fun _ _ _ timed => timed.advance) split
  exact before.advance accepted

/-- A run protects its turns exactly when the clock covers each of them. -/
theorem turns_protected_iff (mined : owner.block < 2 ^ 256) (moves : List Move) :
    TurnsProtected config (trace (advance config) ⟨booted, owner.layer2BlockNumber, owner.block,
      owner.block, owner.block⟩ moves) ↔
    ∀ event ∈ trace (advance config) ⟨booted, owner.layer2BlockNumber, owner.block, owner.block,
      owner.block⟩ moves, ∀ call action, event.action = .call call action →
      StartsTurn event.before.ring call action → ClockCovers config event.after call.block := by
  have timed := trace_timed deployed nonzero seeded mined moves
  constructor
  · intro safe event member call action called starts
    exact (protected_iff (timed event member) call.block).mp (safe event member call action called starts)
  · intro covered event member call action called starts
    exact (protected_iff (timed event member) call.block).mpr (covered event member call action called starts)

end

def guestRotatedIn : List Move :=
  [.call (guestCall 10 1 0) (.addProposer "guest"), .call (guestCall 0 100 0) .rotateProposer]

theorem turns_protected_iff_sample : TurnsProtected ringConfig (trace (advance ringConfig) ringWorld guestRotatedIn) ↔
    ∀ event ∈ trace (advance ringConfig) ringWorld guestRotatedIn, ∀ call action,
      event.action = .call call action → StartsTurn event.before.ring call action →
      ClockCovers ringConfig event.after call.block :=
  turns_protected_iff ringConfig_deployed ownerAddress_ne_zero ringStart_seeded (by decide) guestRotatedIn

/-- The clock still runs from the bootstrap, so the guest can be skipped in the very block
in which its turn starts. -/
theorem rotated_proposer_skipped :
    ¬ TurnsProtected ringConfig (trace (advance ringConfig) ringWorld guestRotatedIn) := by
  intro safe
  have rotated : ∃ before after, trace (advance ringConfig) ringWorld guestRotatedIn =
      [before, after] ∧ after.action = .call (guestCall 0 100 0) .rotateProposer ∧
      after.after = run (advance ringConfig) ringWorld guestRotatedIn := ⟨_, _, rfl, rfl, rfl⟩
  obtain ⟨before, after, traced, called, reached⟩ := rotated
  rw [traced] at safe
  have isSafe := safe after (by simp) _ _ called (Or.inl rfl)
  have timed : Timed (run (advance ringConfig) ringWorld guestRotatedIn) :=
    run_timed ringConfig_deployed ownerAddress_ne_zero ringStart_seeded (by decide) guestRotatedIn
  rw [reached] at isSafe
  rcases (protected_iff timed _).mp isSafe with reset | behind | never | alone
  · exact absurd reset (by decide +kernel)
  · exact absurd behind (by decide +kernel)
  · exact absurd never (by decide +kernel)
  · exact absurd (alone [] rfl (by decide +kernel)) (by decide +kernel)

end Nightfall.RoundRobin
