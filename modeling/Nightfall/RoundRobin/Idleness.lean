import Nightfall.Contract.Attestation
import Nightfall.RoundRobin.Bootstrap

/-! The penalty for an idle turn, over runs of the proposer contract together with Nightfall. -/

namespace Nightfall.RoundRobin

open Contract Revert Runs Function List

variable (event : JointEvent)

/-- Both contracts. While a fee is paid out of `propose_block`, `paying` holds the proposer
and the state that Nightfall is in once the payment returns. -/
structure Joint where
  ring : State
  nightfall : Contract.State
  wired : Bool
  paying : Option (Address × Contract.State)

def Joint.height (joint : Joint) : ℤ := joint.nightfall.layer2BlockNumber.toInt

def Joint.payee (joint : Joint) : Option Address := joint.paying.map Prod.fst

/-- A call to one of the contracts; `feePaid` is the return of the payment that an accepted
`propose_block` makes. -/
inductive Deed where
  | bootstrap (call : Call) (address : Address) (url : String)
  | call (call : Call) (action : Action)
  | nightfall (action : Contract.Action)
  | feePaid

def jointStep (env : Environment) (config : Config) (joint : Joint) : Deed → Except String Joint
  | .bootstrap call address url => do
      require (call.layer2BlockNumber = joint.height) "no such call"
      let ring ← bootstrapDefaultProposer config call joint.ring address url
      return { joint with ring := ring, wired := true }
  | .call call action => do
      require (call.layer2BlockNumber = joint.height) "no such call"
      let ring ← wiredStep config joint.wired joint.ring call action
      return { joint with ring := ring }
  | .nightfall action => do
      require (joint.paying = none) "ReentrancyGuardReentrantCall"
      let next ← Contract.step env joint.nightfall action
      match action with
      | .proposeBlock call _ => do
          require (call.currentProposer = joint.ring.current.addr) "no such call"
          return { joint with paying := some (call.sender, next) }
      | _ => return { joint with nightfall := next }
  | .feePaid =>
    match joint.paying with
    | none => .error "no such return"
    | some payment => return { joint with nightfall := payment.2, paying := none }

def Joint.initial (block : ℕ) (nightfall : Contract.State) : Joint :=
  ⟨initialState block, nightfall, false, none⟩

def BeginsTurn (joint : Joint) : Deed → Prop
  | .bootstrap _ _ _ => True
  | .call call action => action = .rotateProposer ∨ (action = .skipInactiveProposer ∧ joint.ring.current.addr ≠ 0) ∨
      (action = .removeProposer ∧ call.sender = joint.ring.current.addr)
  | .nightfall _ => False
  | .feePaid => False

abbrev JointEvent := Runs.Event Joint Deed

def Accepts (proposer : Address) : Prop :=
  event.action = .feePaid ∧ event.before.payee = some proposer

def Penalised (config : Config) (before after : State) (proposer : Address) : Prop :=
  (after.proposers proposer).stake + config.lazyPenalty = (before.proposers proposer).stake ∨
    (proposer ≠ 0 ∧ (before.proposers proposer).addr = proposer ∧ after.proposers proposer = Proposer.empty)

structure Anchored (ring : State) : Prop where
  named : ∀ a, (ring.proposers a).addr = 0 ∨ (ring.proposers a).addr = a
  kept : (ring.proposers ring.current.addr).addr = ring.current.addr

theorem entry_kept {proposers : Address → Proposer} (named : ∀ a, (proposers a).addr = 0 ∨ (proposers a).addr = a)
    (a : Address) : (proposers (proposers a).addr).addr = (proposers a).addr := by
  obtain zero | self := named a
  · rw [zero]
    exact (named 0).elim id id
  · rw [self, self]

theorem Anchored.of_entry {ring : State} (named : ∀ a, (ring.proposers a).addr = 0 ∨ (ring.proposers a).addr = a)
    (a : Address) (entry : ring.current = ring.proposers a) : Anchored ring := by
  refine ⟨named, ?_⟩
  rw [entry]
  exact entry_kept named a

theorem anchored_initial (block : ℕ) : Anchored (initialState block) :=
  ⟨fun _ => Or.inl rfl, rfl⟩

theorem setStake_addr (ring : State) (address : Address) (stake : ℕ) (a : Address) :
    (ring.setStake address stake a).addr = (ring.proposers a).addr := by
  rw [State.setStake, update_addr]
  rfl

theorem removed_addr (ring : State) (address a : Address) :
    ((ring.removed address).proposers a).addr = if a = address then 0 else (ring.proposers a).addr := by
  have others := (unlink_other ring.proposers address a).2.1
  simp only [State.removed]
  by_cases here : a = address
  · rw [here, update_self, if_pos rfl]
    rfl
  · rw [update_of_ne here, if_neg here, others]

section

variable {config : Config} {call : Call} {ring next : State}

theorem Anchored.exited (anchored : Anchored ring) (address : Address) :
    Anchored (ring.exited config call address) := by
  refine Anchored.of_entry (fun a => ?_) ring.current.nextAddr rfl
  change (ring.setStake address _ a).addr = 0 ∨ (ring.setStake address _ a).addr = a
  rw [setStake_addr]
  exact anchored.named a

theorem Anchored.removed (anchored : Anchored ring) (address : Address) : Anchored (ring.removed address) := by
  refine Anchored.of_entry (fun a => ?_) ring.current.addr rfl
  rw [removed_addr]
  split
  · exact Or.inl rfl
  · exact anchored.named a

theorem Anchored.penalized (anchored : Anchored ring) (address : Address) :
    Anchored (ring.penalized config address) := by
  constructor
  · intro a
    change (ring.setStake address _ a).addr = 0 ∨ (ring.setStake address _ a).addr = a
    rw [setStake_addr]
    exact anchored.named a
  · change (ring.setStake address _ ring.current.addr).addr = ring.current.addr
    rw [setStake_addr]
    exact anchored.kept

theorem Anchored.startTurn (anchored : Anchored ring) (address : Address) : Anchored (ring.startTurn call address) :=
  Anchored.of_entry anchored.named address rfl

theorem Anchored.joined (anchored : Anchored ring) {proposerUrl : String}
    (newcomer : (ring.proposers call.sender).addr = 0) : Anchored (ring.joined config call proposerUrl) ∧
      (ring.joined config call proposerUrl).current.addr = ring.current.addr := by
  have old : ring.current.addr ≠ call.sender := by
    intro same
    have kept := anchored.kept
    rw [same, newcomer] at kept
    exact call.isAccount kept.symm
  refine ⟨Anchored.of_entry (fun a => ?_) ring.current.addr rfl, ?_⟩
  · change (ring.joinedProposers config call proposerUrl a).addr = 0 ∨
      (ring.joinedProposers config call proposerUrl a).addr = a
    rw [joinedProposers_addr]
    split
    · rename_i here
      exact Or.inr here.symm
    · exact anchored.named a
  · change (ring.joinedProposers config call proposerUrl ring.current.addr).addr = ring.current.addr
    rw [joinedProposers_addr, if_neg old]
    exact anchored.kept

structure Turned (ring next : State) (begins : Prop) (layer2BlockNumber : ℤ) : Prop where
  anchored : Anchored next
  begun : begins → next.startL2Block = layer2BlockNumber
  continued : ¬ begins → next.current.addr = ring.current.addr ∧ next.startL2Block = ring.startL2Block

theorem removeProposer_turned (anchored : Anchored ring) {address : Address}
    (accepted : removeProposer config call ring address = .ok next) :
    Turned ring next (address = ring.current.addr) call.layer2BlockNumber := by
  obtain ⟨_, _, ⟨isCurrent, _, _, _, rfl⟩ | ⟨other, _, rfl⟩⟩ := removeProposer_eq_ok.mp accepted
  · exact ⟨(anchored.exited address).removed address, fun _ => rfl, fun other => absurd isCurrent other⟩
  · refine ⟨anchored.removed address, fun isCurrent => absurd isCurrent other, fun _ => ⟨?_, rfl⟩⟩
    change ((ring.removed address).proposers ring.current.addr).addr = ring.current.addr
    rw [removed_addr, if_neg (Ne.symm other)]
    exact anchored.kept

theorem rotateProposer_turned (anchored : Anchored ring) (accepted : rotateProposer config call ring = .ok next) :
    Anchored next ∧ next.startL2Block = call.layer2BlockNumber := by
  obtain ⟨_, _, charged, penalty, address, _, rfl⟩ := rotateProposer_eq_ok.mp accepted
  refine ⟨Anchored.startTurn ?_ address, rfl⟩
  rcases penalizeIdle_eq_ok.mp penalty with ⟨_, rfl⟩ | ⟨_, penalty⟩
  · exact anchored
  · obtain ⟨_, removal⟩ | ⟨_, _, rfl⟩ := lazyPenalizeProposer_eq_ok.mp penalty
    · exact (removeProposer_turned anchored removal).anchored
    · exact anchored.penalized _

theorem skipInactiveProposer_turned (anchored : Anchored ring)
    (accepted : skipInactiveProposer config call ring = .ok next) :
    Turned ring next (ring.current.addr ≠ 0) call.layer2BlockNumber := by
  obtain ⟨_, block, seen, charged, penalty, rfl⟩ := skipInactiveProposer_cases accepted
  have reset : Anchored { ring with lastProposedAt := block, lastSeenL2Block := seen } :=
    ⟨anchored.named, anchored.kept⟩
  rw [State.skipped]
  obtain ⟨_, removal⟩ | ⟨_, _, rfl⟩ := lazyPenalizeProposer_eq_ok.mp penalty
  · have turned := removeProposer_turned reset removal
    rw [removeProposer_entry removal, if_neg (by simp [Proposer.empty])]
    exact ⟨⟨turned.anchored.named, turned.anchored.kept⟩, fun _ => turned.begun rfl,
      fun isZero => absurd (removeProposer_eq_ok.mp removal).2.1 isZero⟩
  · have charged := @Anchored.penalized config _ reset ring.current.addr
    have entry : ((State.penalized config _ ring.current.addr).proposers ring.current.addr).addr = ring.current.addr :=
      charged.kept
    rw [entry]
    by_cases isZero : ring.current.addr = 0
    · rw [if_neg (not_not.mpr isZero)]
      exact ⟨⟨charged.named, charged.kept⟩, fun nonzero => absurd isZero nonzero, fun _ => ⟨rfl, rfl⟩⟩
    · rw [if_pos isZero]
      exact ⟨.of_entry charged.named ring.current.nextAddr rfl, fun _ => rfl, fun zero => absurd isZero zero⟩

theorem wiredStep_turned (anchored : Anchored ring) {wired : Bool} {action : Action}
    (accepted : wiredStep config wired ring call action = .ok next) :
    Turned ring next (action = .rotateProposer ∨ (action = .skipInactiveProposer ∧ ring.current.addr ≠ 0) ∨
      (action = .removeProposer ∧ call.sender = ring.current.addr)) call.layer2BlockNumber := by
  obtain ⟨_, _, accepted⟩ := (bind_eq_ok _ _ _).mp accepted
  cases action with
  | addProposer proposerUrl =>
    obtain ⟨may, rfl⟩ := addProposer_eq_ok.mp accepted
    obtain ⟨still, same⟩ := anchored.joined may.newcomer
    exact ⟨still, by simp, fun _ => ⟨same, rfl⟩⟩
  | removeProposer =>
    have turned := removeProposer_turned anchored (unpaid accepted)
    exact ⟨turned.anchored, fun begins => turned.begun (by simpa using begins),
      fun goesOn => turned.continued (by simpa using goesOn)⟩
  | rotateProposer =>
    obtain ⟨still, begun⟩ := rotateProposer_turned anchored (unpaid accepted)
    exact ⟨still, fun _ => begun, fun goesOn => absurd (Or.inl rfl) goesOn⟩
  | skipInactiveProposer =>
    have turned := skipInactiveProposer_turned anchored (unpaid accepted)
    exact ⟨turned.anchored, fun begins => turned.begun (by simpa using begins),
      fun goesOn => turned.continued (by simpa using goesOn)⟩
  | withdraw amount =>
    obtain ⟨_, _, _, rfl⟩ := withdraw_eq_ok.mp (unpaid accepted)
    exact ⟨⟨anchored.named, anchored.kept⟩, by simp, fun _ => ⟨rfl, rfl⟩⟩

theorem rotateProposer_penalised (accepted : rotateProposer config call ring = .ok next) :
    Penalised config ring next ring.current.addr ↔ call.layer2BlockNumber = ring.startL2Block := by
  obtain ⟨_, _, charged, penalty, address, _, rfl⟩ := rotateProposer_eq_ok.mp accepted
  have positive : 0 < config.lazyPenalty := Nat.zero_lt_of_lt config.exitBelowLazy
  rcases penalizeIdle_eq_ok.mp penalty with ⟨busy, rfl⟩ | ⟨idle, penalty⟩
  · refine iff_of_false ?_ busy
    simp only [Penalised, State.startTurn]
    rintro (charged | ⟨nonzero, named, gone⟩)
    · omega
    · rw [gone] at named
      exact nonzero named.symm
  · refine iff_of_true ?_ idle
    obtain ⟨_, removal⟩ | ⟨enough, _, rfl⟩ := lazyPenalizeProposer_eq_ok.mp penalty
    · obtain ⟨named, nonzero, _⟩ := removeProposer_eq_ok.mp removal
      have gone := removeProposer_entry removal
      exact Or.inr ⟨nonzero, named, gone⟩
    · left
      simp only [State.startTurn, State.penalized, State.setStake, update_self]
      omega

theorem bootstrapDefaultProposer_turned (anchored : Anchored ring) {address : Address}
    {url : String} (accepted : bootstrapDefaultProposer config call ring address url = .ok next) :
    Anchored next ∧ next.startL2Block = call.layer2BlockNumber := by
  simp only [bootstrapDefaultProposer, bind_eq_ok, pure_eq_ok] at accepted
  obtain ⟨_, _, _, _, _, _, _, _, _, _, rfl⟩ := accepted
  have written : update ring.proposers address ⟨config.stake, address, url, address,
      address⟩ address = ⟨config.stake, address, url, address, address⟩ := update_self ..
  refine ⟨Anchored.of_entry (fun a => ?_) address written.symm, rfl⟩
  change (update ring.proposers address _ a).addr = 0 ∨ (update ring.proposers address _ a).addr = a
  by_cases here : a = address
  · rw [here, written]
    exact Or.inr rfl
  · rw [update_of_ne here]
    exact anchored.named a

end

theorem toInt_succ {word : Word} (notLast : word ≠ maxInt256) : (word + 1).toInt = word.toInt + 1 := by
  have different : word.toNat ≠ 2 ^ 255 - 1 := by
    intro same
    apply notLast
    apply BitVec.eq_of_toNat_eq
    rw [same]
    rfl
  have sum : (word + 1).toNat = (word.toNat + 1) % 2 ^ 256 := BitVec.toNat_add word 1
  rw [BitVec.toInt_eq_toNat_cond, BitVec.toInt_eq_toNat_cond, sum]
  split <;> split <;> omega

def Proposes (action : Contract.Action) : Prop := ∃ call blk, action = .proposeBlock call blk

theorem step_layer2BlockNumber (env : Environment) {state next : Contract.State} {action : Contract.Action}
    (other : ¬ Proposes action) (accepted : Contract.step env state action = .ok next) :
    next.layer2BlockNumber = state.layer2BlockNumber := by
  cases action with
  | escrowFunds =>
    obtain ⟨_, _, _, _, _, rfl⟩ := escrowFunds_changes env accepted
    rfl
  | descrowFunds =>
    obtain ⟨_, _, _, rfl⟩ := descrowFunds_changes env accepted
    rfl
  | proposeBlock call blk => exact absurd ⟨call, blk, rfl⟩ other

section

variable (env : Environment) (config : Config) {joint next : Joint}

theorem jointStep_nightfall {action : Contract.Action}
    (accepted : jointStep env config joint (.nightfall action) = .ok next) :
    joint.paying = none ∧ ((∃ call blk after, action = .proposeBlock call blk ∧
        proposeBlock env call joint.nightfall blk = .ok after ∧ call.currentProposer = joint.ring.current.addr ∧
        next = { joint with paying := some (call.sender, after) }) ∨
      ∃ after, ¬ Proposes action ∧ Contract.step env joint.nightfall action = .ok after ∧
        next = { joint with nightfall := after }) := by
  simp only [jointStep, bind_eq_ok, require_eq_ok] at accepted
  obtain ⟨_, free, after, stepped, accepted⟩ := accepted
  refine ⟨free, ?_⟩
  cases action with
  | escrowFunds | descrowFunds =>
    refine Or.inr ⟨after, ?_, stepped, ((pure_eq_ok _ _).mp accepted).symm⟩
    rintro ⟨call, blk, same⟩
    cases same
  | proposeBlock call blk =>
    simp only [bind_eq_ok, require_eq_ok, pure_eq_ok] at accepted
    obtain ⟨_, isCurrent, rfl⟩ := accepted
    exact Or.inl ⟨call, blk, after, rfl, stepped, isCurrent, rfl⟩

theorem jointStep_feePaid (accepted : jointStep env config joint .feePaid = .ok next) :
    ∃ payment, joint.paying = some payment ∧ next = { joint with nightfall := payment.2, paying := none } := by
  simp only [jointStep] at accepted
  split at accepted
  · cases accepted
  · rename_i payment isPayment
    exact ⟨payment, isPayment, ((pure_eq_ok _ _).mp accepted).symm⟩

def isFeePaid : Bool :=
  match event.action with
  | .feePaid => true
  | _ => false

theorem isFeePaid_iff : isFeePaid event = true ↔ event.action = .feePaid := by
  simp only [isFeePaid]
  split
  · rename_i paid
    exact iff_of_true rfl paid
  · rename_i other
    exact iff_of_false Bool.false_ne_true other

/-- The turn that is on: it began with `start`, and `since` lists the calls after it. -/
structure InTurn (start : JointEvent) (since : List JointEvent) (joint : Joint) : Prop where
  begins : BeginsTurn start.before start.action
  quiet : ∀ event ∈ since, ¬ BeginsTurn event.before event.action
  holder : start.after.ring.current.addr = joint.ring.current.addr
  noted : joint.ring.startL2Block = start.after.height
  counted : joint.height = start.after.height + since.countP isFeePaid
  accepted : ∀ event ∈ since, ∀ proposer, Accepts event proposer →
    proposer = joint.ring.current.addr ∨ start.after.payee = some proposer
  pending : ∀ proposer, joint.payee = some proposer →
    proposer = joint.ring.current.addr ∨ start.after.payee = some proposer

structure Tracked (past : List JointEvent) (joint : Joint) : Prop where
  anchored : Anchored joint.ring
  owed : ∀ payment, joint.paying = some payment → payment.2.layer2BlockNumber.toInt = joint.height + 1
  turn : joint.wired = true → ∃ before start since, past = before ++ start :: since ∧ InTurn start since joint

theorem tracked_initial (block : ℕ) (nightfall : Contract.State) : Tracked [] (.initial block nightfall) := by
  refine ⟨anchored_initial block, ?_, ?_⟩
  · intro payment paying
    cases paying
  · intro wired
    cases wired

variable {event : JointEvent} {since past : List JointEvent}

theorem inTurn_begun (begins : BeginsTurn event.before event.action)
    (noted : event.after.ring.startL2Block = event.after.height) : InTurn event [] event.after where
  begins := begins
  quiet := fun _ member => by cases member
  holder := rfl
  noted := noted
  counted := by simp
  accepted := fun _ member => by cases member
  pending := fun _ paying => Or.inr paying

section

variable (goesOn : ¬ BeginsTurn event.before event.action)
  (sameHolder : event.after.ring.current.addr = event.before.ring.current.addr)
  (sameStart : event.after.ring.startL2Block = event.before.ring.startL2Block)
  (height : event.after.height = event.before.height + if isFeePaid event = true then 1 else 0)
  (pending : ∀ proposer, event.after.payee = some proposer →
    event.before.payee = some proposer ∨ proposer = event.before.ring.current.addr)
include goesOn sameHolder sameStart height pending

theorem InTurn.extend {start : JointEvent} (turn : InTurn start since event.before) :
    InTurn start (since ++ [event]) event.after where
  begins := turn.begins
  quiet := by
    intro other member
    obtain earlier | rfl := (mem_append.mp member).imp_right mem_singleton.mp
    · exact turn.quiet other earlier
    · exact goesOn
  holder := turn.holder.trans sameHolder.symm
  noted := sameStart.trans turn.noted
  counted := by
    rw [height, turn.counted, countP_append, countP_singleton]
    split
    · push_cast
      ring
    · push_cast
      ring
  accepted := by
    intro other member proposer accepts
    rw [sameHolder]
    obtain earlier | rfl := (mem_append.mp member).imp_right mem_singleton.mp
    · exact turn.accepted other earlier proposer accepts
    · exact turn.pending proposer accepts.2
  pending := by
    intro proposer paying
    rw [sameHolder]
    obtain before | isHolder := pending proposer paying
    · exact turn.pending proposer before
    · exact Or.inl isHolder

theorem Tracked.extend (tracked : Tracked past event.before) (anchored : Anchored event.after.ring)
    (owed : ∀ payment, event.after.paying = some payment → payment.2.layer2BlockNumber.toInt = event.after.height + 1)
    (sameWiring : event.after.wired = event.before.wired) : Tracked (past ++ [event]) event.after := by
  refine ⟨anchored, owed, fun wired => ?_⟩
  obtain ⟨before, start, since, rfl, turn⟩ := tracked.turn (sameWiring ▸ wired)
  exact ⟨before, start, since ++ [event], by simp, turn.extend goesOn sameHolder sameStart height pending⟩

end

theorem Tracked.step (tracked : Tracked past event.before)
    (accepted : jointStep env config event.before event.action = .ok event.after) :
    Tracked (past ++ [event]) event.after := by
  obtain ⟨joint, deed, next⟩ := event
  dsimp only at tracked accepted ⊢
  cases deed with
  | bootstrap call address url =>
    simp only [jointStep, bind_eq_ok, require_eq_ok, pure_eq_ok] at accepted
    obtain ⟨_, sees, ring, seeded, rfl⟩ := accepted
    obtain ⟨anchored, begun⟩ := bootstrapDefaultProposer_turned tracked.anchored seeded
    refine ⟨anchored, tracked.owed, fun _ => ⟨past, _, [], rfl, ?_⟩⟩
    exact inTurn_begun trivial (begun.trans sees)
  | call call action =>
    simp only [jointStep, bind_eq_ok, require_eq_ok, pure_eq_ok] at accepted
    obtain ⟨_, sees, ring, called, rfl⟩ := accepted
    have turned := wiredStep_turned tracked.anchored called
    by_cases begins : BeginsTurn joint (.call call action)
    · refine ⟨turned.anchored, tracked.owed, fun _ => ⟨past, _, [], rfl, ?_⟩⟩
      exact inTurn_begun begins ((turned.begun begins).trans sees)
    · obtain ⟨sameHolder, sameStart⟩ := turned.continued begins
      refine tracked.extend begins sameHolder sameStart ?_ ?_ turned.anchored tracked.owed rfl
      · simp [isFeePaid, Joint.height]
      · exact fun _ paying => Or.inl paying
  | nightfall action =>
    obtain ⟨free, proposal | other⟩ := jointStep_nightfall env config accepted
    · obtain ⟨call, blk, after, rfl, proposed, isCurrent, rfl⟩ := proposal
      obtain ⟨admitted, _, _, _, _, _, rfl⟩ := (proposeBlock_eq_ok _ _ _ _ _).mp proposed
      refine tracked.extend (fun begins => begins) rfl rfl ?_ ?_ tracked.anchored ?_ rfl
      · simp [isFeePaid, Joint.height]
      · intro proposer paying
        obtain rfl : call.sender = proposer := by simpa [Joint.payee] using paying
        exact Or.inr (admitted.proposer.symm.trans isCurrent)
      · intro payment isPayment
        obtain rfl := Option.some.inj isPayment
        exact toInt_succ admitted.notLast
    · obtain ⟨after, notProposal, stepped, rfl⟩ := other
      have same := step_layer2BlockNumber env notProposal stepped
      refine tracked.extend (fun begins => begins) rfl rfl ?_ ?_ tracked.anchored ?_ rfl
      · simp [isFeePaid, Joint.height, same]
      · exact fun _ paying => Or.inl paying
      · intro payment isPayment
        rw [free] at isPayment
        cases isPayment
  | feePaid =>
    obtain ⟨payment, isPayment, rfl⟩ := jointStep_feePaid env config accepted
    refine tracked.extend (fun begins => begins) rfl rfl ?_ ?_ tracked.anchored ?_ rfl
    · simpa [isFeePaid, Joint.height] using tracked.owed payment isPayment
    · intro proposer paying
      simp [Joint.payee] at paying
    · intro other isOther
      cases isOther

theorem InTurn.idle_iff {start : JointEvent} (turn : InTurn start since joint) :
    joint.height = joint.ring.startL2Block ↔ ∀ event ∈ since, event.action ≠ .feePaid := by
  have unpaid : since.countP isFeePaid = 0 ↔ ∀ event ∈ since, event.action ≠ .feePaid := by
    simp [countP_eq_zero, isFeePaid_iff]
  rw [turn.noted, turn.counted, ← unpaid]
  omega

/-- A rotation penalises the outgoing proposer exactly when it had no block accepted in its turn,
unless the turn began inside the fee payment for another proposer's block: that block is then
counted in it. -/
theorem idle_penalty_iff (block : ℕ) (nightfall : Contract.State) (deeds : List Deed)
    (earlier later : List JointEvent) (event : JointEvent)
    (split : trace (jointStep env config) (.initial block nightfall) deeds = earlier ++ event :: later)
    (call : Call) (rotates : event.action = .call call .rotateProposer) :
    ∃ before start since, earlier = before ++ start :: since ∧ BeginsTurn start.before start.action ∧
      start.after.ring.current.addr = event.before.ring.current.addr ∧
      (∀ other ∈ since, ¬ BeginsTurn other.before other.action) ∧
      ((Penalised config event.before.ring event.after.ring event.before.ring.current.addr ↔
          ¬ ∃ other ∈ since, Accepts other event.before.ring.current.addr) ↔
        ∀ payee, start.after.payee = some payee → payee ≠ event.before.ring.current.addr →
          (∀ other ∈ since, other.action ≠ .feePaid) ∨
            ∃ other ∈ since, Accepts other event.before.ring.current.addr) := by
  obtain ⟨tracked, stepped⟩ := invariant_before (jointStep env config) Tracked deeds _
    (tracked_initial block nightfall) (fun _ _ _ tracked => tracked.step env config) split
  rw [rotates] at stepped
  simp only [jointStep, wiredStep, step, bind_eq_ok, require_eq_ok, pure_eq_ok] at stepped
  obtain ⟨_, sees, ring, ⟨_, known, _, _, rotated⟩, isAfter⟩ := stepped
  have wired : event.before.wired = true := by
    simpa [readsNightfall] using known
  obtain ⟨before, start, since, parts, turn⟩ := tracked.turn wired
  refine ⟨before, start, since, parts, turn.begins, turn.holder, turn.quiet, ?_⟩
  have penalty : Penalised config event.before.ring event.after.ring
      event.before.ring.current.addr ↔ ∀ other ∈ since, other.action ≠ .feePaid := by
    rw [← isAfter, rotateProposer_penalised rotated, sees, turn.idle_iff]
  rw [penalty]
  constructor
  · intro exact payee _ _
    by_cases own : ∃ other ∈ since, Accepts other event.before.ring.current.addr
    · exact Or.inr own
    · exact Or.inl (exact.mpr own)
  · intro borrowed
    constructor
    · rintro idle ⟨other, member, accepts⟩
      exact idle other member accepts.1
    · intro noneOwn other member paid
      -- a payment that returns in this turn was owed to somebody
      have traced : other ∈ trace (jointStep env config) (.initial block nightfall) deeds := by
        rw [split, parts]
        simp [member]
      have returned := (mem_trace _ _ _ other traced).2
      rw [paid] at returned
      obtain ⟨payment, isPayment, _⟩ := jointStep_feePaid env config returned
      have isPayee : other.before.payee = some payment.1 := congrArg (Option.map Prod.fst) isPayment
      by_cases isHolder : payment.1 = event.before.ring.current.addr
      · exact noneOwn ⟨other, member, paid, isHolder ▸ isPayee⟩
      · obtain same | began := turn.accepted other member payment.1 ⟨paid, isPayee⟩
        · exact isHolder same
        · obtain idle | own := borrowed payment.1 began isHolder
          · exact idle other member paid
          · exact noneOwn own

end

def contractProposer : Address := 11

def seededRing : State := bootstrapped ringConfig (ownerCall 10 0 0) 0 contractProposer "contract"

def joinedRing : State := seededRing.joined ringConfig (guestCall 10 1 0) "guest"

def handedOver : State :=
  (joinedRing.penalized ringConfig contractProposer).startTurn (guestCall 0 100 0) guestAddress

def handedBack : State := handedOver.startTurn (guestCall 0 200 1) contractProposer

def whilePaid (ring : State) : Joint :=
  ⟨ring, sampleState, true, some (contractProposer, sampleAfter sampleState)⟩

def seededEvent : JointEvent :=
  ⟨.initial 0 sampleState, .bootstrap (ownerCall 10 0 0) contractProposer "contract",
    ⟨seededRing, sampleState, true, none⟩⟩

def joinedEvent : JointEvent :=
  ⟨⟨seededRing, sampleState, true, none⟩, .call (guestCall 10 1 0) (.addProposer "guest"),
    ⟨joinedRing, sampleState, true, none⟩⟩

def proposedEvent : JointEvent :=
  ⟨⟨joinedRing, sampleState, true, none⟩, .nightfall (.proposeBlock sampleCall (sampleBlock 0)), whilePaid joinedRing⟩

def handedOverEvent : JointEvent :=
  ⟨whilePaid joinedRing, .call (guestCall 0 100 0) .rotateProposer, whilePaid handedOver⟩

def feePaidEvent : JointEvent :=
  ⟨whilePaid handedOver, .feePaid, ⟨handedOver, sampleAfter sampleState, true, none⟩⟩

def handedBackEvent : JointEvent :=
  ⟨⟨handedOver, sampleAfter sampleState, true, none⟩, .call (guestCall 0 200 1) .rotateProposer,
    ⟨handedBack, sampleAfter sampleState, true, none⟩⟩

def borrowedTurn : List JointEvent :=
  [seededEvent, joinedEvent, proposedEvent, handedOverEvent, feePaidEvent, handedBackEvent]

theorem proposedEvent_accepted : jointStep sampleEnvironment ringConfig proposedEvent.before
    proposedEvent.action = .ok proposedEvent.after := by
  have accepted := sampleBlock_accepted sampleState 0 rfl (by decide)
  simp only [jointStep, proposedEvent, Contract.step, accepted]
  rfl

theorem borrowedTurn_traced : trace (jointStep sampleEnvironment ringConfig) (.initial 0 sampleState)
      (borrowedTurn.map Event.action) = borrowedTurn := by
  have seeded : jointStep sampleEnvironment ringConfig seededEvent.before seededEvent.action =
      .ok seededEvent.after := rfl
  have joined : jointStep sampleEnvironment ringConfig joinedEvent.before joinedEvent.action =
      .ok joinedEvent.after := rfl
  have passed : jointStep sampleEnvironment ringConfig handedOverEvent.before
      handedOverEvent.action = .ok handedOverEvent.after := rfl
  have paid : jointStep sampleEnvironment ringConfig feePaidEvent.before feePaidEvent.action =
      .ok feePaidEvent.after := rfl
  have back : jointStep sampleEnvironment ringConfig handedBackEvent.before
      handedBackEvent.action = .ok handedBackEvent.after := rfl
  refine (trace_cons_ok _ seeded _).trans (congrArg (cons seededEvent) ?_)
  refine (trace_cons_ok _ joined _).trans (congrArg (cons joinedEvent) ?_)
  refine (trace_cons_ok _ proposedEvent_accepted _).trans (congrArg (cons proposedEvent) ?_)
  refine (trace_cons_ok _ passed _).trans (congrArg (cons handedOverEvent) ?_)
  refine (trace_cons_ok _ paid _).trans (congrArg (cons feePaidEvent) ?_)
  exact trace_cons_ok _ back []

theorem idle_penalty_iff_sample :
    ∃ before start since, [seededEvent, joinedEvent, proposedEvent, handedOverEvent, feePaidEvent] =
        before ++ start :: since ∧
      BeginsTurn start.before start.action ∧ start.after.ring.current.addr = guestAddress ∧
      (∀ other ∈ since, ¬ BeginsTurn other.before other.action) := by
  obtain ⟨before, start, since, parts, begins, holder, quiet, _⟩ := idle_penalty_iff
    sampleEnvironment ringConfig 0 sampleState _ [seededEvent, joinedEvent, proposedEvent,
      handedOverEvent, feePaidEvent] [] handedBackEvent borrowedTurn_traced (guestCall 0 200 1) rfl
  exact ⟨before, start, since, parts, begins, holder, quiet⟩

/-- The guest's turn begins with its rotation in; no block of the guest is accepted in it, and the
rotation out charges it nothing. -/
theorem idle_turn_unpunished : trace (jointStep sampleEnvironment ringConfig) (.initial 0 sampleState)
        (borrowedTurn.map Event.action) =
      [seededEvent, joinedEvent, proposedEvent] ++ handedOverEvent :: ([feePaidEvent] ++ [handedBackEvent]) ∧
    handedOverEvent.after.ring.current.addr = guestAddress ∧
    handedBackEvent.before.ring.current.addr = guestAddress ∧
    ¬ Accepts feePaidEvent guestAddress ∧
    ¬ Penalised ringConfig handedBackEvent.before.ring handedBackEvent.after.ring guestAddress := by
  refine ⟨borrowedTurn_traced, rfl, rfl, ?_, ?_⟩
  · rintro ⟨_, isGuest⟩
    have others : contractProposer = guestAddress := Option.some.inj isGuest
    exact absurd others (by decide)
  · rintro (charged | ⟨_, _, gone⟩)
    · have kept : (10 : ℕ) + 4 = 10 := charged
      omega
    · have kept : guestAddress = 0 := congrArg Proposer.addr gone
      exact guestAddress_ne_zero kept

end Nightfall.RoundRobin
