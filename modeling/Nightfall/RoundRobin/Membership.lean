import Nightfall.Library.Rings
import Nightfall.Library.Runs
import Nightfall.RoundRobin.Contract

/-! The shape of the proposer ring over whole runs: the written entries are the
members of one ring, the cached current proposer is one of them, and the URLs in
use are exactly theirs. -/

namespace Nightfall.RoundRobin

open Contract Revert Rings Runs List Function

/-- The texts in use are listed once each. -/
def Lists (used : String → Bool) (texts : List String) : Prop :=
  texts.Nodup ∧ ∀ text, used text = true ↔ text ∈ texts

section

variable {used : String → Bool} {text : String} {texts others : List String}

theorem Lists.perm (lists : Lists used texts) (permuted : others.Perm texts) : Lists used others :=
  ⟨permuted.nodup_iff.mpr lists.1, fun text => (lists.2 text).trans permuted.mem_iff.symm⟩

theorem Lists.insert (lists : Lists used texts) (free : used text = false) :
    Lists (update used text true) (texts ++ [text]) := by
  have new : text ∉ texts := by
    rw [← lists.2, free]
    exact Bool.false_ne_true
  refine ⟨lists.1.append (nodup_singleton text) (disjoint_singleton.mpr new), fun other => ?_⟩
  by_cases same : other = text <;> simp [same, lists.2]

theorem Lists.erase (lists : Lists used (text :: texts)) : Lists (update used text false) texts := by
  obtain ⟨gone, once⟩ := nodup_cons.mp lists.1
  refine ⟨once, fun other => ?_⟩
  by_cases same : other = text <;> simp [same, gone, lists.2]

end

structure Members (proposers : Address → Proposer) (urls : String → Bool) (first : Address)
    (rest : List Address) : Prop where
  ring : IsRing (fun a => (proposers a).nextAddr) (fun a => (proposers a).previousAddr) first rest
  named : ∀ a ∈ first :: rest, (proposers a).addr = a
  nonzero : 0 ∉ first :: rest
  outside : ∀ a, a ∉ first :: rest → proposers a = Proposer.empty
  urls : Lists urls ((first :: rest).map fun a => (proposers a).url)

structure WellFormed (state : State) (rest : List Address) : Prop where
  members : Members state.proposers state.proposerUrls state.current.addr rest
  cached : state.current = state.proposers state.current.addr
  count : state.proposerCount = rest.length + 1

theorem Members.wellFormed {state : State} {first : Address} {rest : List Address}
    (members : Members state.proposers state.proposerUrls first rest) (cached : state.current = state.proposers first)
    (count : state.proposerCount = rest.length + 1) : WellFormed state rest := by
  have named : state.current.addr = first := by rw [cached, members.named first mem_cons_self]
  exact ⟨named ▸ members, named ▸ cached, count⟩

section

variable {proposers changed : Address → Proposer} {urls : String → Bool} {first : Address} {rest : List Address}

section

variable (members : Members proposers urls first rest)

include members

theorem Members.mem_iff (a : Address) : a ∈ first :: rest ↔ (proposers a).addr ≠ 0 := by
  constructor
  · intro member zero
    rw [members.named a member] at zero
    exact members.nonzero (zero ▸ member)
  · intro written
    by_contra absent
    rw [members.outside a absent] at written
    exact written rfl

section

variable {a : Address} (member : a ∈ first :: rest)
include member

theorem Members.startAt : ∃ others, Members proposers urls a others ∧ (a :: others).Perm (first :: rest) := by
  obtain ⟨others, ring, permuted⟩ := members.ring.startAt member
  have same := fun b : Address => permuted.mem_iff (a := b)
  refine ⟨others, ⟨ring, ?_, ?_, ?_, members.urls.perm (permuted.map _)⟩, permuted⟩
  · exact fun b inRing => members.named b ((same b).mp inRing)
  · exact fun inRing => members.nonzero ((same 0).mp inRing)
  · exact fun b absent => members.outside b fun inRing => absent ((same b).mpr inRing)

theorem Members.next_mem : (proposers a).nextAddr ∈ first :: rest :=
  (members.ring.next_linked member).2

theorem Members.setStake (stake : ℕ) :
    Members (update proposers a { proposers a with stake := stake }) urls first rest := by
  have fields : ∀ b, (update proposers a { proposers a with stake := stake } b).nextAddr =
        (proposers b).nextAddr ∧ (update proposers a { proposers a with stake := stake } b).previousAddr =
        (proposers b).previousAddr ∧ (update proposers a { proposers a with stake := stake } b).addr =
        (proposers b).addr ∧ (update proposers a { proposers a with stake := stake } b).url = (proposers b).url := by
    intro b
    by_cases same : b = a
    · subst same
      simp
    · simp [same]
  have absent : ∀ b, b ∉ first :: rest → update proposers a { proposers a with stake := stake } b = proposers b := by
    intro b outside
    apply update_of_ne
    rintro rfl
    exact outside member
  refine ⟨?_, ?_, members.nonzero, ?_, ?_⟩
  · simp only [fields]
    exact members.ring
  · intro b inRing
    rw [(fields b).2.2.1, members.named b inRing]
  · intro b outside
    rw [absent b outside, members.outside b outside]
  · simp only [fields]
    exact members.urls

end

theorem findEligible_mem (floor rounds : ℕ) : ∀ start found, start ∈ first :: rest →
      findEligible proposers floor rounds start = some found → found ∈ first :: rest := by
  induction rounds with
  | zero =>
    intro start found _ search
    simp [findEligible] at search
  | succ rounds ih =>
    intro start found member search
    rw [findEligible] at search
    split at search
    · obtain rfl := Option.some.inj search
      exact member
    · exact ih _ found (members.next_mem member) search

end

theorem listFrom_chain (proposers : Address → Proposer) (rest : List Address) :
    ∀ first, (first :: rest).IsChain (Linked (fun a => (proposers a).nextAddr)
        (fun a => (proposers a).previousAddr)) →
      listFrom proposers (rest.length + 1) (proposers first) = (first :: rest).map proposers := by
  induction rest with
  | nil =>
    intro first _
    rfl
  | cons second rest ih =>
    intro first chain
    obtain ⟨link, chain⟩ := isChain_cons_cons.mp chain
    have successor : (proposers first).nextAddr = second := link.1
    rw [length_cons, listFrom, successor, ih second chain]
    rfl

theorem unlink_next (proposers : Address → Proposer) (gone a : Address) :
    (unlink proposers gone a).nextAddr = if a = (proposers gone).previousAddr then (proposers gone).nextAddr
      else (proposers a).nextAddr := by
  simp only [unlink, update_apply]
  split
  · rfl
  · split <;> simp_all

theorem unlink_previous (proposers : Address → Proposer) (gone a : Address) :
    (unlink proposers gone a).previousAddr = if a = (proposers gone).nextAddr then (proposers gone).previousAddr
      else (proposers a).previousAddr := by
  simp only [unlink, update_apply]
  split <;> split <;> simp_all

theorem Members.erase (members : Members proposers urls first rest) {gone : Address} (member : gone ∈ rest) :
    Members (update (unlink proposers gone) gone Proposer.empty)
      (update urls (proposers gone).url false) first (rest.erase gone) := by
  have inRing := mem_cons_of_mem first member
  have once := nodup_cons.mp members.ring.once
  have firstStays : first ≠ gone := fun same => once.1 (same ▸ member)
  have remaining : ∀ a, a ∈ first :: rest.erase gone ↔ a ∈ first :: rest ∧ a ≠ gone := by
    intro a
    by_cases isFirst : a = first
    · simp [isFirst, firstStays]
    · simp [isFirst, once.2.mem_erase_iff, and_comm]
  have kept : ∀ a, a ≠ gone → update (unlink proposers gone) gone Proposer.empty a = unlink proposers gone a :=
    fun a stays => update_of_ne stays _ _
  have previousStays : (proposers gone).previousAddr ≠ gone :=
    members.ring.previous_ne inRing mem_cons_self firstStays
  have nextStays : (proposers gone).nextAddr ≠ gone :=
    members.ring.next_ne inRing mem_cons_self firstStays
  have permuted : (gone :: first :: rest.erase gone).Perm (first :: rest) :=
    (Perm.swap _ _ _).trans ((perm_cons_erase member).symm.cons first)
  have sameUrls : (first :: rest.erase gone).map (fun a => (update (unlink proposers gone) gone Proposer.empty a).url) =
      (first :: rest.erase gone).map fun a => (proposers a).url := by
    refine map_congr_left fun a listed => ?_
    rw [kept a ((remaining a).mp listed).2, (unlink_other proposers gone a).2.2]
  refine ⟨?_, ?_, ?_, ?_, sameUrls ▸ (members.urls.perm (permuted.map _)).erase⟩
  · refine members.ring.erase member ?_ ?_ ?_ ?_
    · rw [kept _ previousStays, unlink_next, if_pos rfl]
    · rw [kept _ nextStays, unlink_previous, if_pos rfl]
    · intro a _ stays notPrevious
      rw [kept a stays, unlink_next, if_neg notPrevious]
    · intro a _ stays notNext
      rw [kept a stays, unlink_previous, if_neg notNext]
  · intro a listed
    obtain ⟨old, stays⟩ := (remaining a).mp listed
    rw [kept a stays, (unlink_other proposers gone a).2.1, members.named a old]
  · exact fun listed => members.nonzero ((remaining 0).mp listed).1
  · intro a absent
    by_cases isGone : a = gone
    · rw [isGone, update_self]
    · have outside : a ∉ first :: rest := fun old => absent ((remaining a).mpr ⟨old, isGone⟩)
      have notPrevious : a ≠ (proposers gone).previousAddr := by
        rintro rfl
        exact outside (members.ring.previous_linked inRing).2
      have notNext : a ≠ (proposers gone).nextAddr := by
        rintro rfl
        exact outside (members.next_mem inRing)
      rw [kept a isGone, unlink, update_of_ne notPrevious, update_of_ne notNext, members.outside a outside]

theorem Members.insert (members : Members proposers urls first rest) {new : Address}
    (nonzero : new ≠ 0) (fresh : new ∉ first :: rest) {url : String} (free : urls url = false)
    (entry : (changed new).addr = new ∧ (changed new).url = url ∧ (changed new).nextAddr = first ∧
      (changed new).previousAddr = (proposers first).previousAddr)
    (next : ∀ a, a ≠ new → (changed a).nextAddr =
      if a = (proposers first).previousAddr then new else (proposers a).nextAddr)
    (previous : ∀ a, a ≠ new → (changed a).previousAddr = if a = first then new else (proposers a).previousAddr)
    (kept : ∀ a, a ≠ new → (changed a).addr = (proposers a).addr ∧ (changed a).url = (proposers a).url)
    (outside : ∀ a, a ≠ new → a ∉ first :: rest → changed a = proposers a) :
    Members changed (update urls url true) first (rest ++ [new]) := by
  have listed : ∀ a, a ∈ first :: (rest ++ [new]) ↔ a ∈ first :: rest ∨ a = new := by
    intro a
    simp [mem_cons, or_assoc]
  have old : ∀ a ∈ first :: rest, a ≠ new := by
    rintro a member rfl
    exact fresh member
  have last := (members.ring.previous_linked mem_cons_self).2
  have sameUrls : (first :: (rest ++ [new])).map (fun a => (changed a).url) =
      (first :: rest).map (fun a => (proposers a).url) ++ [url] := by
    rw [← cons_append, map_append, map_singleton, entry.2.1]
    exact congrArg (· ++ [url]) (map_congr_left fun a member => (kept a (old a member)).2)
  refine ⟨?_, ?_, ?_, ?_, sameUrls ▸ members.urls.insert free⟩
  · refine members.ring.insert fresh entry.2.2.1 entry.2.2.2 ?_ ?_ ?_ ?_
    · rw [next _ (old _ last), if_pos rfl]
    · rw [previous _ (old _ mem_cons_self), if_pos rfl]
    · intro a member notLast
      rw [next a (old a member), if_neg notLast]
    · intro a member
      have notFirst : a ≠ first := by
        rintro rfl
        exact (nodup_cons.mp members.ring.once).1 member
      rw [previous a (old a (mem_cons_of_mem _ member)), if_neg notFirst]
  · intro a member
    rcases (listed a).mp member with earlier | rfl
    · rw [(kept a (old a earlier)).1, members.named a earlier]
    · exact entry.1
  · intro member
    rcases (listed 0).mp member with earlier | isNew
    · exact members.nonzero earlier
    · exact nonzero isNew.symm
  · intro a absent
    have notNew : a ≠ new := fun isNew => absent ((listed a).mpr (Or.inr isNew))
    have notOld : a ∉ first :: rest := fun earlier => absent ((listed a).mpr (Or.inl earlier))
    rw [outside a notNew notOld, members.outside a notOld]

end

section

variable {config : Config} {call : Call} {state next : State} {rest : List Address}

theorem wellFormed_startTurn {first : Address} (members : Members state.proposers state.proposerUrls first rest)
    (count : state.proposerCount = rest.length + 1) {a : Address} (member : a ∈ first :: rest) :
    ∃ others, WellFormed (state.startTurn call a) others ∧ (a :: others).Perm (first :: rest) := by
  obtain ⟨others, turned, permuted⟩ := members.startAt member
  have length := permuted.length_eq
  simp only [length_cons] at length
  refine ⟨others, @Members.wellFormed (state.startTurn call a) _ _ turned rfl ?_, permuted⟩
  change state.proposerCount = others.length + 1
  omega

section

variable (wellFormed : WellFormed state rest)
include wellFormed

theorem WellFormed.removed {gone : Address} (member : gone ∈ rest) :
    WellFormed (state.removed gone) (rest.erase gone) := by
  have length := length_erase_of_mem member
  have positive := length_pos_of_mem member
  refine (wellFormed.members.erase member).wellFormed rfl ?_
  change state.proposerCount - 1 = (rest.erase gone).length + 1
  have := wellFormed.count
  omega

theorem WellFormed.next_ne (several : 1 < state.proposerCount) : state.current.nextAddr ≠ state.current.addr := by
  have length := wellFormed.count
  obtain ⟨other, otherMember⟩ := exists_mem_of_length_pos (show 0 < rest.length by omega)
  have different : other ≠ state.current.addr := by
    rintro rfl
    exact (nodup_cons.mp wellFormed.members.ring.once).1 otherMember
  have moves := wellFormed.members.ring.next_ne mem_cons_self (mem_cons_of_mem _ otherMember) different
  have successor := congrArg Proposer.nextAddr wellFormed.cached
  rw [successor]
  exact moves

theorem WellFormed.exited (several : 1 < state.proposerCount) :
    ∃ others, WellFormed (state.exited config call state.current.addr) others ∧ state.current.addr ∈ others := by
  have successor := congrArg Proposer.nextAddr wellFormed.cached
  have charged : Members (state.exited config call state.current.addr).proposers
      (state.exited config call state.current.addr).proposerUrls state.current.addr rest :=
    wellFormed.members.setStake mem_cons_self _
  obtain ⟨others, turned, permuted⟩ := wellFormed_startTurn charged wellFormed.count
    (wellFormed.members.next_mem mem_cons_self)
  rw [← successor] at turned permuted
  have member := permuted.mem_iff.mpr mem_cons_self
  exact ⟨others, turned, (mem_cons.mp member).resolve_left (wellFormed.next_ne several).symm⟩

theorem WellFormed.removeProposer {address : Address} (accepted : removeProposer config call state address = .ok next) :
    ∃ others, WellFormed next others := by
  obtain ⟨named, nonzero, ⟨rfl, several, _, _, rfl⟩ | ⟨notCurrent, _, rfl⟩⟩ := removeProposer_eq_ok.mp accepted
  · obtain ⟨others, exited, gone⟩ := wellFormed.exited several
    exact ⟨_, exited.removed gone⟩
  · have member : address ∈ state.current.addr :: rest := by
      rw [wellFormed.members.mem_iff, named]
      exact nonzero
    exact ⟨_, wellFormed.removed ((mem_cons.mp member).resolve_left notCurrent)⟩

end

theorem removeProposer_entry {address : Address} (accepted : removeProposer config call state address = .ok next) :
    next.proposers address = Proposer.empty := by
  obtain ⟨_, _, ⟨_, _, _, _, rfl⟩ | ⟨_, _, rfl⟩⟩ := removeProposer_eq_ok.mp accepted <;> exact update_self ..

section

variable (wellFormed : WellFormed state rest)

include wellFormed

theorem WellFormed.penalized : Members (state.penalized config state.current.addr).proposers state.proposerUrls
      state.current.addr rest :=
  wellFormed.members.setStake mem_cons_self _

theorem WellFormed.penalized_next : (state.penalized config state.current.addr).current.nextAddr =
      ((state.penalized config state.current.addr).proposers state.current.addr).nextAddr := by
  simp only [State.penalized, State.setStake, update_self]
  rw [← wellFormed.cached]

theorem WellFormed.rotated (accepted : rotateProposer config call state = .ok next) :
    ∃ (charged : State) (first : Address) (others : List Address) (address : Address),
      Members charged.proposers charged.proposerUrls first others ∧
      charged.proposerCount = others.length + 1 ∧ address ∈ first :: others ∧ next = charged.startTurn call address ∧
      (RoundRobin.removeProposer config call state state.current.addr = .ok charged ∨
        first = state.current.addr ∧ others = rest) := by
  obtain ⟨_, _, charged, penalty, address, found, rfl⟩ := rotateProposer_eq_ok.mp accepted
  have eligible : ∀ first others, Members charged.proposers charged.proposerUrls first others →
      charged.current.nextAddr = (charged.proposers first).nextAddr → address ∈ first :: others := by
    intro first others members cached
    rw [cached] at found
    exact findEligible_mem members _ _ _ address (members.next_mem mem_cons_self) found
  refine ⟨charged, ?_⟩
  rcases penalizeIdle_eq_ok.mp penalty with ⟨_, rfl⟩ | ⟨_, penalty⟩
  · exact ⟨_, _, _, wellFormed.members, wellFormed.count,
      eligible _ _ wellFormed.members (by rw [← wellFormed.cached]), rfl, .inr ⟨rfl, rfl⟩⟩
  · rcases lazyPenalizeProposer_eq_ok.mp penalty with ⟨_, removal⟩ | ⟨_, _, rfl⟩
    · obtain ⟨others, left⟩ := wellFormed.removeProposer removal
      exact ⟨_, _, _, left.members, left.count, eligible _ _ left.members (by rw [← left.cached]), rfl, .inl removal⟩
    · exact ⟨_, _, _, wellFormed.penalized, wellFormed.count,
        eligible _ _ wellFormed.penalized wellFormed.penalized_next, rfl, .inr ⟨rfl, rfl⟩⟩

theorem WellFormed.rotateProposer (accepted : rotateProposer config call state = .ok next) :
    ∃ others, WellFormed next others := by
  obtain ⟨charged, first, _, address, members, count, member, rfl, _⟩ := wellFormed.rotated accepted
  obtain ⟨others, turned, _⟩ := wellFormed_startTurn members count member
  exact ⟨others, turned⟩

theorem WellFormed.setClock (block : ℕ) (seen : ℤ) :
    WellFormed { state with lastProposedAt := block, lastSeenL2Block := seen } rest :=
  ⟨wellFormed.members, wellFormed.cached, wellFormed.count⟩

end

theorem WellFormed.skipInactiveProposer (wellFormed : WellFormed state rest)
    (accepted : skipInactiveProposer config call state = .ok next) : ∃ others, WellFormed next others := by
  obtain ⟨_, block, seen, charged, penalty, rfl⟩ := skipInactiveProposer_cases accepted
  have reset := wellFormed.setClock block seen
  simp only [State.skipped]
  rcases lazyPenalizeProposer_eq_ok.mp penalty with ⟨_, removal⟩ | ⟨_, _, rfl⟩
  · obtain ⟨others, left⟩ := reset.removeProposer removal
    rw [removeProposer_entry removal, if_neg (by simp [Proposer.empty])]
    exact ⟨others, left.setClock _ _⟩
  · have members := @WellFormed.penalized config _ _ reset
    obtain ⟨others, turned, _⟩ := wellFormed_startTurn members reset.count (members.next_mem mem_cons_self)
    rw [if_pos ((members.mem_iff _).mp mem_cons_self), @WellFormed.penalized_next config _ _ reset]
    exact ⟨others, turned.setClock _ _⟩

section

variable (wellFormed : WellFormed state rest)

include wellFormed

theorem WellFormed.alone (single : state.current.nextAddr = state.current.addr) :
    state.current.previousAddr = state.current.addr := by
  have link := (wellFormed.members.ring.next_linked mem_cons_self).1.2
  have current := congrArg Proposer.previousAddr wellFormed.cached
  rw [← wellFormed.cached, single] at link
  exact current.trans link

theorem WellFormed.previous_mem : state.current.previousAddr ∈ state.current.addr :: rest := by
  have last := congrArg Proposer.previousAddr wellFormed.cached
  rw [last]
  exact (wellFormed.members.ring.previous_linked mem_cons_self).2

theorem WellFormed.newcomer_not_mem (newcomer : (state.proposers call.sender).addr = 0) :
    call.sender ∉ state.current.addr :: rest := by
  rw [wellFormed.members.mem_iff]
  exact not_not.mpr newcomer

theorem WellFormed.joined_entries (proposerUrl : String)
    (newcomer : (state.proposers call.sender).addr = 0) (a : Address) :
    state.joinedProposers config call proposerUrl a = if a = call.sender then
        ⟨config.stake, call.sender, proposerUrl, state.current.addr, state.current.previousAddr⟩
      else { state.proposers a with
        nextAddr := if a = state.current.previousAddr then call.sender
          else (state.proposers a).nextAddr
        previousAddr := if a = state.current.addr then call.sender
          else (state.proposers a).previousAddr } := by
  have fresh := wellFormed.newcomer_not_mem newcomer
  have notCurrent : call.sender ≠ state.current.addr := fun same => fresh (same ▸ mem_cons_self)
  have notPrevious : call.sender ≠ state.current.previousAddr := fun same => fresh (same ▸ wellFormed.previous_mem)
  by_cases single : state.current.nextAddr = state.current.addr
  · have loop := wellFormed.alone single
    simp only [State.joinedProposers, if_pos single, loop, update_apply]
    by_cases isNew : a = call.sender
    · subst isNew
      simp [notCurrent]
    · by_cases isCurrent : a = state.current.addr
      · subst isCurrent
        simp [isNew]
      · simp [isNew, isCurrent]
  · simp only [State.joinedProposers, if_neg single, update_apply]
    by_cases isNew : a = call.sender
    · subst isNew
      simp [notCurrent, notPrevious]
    · by_cases isPrevious : a = state.current.previousAddr
      · by_cases loop : a = state.current.addr
        · simp [← isPrevious, ← loop, isNew]
        · simp [← isPrevious, loop, isNew]
      · by_cases isCurrent : a = state.current.addr
        · have notLoop : state.current.addr ≠ state.current.previousAddr := isCurrent ▸ isPrevious
          simp [isCurrent, notLoop, Ne.symm notCurrent]
        · simp [isPrevious, isCurrent, isNew]

theorem WellFormed.addProposer {proposerUrl : String}
    (accepted : addProposer config call state proposerUrl = .ok next) : ∃ others, WellFormed next others := by
  obtain ⟨may, rfl⟩ := addProposer_eq_ok.mp accepted
  have members := wellFormed.members
  have fresh := wellFormed.newcomer_not_mem may.newcomer
  have entries := @WellFormed.joined_entries config _ _ _ wellFormed proposerUrl may.newcomer
  have last := congrArg Proposer.previousAddr wellFormed.cached
  have others : ∀ a, a ≠ call.sender → state.joinedProposers config call proposerUrl a = _ :=
    fun a old => (entries a).trans (if_neg old)
  have inserted : Members (state.joinedProposers config call proposerUrl)
      (update state.proposerUrls proposerUrl true) state.current.addr
      (rest ++ [call.sender]) := by
    refine members.insert call.isAccount fresh may.urlFree ?_ ?_ ?_ ?_ ?_
    · rw [(entries call.sender).trans (if_pos rfl), ← last]
      exact ⟨rfl, rfl, rfl, rfl⟩
    · intro a old
      rw [others a old, ← last]
    · intro a old
      rw [others a old]
    · intro a old
      rw [others a old]
      exact ⟨rfl, rfl⟩
    · intro a old outside
      have notLast : a ≠ state.current.previousAddr := by
        rintro rfl
        exact outside wellFormed.previous_mem
      have notFirst : a ≠ state.current.addr := by
        rintro rfl
        exact outside mem_cons_self
      rw [others a old, if_neg notLast, if_neg notFirst]
  refine ⟨rest ++ [call.sender], inserted.wellFormed rfl ?_⟩
  change state.proposerCount + 1 = (rest ++ [call.sender]).length + 1
  rw [wellFormed.count, length_append, length_singleton]

theorem WellFormed.step {request : Call × Action}
    (accepted : step config state request = .ok next) : ∃ others, WellFormed next others := by
  obtain ⟨call, action⟩ := request
  cases action with
  | addProposer proposerUrl => exact wellFormed.addProposer accepted
  | removeProposer => exact wellFormed.removeProposer (unpaid accepted)
  | rotateProposer => exact wellFormed.rotateProposer (unpaid accepted)
  | skipInactiveProposer => exact wellFormed.skipInactiveProposer (unpaid accepted)
  | withdraw amount =>
    obtain ⟨_, _, _, rfl⟩ := withdraw_eq_ok.mp (unpaid accepted)
    exact ⟨rest, wellFormed.members, wellFormed.cached, wellFormed.count⟩

end

def bootstrapped (config : Config) (call : Call) (block : ℕ) (address : Address) (url : String) : State :=
  { initialState block with
    current := ⟨config.stake, address, url, address, address⟩
    escrow := config.stake
    proposers := update (fun _ => Proposer.empty) address ⟨config.stake, address, url, address, address⟩
    proposerUrls := update (fun _ => false) url true
    proposerCount := 1
    startL1Block := call.block
    startL2Block := call.layer2BlockNumber
    lastSeenL2Block := call.layer2BlockNumber
    lastProposedAt := call.block
    balance := config.stake }

theorem bootstrapDefaultProposer_eq_ok {block : ℕ} {address : Address} {url : String}
    (accepted : bootstrapDefaultProposer config call (initialState block) address url = .ok next) :
    next = bootstrapped config call block address url := by
  simp only [bootstrapDefaultProposer, bind_eq_ok, require_eq_ok, checkedSum_eq_ok, pure_eq_ok] at accepted
  obtain ⟨_, _, _, _, _, paid, _, _, _, ⟨_, rfl⟩, rfl⟩ := accepted
  simp [bootstrapped, initialState, paid]

theorem wellFormed_bootstrapped (block : ℕ) {address : Address} (nonzero : address ≠ 0)
    (url : String) : WellFormed (bootstrapped config call block address url) [] := by
  have entry : (bootstrapped config call block address url).proposers address =
      ⟨config.stake, address, url, address, address⟩ := by
    simp [bootstrapped]
  refine ⟨⟨isRing_single address ?_ ?_, ?_, ?_, ?_, ?_⟩, entry.symm, rfl⟩
  · rw [entry]
  · rw [entry]
  · intro a member
    obtain rfl := mem_singleton.mp member
    exact congrArg Proposer.addr entry
  · exact fun member => nonzero (mem_singleton.mp member).symm
  · intro a absent
    have other : a ≠ address := fun same => absent (mem_singleton.mpr same)
    simp only [bootstrapped, update_of_ne other]
  · have listed : Lists (bootstrapped config call block address url).proposerUrls [url] :=
      @Lists.insert (fun _ => false) url [] ⟨nodup_nil, by simp⟩ rfl
    exact (congrArg (fun proposer : Proposer => Lists _ [proposer.url]) entry).mpr listed

end

theorem initializeContract_eq_ok {deployer : Call} {config : Config} {start : State}
    {stake lazyPenalty exitPenalty coolingBlocks rotationBlocks graceBlocks : ℕ}
    (deployed : initializeContract deployer stake lazyPenalty exitPenalty coolingBlocks
      rotationBlocks graceBlocks = .ok (config, start)) : start = initialState deployer.block := by
  simp only [initializeContract] at deployed
  split at deployed
  · split at deployed
    · split at deployed
      · split at deployed
        · exact (Prod.mk.inj (Except.ok.inj deployed)).2.symm
        · cases deployed
      · cases deployed
    · cases deployed
  · cases deployed

section

variable {deployer owner : Call} {config : Config} {start booted : State}
  {stake lazyPenalty exitPenalty coolingBlocks rotationBlocks graceBlocks : ℕ}
  {address : Address} {url : String}
  (deployed : initializeContract deployer stake lazyPenalty exitPenalty coolingBlocks rotationBlocks
    graceBlocks = .ok (config, start))
  (nonzero : address ≠ 0) (seeded : bootstrapDefaultProposer config owner start address url = .ok booted)
  (requests : List (Call × Action))
include deployed nonzero seeded

theorem run_wellFormed : ∃ rest, WellFormed (run (step config) booted requests) rest := by
  rw [initializeContract_eq_ok deployed] at seeded
  rw [bootstrapDefaultProposer_eq_ok seeded]
  refine invariant_run (step config) (fun _ state => ∃ rest, WellFormed state rest) requests [] _
    ⟨[], wellFormed_bootstrapped deployer.block nonzero url⟩ ?_
  rintro past event _ ⟨rest, wellFormed⟩ accepted
  exact wellFormed.step accepted

/-- After every call of a run the written entries are one ring of `proposer_count` members
around the cached current proposer, `get_proposers` lists it, and the URLs in use are its own. -/
theorem proposers_form_ring (requests : List (Call × Action)) : let state := run (step config) booted requests
    ∃ rest, IsRing (fun a => (state.proposers a).nextAddr) (fun a => (state.proposers a).previousAddr)
        state.current.addr rest ∧
      (∀ a, (state.proposers a).addr ≠ 0 ↔ a ∈ state.current.addr :: rest) ∧
      (∀ a ∈ state.current.addr :: rest, (state.proposers a).addr = a) ∧
      state.proposerCount = rest.length + 1 ∧
      state.current = state.proposers state.current.addr ∧
      getProposers state = .ok ((state.current.addr :: rest).map state.proposers) ∧
      (∀ used, state.proposerUrls used = true ↔ ∃ a ∈ state.current.addr :: rest, (state.proposers a).url = used) ∧
      ((state.current.addr :: rest).map fun a => (state.proposers a).url).Nodup := by
  intro state
  obtain ⟨rest, wellFormed⟩ := run_wellFormed deployed nonzero seeded requests
  have members := wellFormed.members
  refine ⟨rest, members.ring, fun a => (members.mem_iff a).symm, members.named, wellFormed.count,
    wellFormed.cached, ?_, fun used => (members.urls.2 used).trans mem_map, members.urls.1⟩
  have chain : (state.current.addr :: rest).IsChain _ := members.ring.linked.left_of_append
  have listed := listFrom_chain state.proposers rest state.current.addr chain
  have count : state.proposerCount = rest.length + 1 := wellFormed.count
  have cached : state.current = state.proposers state.current.addr := wellFormed.cached
  rw [getProposers, if_neg (by omega), count, ← listed, ← cached]

end

def ownerAddress : Address := 1

theorem ownerAddress_ne_zero : ownerAddress ≠ 0 := by decide

def guestAddress : Address := 2

theorem guestAddress_ne_zero : guestAddress ≠ 0 := by decide

def ownerCall (value block : ℕ) (layer2BlockNumber : ℤ) : Call :=
  ⟨ownerAddress, ownerAddress_ne_zero, value, block, layer2BlockNumber, true, false, true⟩

def guestCall (value block : ℕ) (layer2BlockNumber : ℤ) : Call :=
  ⟨guestAddress, guestAddress_ne_zero, value, block, layer2BlockNumber, true, false, true⟩

theorem ringConfig_valid : (0 < 5 ∧ 4 ≤ 10) ∧ 2 < 4 ∧ 0 < 3 ∧ 3 < 8 := by decide

def ringConfig : Config :=
  ⟨ownerAddress, 10, 4, 2, 5, 8, 3, ringConfig_valid.1.1, ringConfig_valid.1.2, ringConfig_valid.2.1,
    ringConfig_valid.2.2⟩

def ringStart : State := bootstrapped ringConfig (ownerCall 10 0 0) 0 ownerAddress "owner"

theorem ringConfig_deployed :
    initializeContract (ownerCall 0 0 0) 10 4 2 5 8 3 = .ok (ringConfig, initialState 0) := rfl

theorem ringStart_seeded :
    bootstrapDefaultProposer ringConfig (ownerCall 10 0 0) (initialState 0) ownerAddress "owner" =
      .ok ringStart := rfl

def guestTakesOver : List (Call × Action) :=
  [(guestCall 10 1 0, .addProposer "guest"), (guestCall 0 100 0, .rotateProposer),
    (ownerCall 0 101 0, .removeProposer), (ownerCall 0 102 0, .withdraw 6)]

theorem proposers_form_ring_sample : (trace (step ringConfig) ringStart guestTakesOver).length = 4 ∧
      ∃ rest, (run (step ringConfig) ringStart guestTakesOver).proposerCount = rest.length + 1 ∧
        getProposers (run (step ringConfig) ringStart guestTakesOver) =
          .ok (((run (step ringConfig) ringStart guestTakesOver).current.addr :: rest).map
            (run (step ringConfig) ringStart guestTakesOver).proposers) := by
  refine ⟨by decide +kernel, ?_⟩
  obtain ⟨rest, _, _, _, count, _, listed, _⟩ := proposers_form_ring ringConfig_deployed
    ownerAddress_ne_zero ringStart_seeded guestTakesOver
  exact ⟨rest, count, listed⟩

end Nightfall.RoundRobin
