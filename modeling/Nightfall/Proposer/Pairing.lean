import Nightfall.Proposer.Selection

/-! What the selection says about swaps. Every leg it returns stands next to its
partner: same link, same deadline, the other side, and a deadline that had not
passed at the block number given to the selection. -/

namespace Nightfall.Proposer

open List

variable {Proof : Type} {now : Nat}

structure Partners (now : Nat) (a b : ClientTransaction Proof) : Prop where
  linked : a.swapLink ≠ 0
  sameLink : b.swapLink = a.swapLink
  sameDeadline : b.deadline = a.deadline
  sides : a.swapSide = 1 ∧ b.swapSide = 0
  hasDeadline : a.deadline ≠ 0
  inTime : now ≤ a.deadline.val

section

variable {seen unmatched legs pending : List (ClientTransaction Proof)} {grouped : GroupedSwapTransactions Proof}
  {deadline : Fr254}

theorem pushGroup_perm (k : Fr254) (tx : ClientTransaction Proof) (groups : Groups Proof) :
    ((pushGroup k tx groups).flatMap Prod.snd).Perm (groups.flatMap Prod.snd ++ [tx]) := by
  induction groups with
  | nil => simp [pushGroup]
  | cons first rest ih =>
    rw [pushGroup]
    split
    · simp only [flatMap_cons, append_assoc]
      exact perm_append_comm.append_left _
    · simpa using ih.append_left first.2

theorem groupBy_perm (key : ClientTransaction Proof → Fr254) (txs : List (ClientTransaction Proof)) :
    ((groupBy key txs).flatMap Prod.snd).Perm txs := by
  induction txs using reverseRecOn with
  | nil => simp [groupBy]
  | append_singleton txs tx ih =>
    rw [groupBy, foldl_append]
    exact (pushGroup_perm _ _ _).trans (ih.append_right _)

theorem pushGroup_filter (k other : Fr254) (tx : ClientTransaction Proof) (groups : Groups Proof) :
    (pushGroup other tx groups).filter (fun entry => entry.1 = k) =
      if other = k then
        match groups.filter (fun entry => entry.1 = k) with
        | [] => [(k, [tx])]
        | first :: rest => (k, first.2 ++ [tx]) :: rest
      else groups.filter fun entry => entry.1 = k := by
  induction groups with
  | nil => by_cases same : other = k <;> simp [pushGroup, same]
  | cons first rest ih =>
    rw [pushGroup]
    by_cases pushed : first.1 = other
    · by_cases same : other = k <;> simp [pushed, same]
    · rw [if_neg pushed, filter_cons, filter_cons, ih]
      by_cases same : other = k
      · simp [same ▸ pushed, same]
      · simp [same]

theorem groupBy_filter (key : ClientTransaction Proof → Fr254) (txs : List (ClientTransaction Proof)) (k : Fr254) :
    (groupBy key txs).filter (fun entry => entry.1 = k) =
      if txs.filter (fun tx => key tx = k) = [] then [] else [(k, txs.filter fun tx => key tx = k)] := by
  induction txs using reverseRecOn with
  | nil => rfl
  | append_singleton txs tx ih =>
    rw [groupBy, foldl_append, foldl_cons, foldl_nil, ← groupBy, pushGroup_filter, ih, filter_append]
    by_cases same : key tx = k
    · by_cases none : txs.filter (fun tx => key tx = k) = [] <;> simp [same, none]
    · simp [same]

theorem mem_groupBy {key : ClientTransaction Proof → Fr254} {entry : Fr254 × List (ClientTransaction Proof)}
    (member : entry ∈ groupBy key legs) : ∀ tx ∈ entry.2, tx ∈ legs ∧ key tx = entry.1 := by
  have found := mem_filter (p := fun other => decide (other.1 = entry.1)) |>.mpr ⟨member, by simp⟩
  rw [groupBy_filter] at found
  split at found
  · exact absurd found not_mem_nil
  · intro tx inside
    rw [mem_singleton.mp found] at inside
    simpa using inside

def pairLegs (pairs : List (SwapPair Proof)) : List (ClientTransaction Proof) :=
  pairs.flatMap fun pair => [pair.1, pair.2]

structure Partitioned (now : Nat) (seen unmatched : List (ClientTransaction Proof))
    (grouped : GroupedSwapTransactions Proof) : Prop where
  counted : unmatched.length = grouped.unmatchedSwapCount
  perm : seen.Perm
    (grouped.normalTransactions ++ (pairLegs grouped.matchedSwapPairs ++ (unmatched ++ grouped.expiredSwaps)))
  normal : ∀ tx ∈ grouped.normalTransactions, tx.swapLink = 0
  expired : ∀ tx ∈ grouped.expiredSwaps, tx.swapLink ≠ 0 ∧ (tx.deadline = 0 ∨ tx.deadline.val < now)
  pairs : ∀ pair ∈ grouped.matchedSwapPairs, Partners now pair.1 pair.2
  unmatched : ∀ tx ∈ unmatched, tx.swapLink ≠ 0 ∧ ¬(tx.deadline = 0 ∨ tx.deadline.val < now)

theorem head_deadline (uniform : ∀ tx ∈ legs, tx.deadline = deadline) {tx : ClientTransaction Proof}
    (inside : tx ∈ legs) : (legs.head?.map (·.deadline)).getD 0 = tx.deadline := by
  cases legs with
  | nil => exact absurd inside not_mem_nil
  | cons first rest => exact (uniform first mem_cons_self).trans (uniform tx inside).symm

theorem zip_subperm (as bs : List (ClientTransaction Proof)) : (pairLegs (as.zip bs)).Subperm (as ++ bs) := by
  induction as generalizing bs with
  | nil => exact nil_subperm
  | cons a as ih =>
    cases bs with
    | nil => exact nil_subperm
    | cons b bs => exact (subperm_cons a).mpr (((subperm_cons b).mpr (ih bs)).trans perm_middle.symm.subperm)

theorem popPairs_perm (legs : List (ClientTransaction Proof)) : ∃ more, legs.Perm
    (pairLegs (popPairs (legs.filter (·.swapSide = 1)) (legs.filter (·.swapSide = 0))) ++ more) := by
  have zeros : (legs.filter (·.swapSide = 0)).Sublist (legs.filter fun tx => !decide (tx.swapSide = 1)) :=
    monotone_filter_right _ fun tx zero => by simp [of_decide_eq_true zero]
  have sides := (zeros.append_left (legs.filter (·.swapSide = 1))).subperm.trans (filter_append_perm _ legs).subperm
  have zipped := (zip_subperm (legs.filter (·.swapSide = 1)).reverse (legs.filter (·.swapSide = 0)).reverse).trans
    (((reverse_perm _).append (reverse_perm _)).subperm.trans sides)
  obtain ⟨_, same, inside⟩ := subperm_iff.mp zipped
  obtain ⟨more, parts⟩ := inside.exists_perm_append
  exact ⟨more, same.symm.trans parts⟩

theorem matchLegs_partitioned {link : Fr254} (partitioned : Partitioned now seen unmatched grouped)
    (uniform : ∀ tx ∈ legs, tx.swapLink ≠ 0 ∧ tx.swapLink = link ∧ tx.deadline = deadline) :
    ∃ unmatched, Partitioned now (seen ++ legs) unmatched (matchLegs now grouped legs) := by
  obtain ⟨counted, perm, normal, expired, pairs, left⟩ := partitioned
  have head {tx : ClientTransaction Proof} (inside : tx ∈ legs) :=
    head_deadline (fun other member => (uniform other member).2.2) inside
  rw [matchLegs]
  split <;> rename_i closed
  · refine ⟨unmatched, counted, ?_, normal, ?_, pairs, left⟩
    · simpa using perm.append_right legs
    · intro tx member
      rcases mem_append.mp member with old | new
      · exact expired tx old
      · exact ⟨(uniform tx new).1, head new ▸ closed⟩
  · obtain ⟨more, split⟩ := popPairs_perm legs
    refine ⟨unmatched ++ more, ?_, ?_, normal, expired, ?_, ?_⟩
    · have sizes := split.length_eq
      simp [pairLegs] at sizes ⊢
      simp only [counted]
      omega
    · refine (perm.append split).trans ?_
      simp only [pairLegs, flatMap_append, append_assoc]
      refine .append_left _ (.append_left _ ?_)
      rw [← append_assoc unmatched]
      refine (perm_append_comm_assoc _ _ _).trans (.append_left _ ?_)
      rw [append_assoc]
      exact perm_append_comm.append_left _
    · intro pair member
      rcases mem_append.mp member with old | new
      · exact pairs pair old
      · have zipped := of_mem_zip new
        obtain ⟨inA, sideA⟩ := mem_filter.mp (mem_reverse.mp zipped.1)
        obtain ⟨inB, sideB⟩ := mem_filter.mp (mem_reverse.mp zipped.2)
        rw [head inA, not_or, not_lt] at closed
        obtain ⟨linked, linkA, deadlineA⟩ := uniform _ inA
        obtain ⟨_, linkB, deadlineB⟩ := uniform _ inB
        exact ⟨linked, linkB.trans linkA.symm, deadlineB.trans deadlineA.symm,
          ⟨of_decide_eq_true sideA, of_decide_eq_true sideB⟩, closed.1, closed.2⟩
    · intro tx member
      rcases mem_append.mp member with old | new
      · exact left tx old
      · have inside := split.mem_iff.mpr (mem_append_right _ new)
        exact ⟨(uniform tx inside).1, head inside ▸ closed⟩

theorem foldl_partitioned {groups : List (List (ClientTransaction Proof))} (uniform : ∀ legs ∈ groups,
      ∃ link deadline, ∀ tx ∈ legs, tx.swapLink ≠ 0 ∧ tx.swapLink = link ∧ tx.deadline = deadline)
    (partitioned : Partitioned now seen unmatched grouped) :
    ∃ unmatched, Partitioned now (seen ++ groups.flatten) unmatched (groups.foldl (matchLegs now) grouped) := by
  induction groups generalizing seen unmatched grouped with
  | nil => exact ⟨unmatched, by simpa using partitioned⟩
  | cons legs rest ih =>
    obtain ⟨⟨link, deadline, first⟩, others⟩ := forall_mem_cons.mp uniform
    obtain ⟨more, step⟩ := matchLegs_partitioned partitioned first
    rw [flatten_cons, ← append_assoc]
    exact ih others step

def swapGroups (iteration : Iteration Proof) (pending : List (ClientTransaction Proof)) :
    List (List (ClientTransaction Proof)) :=
  (iteration.byLink (groupBy (·.swapLink) (pending.filter (·.swapLink ≠ 0)))).flatMap fun entry =>
    (iteration.byDeadline (groupBy (·.deadline) entry.2)).map Prod.snd

theorem groupValidSwapPairs_eq (iteration : Iteration Proof) (pending : List (ClientTransaction Proof)) :
    groupValidSwapPairs iteration pending now = (swapGroups iteration pending).foldl
      (matchLegs now) ⟨pending.filter (·.swapLink = 0), [], [], 0⟩ := by
  simp [groupValidSwapPairs, swapGroups, foldl_flatMap, foldl_map]

section

variable {iteration : Iteration Proof} (lawful : iteration.Lawful)

include lawful

theorem swapGroups_perm (pending : List (ClientTransaction Proof)) :
    (swapGroups iteration pending).flatten.Perm (pending.filter (·.swapLink ≠ 0)) := by
  rw [swapGroups, flatten_eq_flatMap, flatMap_assoc]
  refine (Perm.flatMap_left _ fun entry _ => ?_).trans
    (((lawful.byLink _).flatMap_right Prod.snd).trans (groupBy_perm _ _))
  rw [flatMap_map]
  exact ((lawful.byDeadline _).flatMap_right _).trans (groupBy_perm _ _)

theorem swapGroups_uniform (member : legs ∈ swapGroups iteration pending) :
    ∃ link deadline, ∀ tx ∈ legs, tx.swapLink ≠ 0 ∧ tx.swapLink = link ∧ tx.deadline = deadline := by
  obtain ⟨entry, inLinks, inside⟩ := mem_flatMap.mp member
  obtain ⟨group, inDeadlines, rfl⟩ := mem_map.mp inside
  refine ⟨entry.1, group.1, fun tx leg => ?_⟩
  obtain ⟨inLink, sameDeadline⟩ := mem_groupBy ((lawful.byDeadline _).mem_iff.mp inDeadlines) tx leg
  obtain ⟨inSwaps, sameLink⟩ := mem_groupBy ((lawful.byLink _).mem_iff.mp inLinks) tx inLink
  exact ⟨of_decide_eq_true (mem_filter.mp inSwaps).2, sameLink, sameDeadline⟩

theorem groupValidSwapPairs_partitioned (pending : List (ClientTransaction Proof)) : ∃ unmatched,
    Partitioned now pending unmatched (groupValidSwapPairs iteration pending now) := by
  have start : Partitioned now (pending.filter (·.swapLink = 0)) [] ⟨pending.filter (·.swapLink = 0), [], [], 0⟩ :=
    ⟨rfl, by simp [pairLegs], by simp, by simp, by simp, by simp⟩
  have grouped := foldl_partitioned (fun _ => @swapGroups_uniform _ _ pending _ lawful) start
  rw [← groupValidSwapPairs_eq] at grouped
  obtain ⟨unmatched, partitioned⟩ := grouped
  have parts := filter_append_perm (fun tx => decide (tx.swapLink = 0)) pending
  have swaps := swapGroups_perm lawful pending
  simp only [ne_eq, decide_not] at swaps
  exact ⟨unmatched, { partitioned with perm := (parts.symm.trans (swaps.symm.append_left _)).trans partitioned.perm }⟩

end

def legsPaired (now : Nat) (legs : List (ClientTransaction Proof)) : List (SwapPair Proof) :=
  (matchLegs now ⟨[], [], [], 0⟩ legs).matchedSwapPairs

theorem foldl_matchLegs_pairs (groups : List (List (ClientTransaction Proof)))
    (grouped : GroupedSwapTransactions Proof) :
    (groups.foldl (matchLegs now) grouped).matchedSwapPairs =
      grouped.matchedSwapPairs ++ groups.flatMap (legsPaired now) := by
  induction groups generalizing grouped with
  | nil => simp
  | cons legs rest ih =>
    rw [foldl_cons, ih, flatMap_cons, ← append_assoc, legsPaired, matchLegs, matchLegs]
    split <;> simp

theorem mem_legsPaired {pair : SwapPair Proof} (member : pair ∈ legsPaired now legs) : pair.1 ∈ legs := by
  rw [legsPaired, matchLegs] at member
  split at member
  · exact absurd member not_mem_nil
  · exact (mem_filter.mp (mem_reverse.mp (of_mem_zip member).1)).1

theorem legsPaired_length (uniform : ∀ tx ∈ legs, tx.deadline = deadline) :
    (legsPaired now legs).length = if deadline = 0 ∨ deadline.val < now then 0 else
      min (legs.filter (·.swapSide = 1)).length (legs.filter (·.swapSide = 0)).length := by
  cases legs with
  | nil => simp [legsPaired, matchLegs]
  | cons first rest =>
    rw [legsPaired, matchLegs, head_deadline uniform mem_cons_self, uniform first mem_cons_self]
    split <;> simp [popPairs]

theorem flatMap_filter_skips {α β : Type} {p : α → Prop} [DecidablePred p] {f : α → List β} {items : List α}
    (skips : ∀ item ∈ items, ¬p item → f item = []) : (items.filter p).flatMap f = items.flatMap f := by
  induction items with
  | nil => rfl
  | cons first rest ih =>
    obtain ⟨head, tail⟩ := forall_mem_cons.mp skips
    by_cases kept : p first
    · simp [kept, ih tail]
    · simp [kept, ih tail, head kept]

theorem flatMap_filter_groups {order : Groups Proof → Groups Proof} (perm : ∀ groups, (order groups).Perm groups)
    (key : ClientTransaction Proof → Fr254) (k : Fr254) {p : SwapPair Proof → Bool}
    (keyed : ∀ pair, p pair → key pair.1 = k) {f : List (ClientTransaction Proof) → List (SwapPair Proof)}
    (drawn : ∀ {legs pair}, pair ∈ f legs → pair.1 ∈ legs) (txs : List (ClientTransaction Proof)) :
    ((order (groupBy key txs)).flatMap fun entry => f entry.2).filter p =
      (f (txs.filter fun tx => key tx = k)).filter p := by
  have others : ∀ entry ∈ order (groupBy key txs), entry.1 ≠ k → (f entry.2).filter p = [] := by
    intro entry member apart
    refine filter_eq_nil_iff.mpr fun pair inside holds => apart ?_
    rw [← (mem_groupBy ((perm _).mem_iff.mp member) _ (drawn inside)).2, keyed pair holds]
  have one := (perm (groupBy key txs)).filter fun entry => decide (entry.1 = k)
  rw [filter_flatMap, ← flatMap_filter_skips others]
  rw [groupBy_filter] at one
  split at one <;> rename_i none
  · rw [perm_nil.mp one, none, eq_nil_iff_forall_not_mem.mpr fun pair inside => absurd (drawn inside) not_mem_nil]
    rfl
  · simp [perm_singleton.mp one]

theorem groupValidSwapPairs_partitions {iteration : Iteration Proof} (lawful : iteration.Lawful)
    (pending : List (ClientTransaction Proof)) (now : Nat) :
    (∃ unmatched, Partitioned now pending unmatched
      (groupValidSwapPairs iteration pending now)) ∧ ∀ link deadline : Fr254,
      ((groupValidSwapPairs iteration pending now).matchedSwapPairs.filter fun pair =>
          pair.1.swapLink = link ∧ pair.1.deadline = deadline).length =
        if link = 0 ∨ deadline = 0 ∨ deadline.val < now then 0 else
          min (pending.filter fun tx => tx.swapLink = link ∧ tx.deadline = deadline ∧ tx.swapSide = 1).length
            (pending.filter fun tx => tx.swapLink = link ∧ tx.deadline = deadline ∧ tx.swapSide = 0).length := by
  refine ⟨groupValidSwapPairs_partitioned lawful pending, fun link deadline => ?_⟩
  have drawn {legs : List (ClientTransaction Proof)} {pair : SwapPair Proof}
      (inside : pair ∈ (iteration.byDeadline (groupBy (·.deadline) legs)).flatMap fun entry =>
        legsPaired now entry.2) : pair.1 ∈ legs := by
    obtain ⟨group, member, paired⟩ := mem_flatMap.mp inside
    exact (mem_groupBy ((lawful.byDeadline _).mem_iff.mp member) _ (mem_legsPaired paired)).1
  have uniform : ∀ tx ∈ ((pending.filter (·.swapLink ≠ 0)).filter (·.swapLink = link)).filter (·.deadline = deadline),
      tx.swapLink = link ∧ tx.deadline = deadline := by simp +contextual
  rw [groupValidSwapPairs_eq, foldl_matchLegs_pairs, nil_append, swapGroups, flatMap_assoc]
  simp only [flatMap_map]
  rw [flatMap_filter_groups lawful.byLink (·.swapLink) link (by simp +contextual) drawn,
    flatMap_filter_groups lawful.byDeadline (·.deadline) deadline (by simp +contextual) mem_legsPaired,
    filter_eq_self.mpr fun pair paired => decide_eq_true (uniform _ (mem_legsPaired paired)),
    legsPaired_length fun tx inside => (uniform tx inside).2]
  by_cases linked : link = 0
  · simp [linked, filter_filter]
  · have counts (side : Fr254) : (((pending.filter (·.swapLink ≠ 0)).filter (·.swapLink = link)).filter
        (·.deadline = deadline)).filter (·.swapSide = side) =
          pending.filter fun tx => tx.swapLink = link ∧ tx.deadline = deadline ∧ tx.swapSide = side := by
      simp only [filter_filter]
      refine filter_congr fun tx _ => ?_
      by_cases same : tx.swapLink = link
      · simp [same, linked, Bool.and_comm]
      · simp [same]
    rw [counts, counts]
    simp only [linked, false_or]

end

def Candidate.Sound (now : Nat) (candidate : Candidate Proof) : Prop :=
  candidate.clients = none ∨ (∃ tx, candidate.clients = some [tx] ∧ tx.swapLink = 0) ∨
    ∃ a b, candidate.clients = some [a, b] ∧ candidate.slots = 2 ∧ Partners now a b

theorem candidates_sound {deposits : List DepositDataWithFee}
    {pending unmatched : List (ClientTransaction Proof)} {grouped : GroupedSwapTransactions Proof}
    (partitioned : Partitioned now pending unmatched grouped) :
    ∀ candidate ∈ candidates deposits grouped, candidate.Sound now := by
  intro candidate member
  rw [candidates, mem_append, mem_append] at member
  rcases member with (deposit | normal) | pair
  · obtain ⟨group, _, rfl⟩ := mem_map.mp deposit
    exact Or.inl rfl
  · obtain ⟨tx, inside, rfl⟩ := mem_map.mp normal
    exact Or.inr (Or.inl ⟨tx, rfl, partitioned.normal tx inside⟩)
  · obtain ⟨legs, inside, rfl⟩ := mem_map.mp pair
    exact Or.inr (Or.inr ⟨legs.1, legs.2, rfl, rfl, partitioned.pairs legs inside⟩)

theorem foldl_selectStep (blockSize : Nat) (ranked : List (Candidate Proof)) (state : List (Candidate Proof) × Nat)
    (fits : state.2 ≤ blockSize) :
    ∃ chosen, chosen.Sublist ranked ∧ (ranked.foldl (selectStep blockSize) state).1 = state.1 ++ chosen ∧
      state.2 + (chosen.map Candidate.slots).sum ≤ blockSize := by
  induction ranked generalizing state with
  | nil => exact ⟨[], .slnil, by simp, by simpa using fits⟩
  | cons candidate rest ih =>
    rw [foldl_cons, selectStep]
    split
    · rename_i room
      obtain ⟨chosen, inside, isState, slots⟩ := ih (state.1 ++ [candidate], state.2 + candidate.slots) room
      exact ⟨candidate :: chosen, inside.cons_cons _, by simp [isState], by simp at slots ⊢; omega⟩
    · obtain ⟨chosen, inside, isState, slots⟩ := ih state fits
      exact ⟨chosen, inside.cons _, isState, slots⟩

theorem splitPairs_sound {selected : List (Candidate Proof)} (sound : ∀ candidate ∈ selected, candidate.Sound now) :
    (∀ pair ∈ (splitPairs selected).1, Partners now pair.1 pair.2) ∧
      ∀ tx ∈ (splitPairs selected).2, tx.swapLink = 0 := by
  apply List.foldlRecOn (motive := fun state : List (SwapPair Proof) × List (ClientTransaction Proof) =>
    (∀ pair ∈ state.1, Partners now pair.1 pair.2) ∧ ∀ tx ∈ state.2, tx.swapLink = 0)
  · exact ⟨fun _ none => absurd none not_mem_nil, fun _ none => absurd none not_mem_nil⟩
  · intro state kept candidate member
    rcases sound candidate member with deposit | ⟨tx, single, unlinked⟩ | ⟨a, b, pair, slots, partners⟩
    · simp only [deposit]
      exact kept
    · simp only [single]
      refine ⟨kept.1, ?_⟩
      intro other inside
      rcases mem_append.mp inside with old | new
      · exact kept.2 other old
      · rw [mem_singleton.mp new]
        exact unlinked
    · simp only [pair, slots, if_true]
      refine ⟨?_, kept.2⟩
      intro other inside
      rcases mem_append.mp inside with old | new
      · exact kept.1 other old
      · rw [mem_singleton.mp new]
        exact partners

/-- A list of client transactions from a global index on: single transactions without
a link, and partners that start at an even index. -/
inductive Placed (now : Nat) : Nat → List (ClientTransaction Proof) → Prop
  | nil (index : Nat) : Placed now index []
  | single {index : Nat} {tx : ClientTransaction Proof} {rest : List (ClientTransaction Proof)}
      (unlinked : tx.swapLink = 0) (placed : Placed now (index + 1) rest) :
      Placed now index (tx :: rest)
  | pair {index : Nat} {a b : ClientTransaction Proof} {rest : List (ClientTransaction Proof)}
      (even : index % 2 = 0) (partners : Partners now a b)
      (placed : Placed now (index + 2) rest) :
      Placed now index (a :: b :: rest)

theorem placed_of_unlinked {txs : List (ClientTransaction Proof)}
    (unlinked : ∀ tx ∈ txs, tx.swapLink = 0) (index : Nat) : Placed now index txs := by
  induction txs generalizing index with
  | nil => exact .nil index
  | cons first rest ih =>
    exact .single (unlinked first mem_cons_self) (ih (fun tx inside => unlinked tx (mem_cons_of_mem _ inside)) _)

theorem placePairs_placed {pairs : List (SwapPair Proof)} {normals : List (ClientTransaction Proof)}
    (partners : ∀ pair ∈ pairs, Partners now pair.1 pair.2)
    (unlinked : ∀ tx ∈ normals, tx.swapLink = 0) (index : Nat) :
    Placed now index (placePairs normals index pairs) := by
  induction pairs generalizing normals index with
  | nil => exact placed_of_unlinked unlinked index
  | cons pair rest ih =>
    have first := partners pair mem_cons_self
    have later : ∀ pair ∈ rest, Partners now pair.1 pair.2 :=
      fun pair inside => partners pair (mem_cons_of_mem _ inside)
    rw [placePairs.eq_def]
    dsimp only
    split
    · rename_i even
      exact .pair even first (ih later unlinked _)
    · rename_i odd
      cases normals with
      | nil => exact .nil index
      | cons normal others =>
        refine .single (unlinked normal mem_cons_self) (.pair (by omega) first ?_)
        exact ih later (fun tx inside => unlinked tx (mem_cons_of_mem _ inside)) _

def Sibling (depositCount i j : Nat) : Prop :=
  (j = i + 1 ∧ (depositCount + i) % 2 = 0) ∨ (i = j + 1 ∧ (depositCount + j) % 2 = 0)

theorem Sibling.unique {depositCount i j k : Nat} (first : Sibling depositCount i j)
    (second : Sibling depositCount i k) : j = k := by
  unfold Sibling at first second
  omega

structure Settles (now : Nat) (tx partner : ClientTransaction Proof) : Prop where
  sameLink : partner.swapLink = tx.swapLink
  sameDeadline : partner.deadline = tx.deadline
  sides : (tx.swapSide = 1 ∧ partner.swapSide = 0) ∨ (tx.swapSide = 0 ∧ partner.swapSide = 1)
  hasDeadline : tx.deadline ≠ 0
  inTime : now ≤ tx.deadline.val

theorem Partners.settles {a b : ClientTransaction Proof} (partners : Partners now a b) :
    Settles now a b ∧ Settles now b a := by
  have same := partners.sameDeadline
  constructor
  · exact ⟨partners.sameLink, same, Or.inl partners.sides, partners.hasDeadline, partners.inTime⟩
  · exact ⟨partners.sameLink.symm, same.symm, Or.inr ⟨partners.sides.2, partners.sides.1⟩,
      same ▸ partners.hasDeadline, same ▸ partners.inTime⟩

theorem placed_sibling {index : Nat} {txs : List (ClientTransaction Proof)}
    (placed : Placed now index txs) {i : Nat} {tx : ClientTransaction Proof}
    (found : txs[i]? = some tx) (linked : tx.swapLink ≠ 0) :
    ∃ j partner, Sibling index i j ∧ txs[j]? = some partner ∧ Settles now tx partner := by
  induction placed generalizing i with
  | nil => simp at found
  | single unlinked _ ih =>
    cases i with
    | zero =>
      rw [List.getElem?_cons_zero, Option.some.injEq] at found
      exact absurd (found ▸ unlinked) linked
    | succ i =>
      obtain ⟨j, partner, sibling, there, settles⟩ := ih (by simpa using found)
      refine ⟨j + 1, partner, ?_, by simpa using there, settles⟩
      unfold Sibling at sibling ⊢
      omega
  | @pair index a b rest even partners _ ih =>
    match i, found with
    | 0, found =>
      rw [List.getElem?_cons_zero, Option.some.injEq] at found
      subst found
      exact ⟨1, b, Or.inl ⟨rfl, even⟩, rfl, partners.settles.1⟩
    | 1, found =>
      rw [List.getElem?_cons_succ, List.getElem?_cons_zero, Option.some.injEq] at found
      subst found
      exact ⟨0, a, Or.inr ⟨rfl, even⟩, rfl, partners.settles.2⟩
    | i + 2, found =>
      obtain ⟨j, partner, sibling, there, settles⟩ := ih (by simpa using found)
      refine ⟨j + 2, partner, ?_, by simpa using there, settles⟩
      unfold Sibling at sibling ⊢
      omega

section

variable {poseidonHash : List Fr254 → Fr254} {iteration : Iteration Proof} {mempool : Mempool Proof} {blockSize : Nat}
  {deposits : List (List DepositDataWithFee)} {txs : List (ClientTransaction Proof)}

/-- The selection where the candidates already stand in the order of their fees. -/
theorem prepareBlockData_ranked (ranked : List (Candidate Proof))
    (isRanked : candidates (mempool.deposits.filter (depositPending poseidonHash mempool))
      (groupValidSwapPairs iteration (mempool.clientTransactions.filter (clientPending mempool)) now) =
        ranked) (sorted : ranked.Pairwise (ranksBefore · ·))
    (pending : ((mempool.deposits.filter (depositPending poseidonHash mempool)).isEmpty &&
      (mempool.clientTransactions.filter (clientPending mempool)).isEmpty) = false)
    (selected : (((selectTransactions blockSize ranked).filterMap (·.deposits)).isEmpty &&
      (placeSwapPairsOnSiblings ((selectTransactions blockSize ranked).filterMap (·.deposits)).length
        (selectTransactions blockSize ranked)).isEmpty) = false) :
    prepareBlockData poseidonHash iteration mempool blockSize now =
      .ok ((selectTransactions blockSize ranked).filterMap (·.deposits), placeSwapPairsOnSiblings
        ((selectTransactions blockSize ranked).filterMap (·.deposits)).length
          (selectTransactions blockSize ranked)) := by
  simp only [prepareBlockData, isRanked, mergeSort_of_pairwise sorted, pending, selected]
  rfl

theorem prepareBlockData_ok
    (prepared : prepareBlockData poseidonHash iteration mempool blockSize now = .ok (deposits, txs)) :
    ∃ selected ranked : List (Candidate Proof), selected.Sublist ranked ∧
      (selected.map Candidate.slots).sum ≤ blockSize ∧
      ranked.Perm (candidates (mempool.deposits.filter (depositPending poseidonHash mempool))
        (groupValidSwapPairs iteration (mempool.clientTransactions.filter (clientPending mempool)) now)) ∧
      deposits = selected.filterMap (·.deposits) ∧ txs = placeSwapPairsOnSiblings deposits.length selected := by
  simp only [prepareBlockData] at prepared
  split at prepared
  · cases prepared
  · split at prepared
    · cases prepared
    · obtain ⟨rfl, rfl⟩ := Prod.mk.inj (Except.ok.inj prepared)
      obtain ⟨chosen, inside, isChosen, slots⟩ := foldl_selectStep blockSize ((candidates _
        (groupValidSwapPairs iteration _ now)).mergeSort ranksBefore) ([], 0) (Nat.zero_le _)
      rw [nil_append] at isChosen
      exact ⟨_, _, by rwa [selectTransactions, isChosen], by rw [selectTransactions, isChosen]; omega,
        mergeSort_perm _ _, rfl, rfl⟩

variable (lawful : iteration.Lawful)
  (prepared : prepareBlockData poseidonHash iteration mempool blockSize now = .ok (deposits, txs))

include lawful prepared

theorem prepareBlockData_placed : Placed now deposits.length txs := by
  obtain ⟨selected, ranked, inside, -, ranks, rfl, rfl⟩ := prepareBlockData_ok prepared
  obtain ⟨_, partitioned⟩ := groupValidSwapPairs_partitioned lawful _
  obtain ⟨partners, unlinked⟩ := splitPairs_sound fun candidate member =>
    candidates_sound partitioned candidate (ranks.mem_iff.mp (inside.subset member))
  exact placePairs_placed partners unlinked _

theorem prepareBlockData_sibling {i : Nat} {tx : ClientTransaction Proof} (found : txs[i]? = some tx)
    (linked : tx.swapLink ≠ 0) : ∃ j partner, (∀ k, Sibling deposits.length i k ↔ k = j) ∧ txs[j]? = some partner ∧
      Settles now tx partner := by
  obtain ⟨j, partner, sibling, there, settles⟩ :=
    placed_sibling (prepareBlockData_placed lawful prepared) found linked
  refine ⟨j, partner, fun k => ⟨fun other => other.unique sibling, ?_⟩, there, settles⟩
  rintro rfl
  exact sibling

end

def sampleLeg (side : Fr254) : ClientTransaction Unit := ⟨1, fun _ => 0, 7, 9, side, ()⟩

def sampleMempool : Mempool Unit := ⟨[], [sampleLeg 0, sampleLeg 1], []⟩

theorem sampleMempool_prepared : prepareBlockData (fun _ => 0) ⟨id, id⟩ sampleMempool 64 5 =
    .ok ([], [sampleLeg 1, sampleLeg 0]) := by
  refine prepareBlockData_ranked [⟨none, some [sampleLeg 1, sampleLeg 0], 2, 2⟩] ?_ (by simp) rfl rfl
  change candidates [] _ = _
  simp only [candidates, mergeSort_nil]
  rfl

theorem groupValidSwapPairs_partitions_sample : ∃ unmatched,
    Partitioned 5 sampleMempool.clientTransactions unmatched
      (groupValidSwapPairs ⟨id, id⟩ sampleMempool.clientTransactions 5) ∧
    ((groupValidSwapPairs ⟨id, id⟩ sampleMempool.clientTransactions 5).matchedSwapPairs.filter fun pair =>
      pair.1.swapLink = 7 ∧ pair.1.deadline = 9).length = 1 := by
  obtain ⟨⟨unmatched, partitioned⟩, pairs⟩ :=
    @groupValidSwapPairs_partitions Unit ⟨id, id⟩ ⟨fun _ => .refl _, fun _ => .refl _⟩
    sampleMempool.clientTransactions 5
  exact ⟨unmatched, partitioned, (pairs 7 9).trans rfl⟩

end Nightfall.Proposer
