import Mathlib.Algebra.GroupWithZero.Nat
import Mathlib.Data.List.Forall2
import Nightfall.Library.Checkpoints
import Nightfall.Proposer.TreeSnapshot

/-! `speculative_state`: the blocks the proposer has put into its trees and that are not yet on
chain. -/

namespace Nightfall.Proposer

open Store Checkpoints TreeSnapshot Nat
open List hiding count

structure SpeculativeBlock (F : Type) where
  root : Option F
  snapshotSuffix : Option String

section

variable {F : Type} (queue : List (SpeculativeBlock F))

def qPush (snapshotSuffix : Option String) : List (SpeculativeBlock F) :=
  queue ++ [⟨none, snapshotSuffix⟩]

def qSetBackRoot (root : F) : List (SpeculativeBlock F) :=
  match queue.getLast? with
  | some block => if block.root.isNone then queue.dropLast ++ [{ block with root := some root }] else queue
  | none => queue

def qPopBackIfUnrooted : Option (SpeculativeBlock F) × List (SpeculativeBlock F) :=
  match queue.getLast? with
  | some block => if block.root.isNone then (some block, queue.dropLast) else (none, queue)
  | none => (none, queue)

end

structure Speculation (F D : Type) where
  db : Mongo D
  queue : List (SpeculativeBlock F)
  seq : ℕ

section

variable {F D : Type}

def nextSuffix (state : Speculation F D) : String × Speculation F D :=
  (toString state.seq, { state with seq := (state.seq + 1) % 2 ^ 64 })

def begin (state : Speculation F D) : Speculation F D :=
  let (suffix, state) := nextSuffix state
  match (snapshot suffix).run state.db with
  | (.ok _, db) => { state with db := db, queue := qPush state.queue (some suffix) }
  | (.error _, db) =>
    { state with db := ((dropSnapshot suffix).run db).2, queue := qPush state.queue none }

def confirmPrepare (commitmentsRoot : F) (state : Speculation F D) : Speculation F D :=
  { state with queue := qSetBackRoot state.queue commitmentsRoot }

def abortPrepare (state : Speculation F D) : Speculation F D :=
  let (block, queue) := qPopBackIfUnrooted state.queue
  match block.bind SpeculativeBlock.snapshotSuffix with
  | some suffix =>
    { state with db := ((dropSnapshot suffix).run ((restore suffix).run state.db).2).2, queue := queue }
  | none => { state with queue := queue }

variable [DecidableEq F]

end

theorem toString_inj {first second : ℕ} (same : toString first = toString second) : first = second := by
  rw [toString_eq_ofList_toDigits, toString_eq_ofList_toDigits] at same
  have digits := congrArg String.toList same
  rw [String.toList_ofList, String.toList_ofList] at digits
  calc
    first = ofDigitChars 10 (toDigits 10 first) 0 := ofDigitChars_ten_toDigits.symm
    _ = ofDigitChars 10 (toDigits 10 second) 0 := by rw [digits]
    _ = second := ofDigitChars_ten_toDigits

section

variable {F D : Type}

def entry (checkpoint : Checkpoint F (Contents D)) : SpeculativeBlock F :=
  ⟨checkpoint.label, some (toString checkpoint.number)⟩

structure Refines (state : Speculation F D) (journal : Journal F (Contents D)) : Prop where
  sound : state.db.Sound
  current : treeContents state.db = journal.current
  seq : state.seq = journal.started % 2 ^ 64
  queue : state.queue = journal.pending.map entry
  kept : ∀ checkpoint ∈ journal.pending, backupContents state.db (toString checkpoint.number) = checkpoint.before
  clean : ∀ number < journal.started, (∀ checkpoint ∈ journal.pending, checkpoint.number ≠ number) →
    backupContents state.db (toString number) = noBackup

variable {state : Speculation F D} {journal : Journal F (Contents D)}

theorem refines_fresh {db : Mongo D} (sound : db.Sound) :
    Refines (F := F) ⟨db, [], 0⟩ (Journal.fresh (treeContents db)) :=
  ⟨sound, rfl, rfl, rfl, by simp [Journal.fresh], fun _ below => absurd below (not_lt_zero _)⟩

section

variable (refines : Refines state journal)

include refines

theorem Refines.begin (numbered : journal.Numbered) (few : journal.started < 2 ^ 64) :
    Refines (begin state) journal.start := by
  have isSeq : state.seq = journal.started := refines.seq.trans (mod_eq_of_lt few)
  obtain ⟨after, ran, sound, trees, taken, others⟩ := snapshot_run refines.sound (toString state.seq)
  have isBegin : Proposer.begin state =
      ⟨after, state.queue ++ [⟨none, some (toString state.seq)⟩], (state.seq + 1) % 2 ^ 64⟩ := by
    simp only [Proposer.begin, nextSuffix, ran, qPush]
  rw [isBegin]
  rw [isSeq] at taken others ⊢
  refine ⟨sound, trees.trans refines.current, rfl, ?_, ?_, ?_⟩
  · rw [refines.queue, Journal.start, map_append]
    rfl
  · rw [Journal.start, forall_mem_append, forall_mem_singleton]
    refine ⟨fun checkpoint member => ?_, taken.trans refines.current⟩
    rw [others _ fun same => (numbered.below _ (mem_map_of_mem member)).ne (toString_inj same)]
    exact refines.kept checkpoint member
  · simp only [Journal.start, forall_mem_append, forall_mem_singleton]
    intro number below free
    rw [others _ fun same => free.2 (toString_inj same).symm]
    exact refines.clean number (lt_of_le_of_ne (le_of_lt_succ below) free.2.symm) free.1

theorem Refines.mutate (contents : Contents D) :
    Refines { state with db := replaceTrees contents state.db } { journal with current := contents } where
  sound := refines.sound
  current := replaceTrees_treeContents contents state.db
  seq := refines.seq
  queue := refines.queue
  kept checkpoint member := (replaceTrees_backupContents ..).trans (refines.kept checkpoint member)
  clean number below free := (replaceTrees_backupContents ..).trans (refines.clean number below free)

theorem Refines.confirmPrepare (root : F) : Refines (confirmPrepare root state) (journal.settle root) := by
  obtain ⟨db, queue, seq⟩ := state
  obtain rfl : queue = journal.pending.map entry := refines.queue
  rcases journal.open_cases with closed | ⟨others, last, isPending, isOpen⟩
  · rw [Journal.settle_closed root closed]
    cases isLast : journal.pending.getLast? with
    | none => simpa [Proposer.confirmPrepare, qSetBackRoot, isLast] using refines
    | some last => simpa [Proposer.confirmPrepare, qSetBackRoot, isLast, entry,
        Option.isSome_iff_ne_none.mp (closed last isLast)] using refines
  · rw [Journal.settle_open root isPending isOpen]
    refine ⟨refines.sound, refines.current, refines.seq, ?_, ?_, ?_⟩
    · simp [Proposer.confirmPrepare, qSetBackRoot, isPending, entry, isOpen]
    · simpa [Proposer.confirmPrepare, isPending, or_imp, forall_and] using refines.kept
    · simpa [Proposer.confirmPrepare, isPending, or_imp, forall_and] using refines.clean

/-- One snapshot is dropped, from a database with the same snapshots. -/
theorem Refines.dropped (numbered : journal.Numbered) {front back : List (Checkpoint F (Contents D))}
    {checkpoint : Checkpoint F (Contents D)} (isPending : journal.pending = front ++ checkpoint :: back) {db : Mongo D}
    (sound : db.Sound) (same : ∀ suffix, backupContents db suffix = backupContents state.db suffix) :
    Refines ⟨((dropSnapshot (toString checkpoint.number)).run db).2, (front ++ back).map entry, state.seq⟩
      ⟨treeContents db, front ++ back, journal.started⟩ := by
  obtain ⟨after, ran, afterSound, trees, dropped, others⟩ := dropSnapshot_run sound (toString checkpoint.number)
  rw [ran]
  refine ⟨afterSound, trees, refines.seq, rfl, fun other member => ?_, fun number below free => ?_⟩
  · rw [others _ fun sameText => numbered.apart isPending other member (toString_inj sameText), same]
    rw [mem_append] at member
    refine refines.kept other ?_
    rw [isPending, mem_append, mem_cons]
    exact member.imp_right Or.inr
  · by_cases isDropped : number = checkpoint.number
    · rw [isDropped, dropped]
    · rw [others _ fun sameText => isDropped (toString_inj sameText), same]
      refine refines.clean number below ?_
      simpa [isPending, or_imp, forall_and, Ne.symm isDropped] using free

theorem Refines.restored {front back : List (Checkpoint F (Contents D))}
    {checkpoint : Checkpoint F (Contents D)} (isPending : journal.pending = front ++ checkpoint :: back) :
    ((restore (toString checkpoint.number)).run state.db).2.Sound ∧
      treeContents ((restore (toString checkpoint.number)).run state.db).2 = checkpoint.before ∧
      ∀ suffix, backupContents ((restore (toString checkpoint.number)).run state.db).2 suffix =
        backupContents state.db suffix := by
  obtain ⟨after, ran, sound, trees, backups⟩ := restore_run refines.sound (toString checkpoint.number)
  rw [ran]
  exact ⟨sound, trees.trans (refines.kept checkpoint (by simp [isPending])), backups⟩

theorem Refines.abortPrepare (numbered : journal.Numbered) : Refines (abortPrepare state) journal.abandon := by
  obtain ⟨db, queue, seq⟩ := state
  obtain rfl : queue = journal.pending.map entry := refines.queue
  rcases journal.open_cases with closed | ⟨others, last, isPending, isOpen⟩
  · rw [Journal.abandon_closed closed]
    cases isLast : journal.pending.getLast? with
    | none => simpa [Proposer.abortPrepare, qPopBackIfUnrooted, isLast] using refines
    | some last => simpa [Proposer.abortPrepare, qPopBackIfUnrooted, isLast, entry,
        Option.isSome_iff_ne_none.mp (closed last isLast)] using refines
  · obtain ⟨sound, trees, same⟩ := refines.restored isPending
    have dropped := refines.dropped numbered isPending sound same
    rw [trees, append_nil] at dropped
    rw [Journal.abandon_open isPending isOpen]
    simpa [Proposer.abortPrepare, qPopBackIfUnrooted, isPending, entry, isOpen] using dropped

end

variable [DecidableEq F]

end

end Nightfall.Proposer
