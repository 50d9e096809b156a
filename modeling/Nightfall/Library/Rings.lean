import Mathlib.Data.List.Chain
import Mathlib.Data.List.Nodup

/-! Circular doubly linked lists kept as two pointer functions. A ring is the list
of its members from a first one on; the pointers of everything outside are free. -/

namespace Rings

open List

variable {A : Type}

def Linked (next previous : A → A) (left right : A) : Prop :=
  next left = right ∧ previous right = left

structure IsRing (next previous : A → A) (first : A) (rest : List A) : Prop where
  once : (first :: rest).Nodup
  linked : (first :: (rest ++ [first])).IsChain (Linked next previous)

variable {next previous next' previous' : A → A} {first : A} {rest : List A}

theorem isRing_single (first : A) (toItself : next first = first)
    (fromItself : previous first = first) : IsRing next previous first [] :=
  ⟨nodup_singleton first, isChain_pair.mpr ⟨toItself, fromItself⟩⟩

section

variable (ring : IsRing next previous first rest)

include ring

theorem IsRing.startAt {a : A} (member : a ∈ first :: rest) :
    ∃ others, IsRing next previous a others ∧ (a :: others).Perm (first :: rest) := by
  rcases mem_cons.mp member with here | later
  · subst here
    exact ⟨rest, ring, List.Perm.refl _⟩
  · obtain ⟨before, after, split⟩ := append_of_mem later
    subst split
    have permuted : ((a :: after) ++ first :: before).Perm ((first :: before) ++ a :: after) :=
      perm_append_comm
    have linked := ring.linked
    rw [append_assoc, cons_append, isChain_cons_split] at linked
    refine ⟨after ++ first :: before, ⟨permuted.nodup_iff.mpr ring.once, ?_⟩, permuted⟩
    rw [append_assoc, cons_append, isChain_cons_split]
    exact ⟨linked.2, linked.1⟩

theorem IsRing.next_linked {a : A} (member : a ∈ first :: rest) :
    Linked next previous a (next a) ∧ next a ∈ first :: rest := by
  obtain ⟨others, turned, permuted⟩ := ring.startAt member
  have linked := turned.linked
  have successor : ∃ b ∈ a :: others, Linked next previous a b := by
    cases others with
    | nil => exact ⟨a, mem_cons_self, isChain_pair.mp linked⟩
    | cons b others =>
      exact ⟨b, mem_cons_of_mem _ mem_cons_self, (isChain_cons_cons.mp linked).1⟩
  obtain ⟨b, inRing, link⟩ := successor
  rw [link.1]
  exact ⟨link, permuted.mem_iff.mp inRing⟩

theorem IsRing.previous_linked {a : A} (member : a ∈ first :: rest) :
    Linked next previous (previous a) a ∧ previous a ∈ first :: rest := by
  obtain ⟨others, turned, permuted⟩ := ring.startAt member
  have linked : ((a :: others) ++ [a]).IsChain (Linked next previous) := turned.linked
  have link := linked.rel_getLast_head_of_append (cons_ne_nil a others) (cons_ne_nil a [])
  have last := getLast_mem (cons_ne_nil a others)
  simp only [head_cons] at link
  rw [link.2]
  exact ⟨link, permuted.mem_iff.mp last⟩

theorem IsRing.next_ne {a b : A} (aMember : a ∈ first :: rest) (bMember : b ∈ first :: rest) (different : b ≠ a) :
    next a ≠ a := by
  obtain ⟨others, turned, permuted⟩ := ring.startAt aMember
  have linked := turned.linked
  have once := turned.once
  cases others with
  | nil => exact absurd (mem_singleton.mp (permuted.mem_iff.mpr bMember)) different
  | cons c others =>
    have link := (isChain_cons_cons.mp linked).1
    rw [link.1]
    rintro rfl
    exact (nodup_cons.mp once).1 mem_cons_self

theorem IsRing.previous_ne {a b : A} (aMember : a ∈ first :: rest) (bMember : b ∈ first :: rest) (different : b ≠ a) :
    previous a ≠ a := by
  intro back
  have link := (ring.previous_linked aMember).1.1
  rw [back] at link
  exact ring.next_ne aMember bMember different link

theorem IsRing.insert {new : A} (fresh : new ∉ first :: rest) (nextNew : next' new = first)
    (previousNew : previous' new = previous first) (nextLast : next' (previous first) = new)
    (previousFirst : previous' first = new) (nextKept : ∀ a ∈ first :: rest, a ≠ previous first → next' a = next a)
    (previousKept : ∀ a ∈ rest, previous' a = previous a) : IsRing next' previous' first (rest ++ [new]) := by
  have linked : ((first :: rest) ++ [first]).IsChain (Linked next previous) := ring.linked
  obtain ⟨chain, _, closing⟩ := isChain_append.mp linked
  have firstOnce := (nodup_cons.mp ring.once).1
  have inner : (first :: rest).IsChain (Linked next' previous') := by
    refine chain.imp_of_mem_tail_imp ?_
    intro a b aMember bMember link
    have notLast : a ≠ previous first := by
      intro last
      have wraps := (ring.previous_linked mem_cons_self).1.1
      rw [← last, link.1] at wraps
      exact firstOnce (wraps ▸ bMember)
    exact ⟨(nextKept a aMember notLast).trans link.1, (previousKept b bMember).trans link.2⟩
  refine ⟨?_, ?_⟩
  · have permuted : (first :: (rest ++ [new])).Perm (new :: first :: rest) :=
      perm_append_singleton new (first :: rest)
    exact permuted.nodup_iff.mpr (nodup_cons.mpr ⟨fresh, ring.once⟩)
  · rw [append_assoc, singleton_append, isChain_cons_append_cons_cons]
    refine ⟨?_, ⟨nextNew, previousFirst⟩, isChain_singleton first⟩
    have extended : ((first :: rest) ++ [new]).IsChain (Linked next' previous') := by
      refine inner.append (isChain_singleton new) ?_
      intro last isLast other isNew
      obtain rfl : new = other := by simpa using isNew
      have wraps := closing last isLast first rfl
      rw [← wraps.2]
      exact ⟨nextLast, previousNew⟩
    exact extended

end

theorem IsRing.erase [DecidableEq A] (ring : IsRing next previous first rest) {gone : A} (member : gone ∈ rest)
    (joined : next' (previous gone) = next gone) (joinedBack : previous' (next gone) = previous gone)
    (nextKept : ∀ a ∈ first :: rest, a ≠ gone → a ≠ previous gone → next' a = next a)
    (previousKept : ∀ a ∈ first :: rest, a ≠ gone → a ≠ next gone → previous' a = previous a) :
    IsRing next' previous' first (rest.erase gone) := by
  have into := (ring.previous_linked (mem_cons_of_mem first member)).1
  have outOf := (ring.next_linked (mem_cons_of_mem first member)).1
  have kept : ∀ a b, a ∈ first :: rest ∧ a ≠ gone → b ∈ first :: rest ∧ b ≠ gone →
      Linked next previous a b → Linked next' previous' a b := by
    rintro a b ⟨aMember, aStays⟩ ⟨bMember, bStays⟩ link
    refine ⟨?_, ?_⟩
    · rw [nextKept a aMember aStays fun before => bStays (by rw [← link.1, before, into.1]), link.1]
    · rw [previousKept b bMember bStays fun after => aStays (by rw [← link.2, after, outOf.2]), link.2]
  obtain ⟨before, after, notBefore, split, erased⟩ := exists_erase_eq member
  have restOnce := (nodup_cons.mp ring.once).2
  have firstStays : first ≠ gone := fun same =>
    (nodup_cons.mp ring.once).1 (same ▸ member)
  have notAfter : gone ∉ after := by
    rw [split] at restOnce
    exact (nodup_cons.mp (nodup_append.mp restOnce).2.1).1
  have stays : ∀ a, a ∈ first :: before ∨ a ∈ after ++ [first] → a ∈ first :: rest ∧ a ≠ gone := by
    intro a inside
    refine ⟨by simp [split] at inside ⊢; tauto, ?_⟩
    rintro rfl
    simp [notBefore, notAfter, firstStays.symm] at inside
  have linked := ring.linked
  rw [erased]
  refine ⟨ring.once.sublist ?_, ?_⟩
  · rw [← erased]
    exact erase_sublist.cons_cons first
  · rw [split, append_assoc, cons_append, isChain_cons_split] at linked
    have reaches : ((first :: before) ++ [gone]).IsChain (Linked next previous) := linked.1
    obtain ⟨start, _, toGone⟩ := isChain_append.mp reaches
    obtain ⟨fromGone, finish⟩ := isChain_cons.mp linked.2
    have left : (first :: before).IsChain (Linked next' previous') :=
      start.imp_of_mem_imp fun a b aMember bMember => kept a b (stays a (.inl aMember)) (stays b (.inl bMember))
    have right : (after ++ [first]).IsChain (Linked next' previous') :=
      finish.imp_of_mem_imp fun a b aMember bMember => kept a b (stays a (.inr aMember)) (stays b (.inr bMember))
    have joinedUp : ((first :: before) ++ (after ++ [first])).IsChain (Linked next' previous') := by
      refine left.append right ?_
      intro last isLast head isHead
      have lastLink := toGone last isLast gone rfl
      have headLink := fromGone head isHead
      rw [← lastLink.2, ← headLink.1]
      exact ⟨joined, joinedBack⟩
    simpa using joinedUp

end Rings
