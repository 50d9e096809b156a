import Mathlib.Data.List.GetD
import Nightfall.Contract.Types

/-! The canonical ABI encoding of a `Block` argument, as 32-byte words from the start of the struct,
and the raw reads that `propose_block` makes in assembly. -/

namespace Nightfall.Contract

open List

def OnChainTransaction.words (transaction : OnChainTransaction) : List Word :=
  transaction.fee :: (transaction.commitments.toList ++ transaction.nullifiers.toList ++
    transaction.publicData.toList)

@[simp] theorem words_length (transaction : OnChainTransaction) : transaction.words.length = 13 := by
  simp [OnChainTransaction.words]

def bytesWords (bytes : ByteString) : List Word :=
  (bytes.toChunks 32).map fun chunk =>
    BitVec.ofNat 256 (Bytes.beNat (chunk ++ replicate (32 - chunk.length) 0))

def Block.calldata (blk : Block) : List Word :=
  [blk.commitmentsRoot, blk.nullifierRoot, blk.commitmentsRootRoot, 0xC0,
    BitVec.ofNat 256 (0xE0 + 0x1A0 * blk.transactions.length), blk.blockNumber,
    BitVec.ofNat 256 blk.transactions.length] ++ blk.transactions.flatMap OnChainTransaction.words ++
    BitVec.ofNat 256 blk.rollupProof.length :: bytesWords blk.rollupProof

def calldataload (calldata : List Word) (offset : Nat) : Word :=
  calldata.getD (offset / 32) 0

/-- `calldataload(add(blk, add(add(calldataload(add(blk, 0x60)), mul(i, 0x1A0)), offset)))`. -/
def transactionLoad (calldata : List Word) (i offset : Nat) : Word :=
  calldataload calldata ((calldataload calldata 0x60).toNat + i * 0x1A0 + offset)

def transactionsLength (calldata : List Word) : Word :=
  calldataload calldata (calldataload calldata 0x60).toNat

@[simp] theorem calldataload_transactions (blk : Block) : calldataload blk.calldata 0x60 = 0xC0 := by
  simp [calldataload, Block.calldata]

theorem transactionsLength_calldata (blk : Block) :
    transactionsLength blk.calldata = BitVec.ofNat 256 blk.transactions.length := by
  rw [transactionsLength, calldataload_transactions]
  simp [calldataload, Block.calldata]

theorem flatMap_words_getD (transactions : List OnChainTransaction) (rest : List Word) :
    ∀ i transaction, transactions[i]? = some transaction → ∀ k, k < 13 →
      (transactions.flatMap OnChainTransaction.words ++ rest).getD (13 * i + k) 0 = transaction.words.getD k 0 := by
  induction transactions with
  | nil => simp
  | cons first later ih =>
    intro i transaction found k bound
    simp only [flatMap_cons, append_assoc]
    cases i with
    | zero =>
      simp only [getElem?_cons_zero, Option.some.injEq] at found
      subst found
      rw [getD_append _ _ _ _ (by simp; omega)]
      simp
    | succ i =>
      rw [getD_append_right _ _ _ _ (by simp; omega)]
      have index : 13 * (i + 1) + k - first.words.length = 13 * i + k := by
        simp only [words_length]
        omega
      rw [index]
      exact ih i transaction (by simpa using found) k bound

theorem transactionLoad_calldata (blk : Block) {i : Nat} {transaction : OnChainTransaction}
    (found : blk.transactions[i]? = some transaction) {k : Nat} (bound : k < 13) :
    transactionLoad blk.calldata i (0x20 + 0x20 * k) = transaction.words.getD k 0 := by
  have index : ((0xC0 : Word).toNat + i * 0x1A0 + (0x20 + 0x20 * k)) / 32 = 13 * i + k + 7 := by
    have base : (0xC0 : Word).toNat = 192 := rfl
    omega
  have content := flatMap_words_getD blk.transactions
    (BitVec.ofNat 256 blk.rollupProof.length :: bytesWords blk.rollupProof) i transaction found k bound
  rw [transactionLoad, calldataload_transactions, calldataload, index]
  simpa [Block.calldata, nil_append, getD_cons_succ] using content

section

variable {blk : Block} {i : Nat} {transaction : OnChainTransaction} (found : blk.transactions[i]? = some transaction)

include found

theorem transactionLoad_commitment : transactionLoad blk.calldata i 0x40 = transaction.commitments.get 0 := by
  rw [show 0x40 = 0x20 + 0x20 * 1 by rfl, transactionLoad_calldata blk found (by omega)]
  simp only [OnChainTransaction.words, getD]
  simp
  rfl

theorem transactionLoad_nullifier : transactionLoad blk.calldata i 0xC0 = transaction.nullifiers.get 0 := by
  rw [show 0xC0 = 0x20 + 0x20 * 5 by rfl, transactionLoad_calldata blk found (by omega)]
  simp only [OnChainTransaction.words, getD]
  simp
  rfl

theorem transactionLoad_publicData {j : Nat} (bound : j < 4) :
    transactionLoad blk.calldata i (0x20 + (0x120 + j * 0x20)) = transaction.publicData[j] := by
  rw [show 0x20 + (0x120 + j * 0x20) = 0x20 + 0x20 * (9 + j) by omega, transactionLoad_calldata blk found (by omega)]
  have index : 9 + j = (j + 8) + 1 := by omega
  have past : ¬ j + 8 < 4 := by omega
  simp [OnChainTransaction.words, getD, getElem?_append, index, bound, past]

end

end Nightfall.Contract
