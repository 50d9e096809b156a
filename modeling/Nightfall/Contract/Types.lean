import Nightfall.Library.Bytes
import Nightfall.Library.Literals
import Nightfall.Library.Revert

/-! The data that the contracts exchange and store, and the chain they run on. -/

namespace Nightfall.Contract

open Bytes Revert

abbrev Word := BitVec 256
abbrev Address := BitVec 160
abbrev ByteString := List UInt8

def wordBytes (word : Word) : ByteString := beBytes 32 word.toNat

def addressBytes (address : Address) : ByteString := beBytes 20 address.toNat

def addressWord (address : Address) : Word := address.setWidth 256

def abiEncode (words : List Word) : ByteString := words.flatMap wordBytes

structure Chain where
  sha256 : ByteString → Word
  keccak256 : ByteString → Word
  chainId : Word
  tryRecover : Word → ByteString → Option Address
  g1Add : ByteString → ByteString → Option ByteString
  hashToG2 : ByteString → ByteString → Option ByteString
  pairing : ByteString → Option Bool

def checkedAdd (left right : Word) : Except String Word := do
  require (left.toNat + right.toNat < 2 ^ 256) "panic: arithmetic overflow"
  return left + right

def checkedDouble (value : Word) : Except String Word := do
  require (2 * value.toNat < 2 ^ 256) "panic: arithmetic overflow"
  return 2 * value

inductive TokenType where
  | erc20
  | erc1155
  | erc721
  | erc3525
  | feeToken
deriving DecidableEq, Repr

structure OnChainTransaction where
  fee : Word
  commitments : Vector Word 4
  nullifiers : Vector Word 4
  publicData : Vector Word 4
deriving DecidableEq

structure DepositCommitment where
  nfTokenId : Word
  nfSlotId : Word
  value : Word
  secretHash : Word
deriving DecidableEq

def DepositCommitment.encode (deposit : DepositCommitment) : ByteString :=
  abiEncode [deposit.nfTokenId, deposit.nfSlotId, deposit.value, deposit.secretHash]

structure DepositFeeState where
  fee : Word
  escrowed : Nat
  redeemed : Nat
deriving DecidableEq

structure WithdrawData where
  nfTokenId : Word
  recipientAddress : Address
  value : Word
  withdrawFundSalt : Word
deriving DecidableEq

def WithdrawData.encode (withdrawal : WithdrawData) : ByteString :=
  abiEncode [withdrawal.nfTokenId, addressWord withdrawal.recipientAddress, withdrawal.value,
    withdrawal.withdrawFundSalt]

structure Block where
  commitmentsRoot : Word
  nullifierRoot : Word
  commitmentsRootRoot : Word
  transactions : List OnChainTransaction
  rollupProof : ByteString
  blockNumber : Word
deriving DecidableEq

structure TokenIdValue where
  ercAddress : Address
  tokenId : Word
  tokenType : TokenType
deriving DecidableEq

structure SlotIdValue where
  ercAddress : Address
  slotId : Word
  tokenType : TokenType
deriving DecidableEq

end Nightfall.Contract
