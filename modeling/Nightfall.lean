import Nightfall.Contract.Funding
import Nightfall.Contract.Withdrawals
import Nightfall.Noir.NeutralRecipient
import Nightfall.Oracle.Refinement
import Nightfall.Plonk.Fees
import Nightfall.Plonk.SwapLegs
import Nightfall.Proposer.Landing
import Nightfall.RoundRobin.Turns
import Nightfall.Nova.Packing
import Nightfall.Nova.Quorum
import Nightfall.RoundRobin.Idleness
import Nightfall.X509.Binding
import Nightfall.X509.Revocation
import Nightfall.X509.Trust
import Nightfall.X509.SignedData
import Nightfall.Nova.Envelope
import Nightfall.Nova.StepSoundness
import Nightfall.Nova.BlockContinuity
import Nightfall.MerkleTrees.IndexedErrors
import Nightfall.MerkleTrees.PaddedHex
import Nightfall.Proposer.EventErrors
import Nightfall.Proposer.Restart
import Nightfall.Proposer.MakeBlock
import Nightfall.Proposer.Admission
import Nightfall.Client.SwapExpiry
import Nightfall.Client.CommitmentSelection
import Nightfall.Client.Keys
import Nightfall.X509.Validity
