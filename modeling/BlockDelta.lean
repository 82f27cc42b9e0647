import BlockDelta.Main
import BlockDelta.Proofs.Transfer.RoundTrip
import BlockDelta.Proofs.Transfer.Script
import BlockDelta.Proofs.Matching.Refinement
import BlockDelta.Proofs.Matching.Listening
import BlockDelta.Proofs.Matching.Representation
import BlockDelta.Proofs.Delta.Canonical
import BlockDelta.Proofs.Rebuild.Accepted
import BlockDelta.Proofs.Signature.Canonical
import BlockDelta.Proofs.Storage.Incremental
import BlockDelta.Proofs.Transfer.Truncation
import BlockDelta.Proofs.Delta.Partition
import BlockDelta.Proofs.Rebuild.Refused
import BlockDelta.Proofs.Rolling.Slots
import BlockDelta.Proofs.Rolling.Operations
import BlockDelta.Proofs.Signature.Reading
import BlockDelta.Proofs.Signature.WellFormed
import BlockDelta.Proofs.Strict.Decoding
import BlockDelta.Proofs.Strict.Fresh
import BlockDelta.Proofs.Strict.Conflicts
import BlockDelta.Proofs.Strict.Order
import BlockDelta.Proofs.Strict.InPlace
import BlockDelta.Proofs.Strict.Received
import BlockDelta.Proofs.Matching.Renewal
import BlockDelta.Proofs.Transfer.Prefix
import BlockDelta.Proofs.CommandLine.Serving
import BlockDelta.Proofs.CommandLine.Describing
import BlockDelta.Proofs.Schedule.Safety
import BlockDelta.Proofs.Schedule.Cycles
import BlockDelta.Proofs.Schedule.Pairs
import BlockDelta.Proofs.Rebuild.Pointwise
import BlockDelta.Proofs.Matching.Identity
import BlockDelta.Proofs.Rolling.Registers
import BlockDelta.Proofs.Rolling.Moves
import BlockDelta.Matching.Table
import BlockDelta.Proofs.Matching.Table
import BlockDelta.Proofs.Signature.Agreement
import BlockDelta.Proofs.Matching.Interruption
import BlockDelta.Proofs.Delta.ExactCover
import BlockDelta.Proofs.Strict.Pushing
import BlockDelta.Proofs.Delta.NormalForm
import BlockDelta.Proofs.Rebuild.AtOnce
import BlockDelta.Signature.Bitwise
import BlockDelta.Proofs.Signature.Root
import BlockDelta.Proofs.Signature.Bitwise
import BlockDelta.Proofs.Signature.Derived
import BlockDelta.Proofs.Schedule.Pairs
