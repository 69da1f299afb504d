import Champy.ValidationHeaders
import Champy.ValidationSpends

/-!
# Verification of a block on its chain

The `verify` overloads of the value library that check the header and the contextual rules of a
block.  They take the ancestors either as a context that was validated before or as the chain
itself.
-/

namespace Champy

namespace Validation

open Protocol

structure BlockValidationContext where
  consensus : ConsensusParams := {}
  limits : BlockLimits := {}
  deployments : BlockDeployments
  locktime : LocktimeFlags := {}
  deriving DecidableEq, Repr

def locktimeCutoff (previousMtp : Int64) : VerifyResult UInt32 :=
  if previousMtp < 0 ∨ previousMtp > 0xffffffff then
    failed .unsupportedOperation "previous median time cannot be represented as a block time"
  else pure previousMtp.toUInt64.toUInt32

/-- How a verification that takes a chain ends without facts. -/
inductive EvidenceStop
  | invalidEvidence (code : HeaderContextEvidenceCode) (reason : String)
  | stopped (stop : Stop)
  deriving DecidableEq, Repr

def HeaderContextStop.toEvidence : HeaderContextStop → EvidenceStop
  | .invalidEvidence code reason => .invalidEvidence code reason
  | .failed error => .stopped (.failed error)

section Verify

variable (doubleSha256 : ByteHash)

def verify (candidate : Block) (ancestorContext : HeaderContext) (time : Int64)
    (context : BlockValidationContext) : VerifyResult BlockFacts := do
  let cutoff ← locktimeCutoff ancestorContext.previousMedianTimePast
  let _ ← assessHeaderWithContext doubleSha256 candidate.header ancestorContext time
    context.consensus
  assessBlockContextual doubleSha256 candidate
    { localContext := { limits := context.limits }
      height := ancestorContext.height
      locktimeCutoff := cutoff
      deployments := context.deployments }

def verifyOnChain (candidate : Block) (genesisToParent : List BlockHeader) (time : Int64)
    (context : BlockValidationContext) : Exec EvidenceStop BlockFacts := do
  let ancestorContext ← Exec.mapReject HeaderContextStop.toEvidence
    (validateHeaderContext doubleSha256 genesisToParent context.consensus)
  Exec.mapReject EvidenceStop.stopped (verify doubleSha256 candidate ancestorContext time context)

end Verify

end Validation

end Champy
