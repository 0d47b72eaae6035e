import Strawberry.Common

/-!
# Errors of the state transition

The errors that `UpdateState` and the functions it calls return.
-/

namespace Strawberry.StateTransition

inductive ChainError where
  | chainClosed
  | createIterator
  | headerValue
  | headerFromBytes
  deriving DecidableEq

inductive TransitionError where
  | blockInFuture
  | guaranteesValidation (cause : TransitionError)
  | duplicatePackage
  | futureReportSlot
  | badValidatorIndex
  | badServiceId
  | badCodeHash
  | badCoreIndex
  | workReportTooBig
  | coreUnauthorized
  | coreEngaged
  | serviceItemGasTooLow
  | workReportGasTooHigh
  | tooManyDependencies
  | queuedReportHash (cause : Jam.JamError)
  | guaranteedReportHash (cause : Jam.JamError)
  | packagesAndReportsDiffer
  | contextNotFound
  | badStateRoot
  | badBeefyMmrRoot
  | anchorNotRecent
  | lookupAnchorAge (lookupAnchor current : Timeslot)
  | noRecordOfHeader (cause : ChainError)
  | reportedInThePast
  | segmentRootLookupInvalid
  | dependencyMissing
  | outOfOrderGuarantee
  | guarantorsNotSortedUnique
  | insufficientGuarantees
  | guaranteeFromFuture
  | reportEpochBeforeLast
  | timeslotOutOfRange
  | wrongAssignment
  | marshalWorkReport (cause : Jam.JamError)
  | invalidCredentialIndex (validatorIndex : UInt16)
  | badSignature
  | reportTimeout
  | badAttestationParent
  | badOrder
  | coreNotEngaged
  | outputHash
  | badSlot
  | unexpectedTicket
  | tooManyTickets
  | badTicketAttempt
  | badTicketProof
  | duplicateTicket
  | badTicketOrder
  | uselessTicket
  | ringCommitment
  -- disputes
  | faultsNotSortedUnique
  | verdictsNotSortedUnique
  | judgementsNotSortedUnique
  | culpritsNotSortedUnique
  | invalidValidatorIndex
  | badJudgementAge
  | offenderAlreadyReported
  | alreadyJudged
  | faultVerdictWrong
  | notEnoughFaults
  | notEnoughCulprits
  | badVoteSplit
  | culpritsVerdictNotBad
  deriving DecidableEq

end Strawberry.StateTransition
