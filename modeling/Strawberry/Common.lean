import Strawberry.Codec

/-!
# Common types and constants

Hashes, identifiers and time slots, and the protocol constants of the default build.
-/

namespace Strawberry

abbrev Hash := Vector UInt8 32

instance : LawfulBEq Hash := inferInstance

abbrev ServiceId := UInt32

abbrev Timeslot := UInt32

abbrev HashData := List UInt8 → Hash

def toArray (n : Nat) (bytes : List UInt8) : Vector UInt8 n := Vector.ofFn fun i => bytes.getD i 0

theorem toArray_toList {n : Nat} (v : Vector UInt8 n) : toArray n v.toList = v := by
  apply Vector.ext
  intro i hi
  simp [toArray]

theorem toList_toArray {n : Nat} {bytes : List UInt8} (h : bytes.length = n) :
    (toArray n bytes).toList = bytes := by
  subst h
  apply List.ext_getElem
  · simp [toArray]
  · intro i hi hi'
    simp [toArray]

theorem toArray_inj {n : Nat} {bytes bytes' : List UInt8} (hlen : bytes.length = bytes'.length)
    (hle : bytes.length ≤ n) (h : toArray n bytes = toArray n bytes') : bytes = bytes' := by
  apply List.ext_getElem hlen
  intro i hi hi'
  have hget := congrArg (fun v => v.toList.getD i 0) h
  simpa [toArray, hi, hi', Nat.lt_of_lt_of_le hi hle] using hget

def hashOf (bytes : List UInt8) : Hash := toArray 32 bytes

def encodeUint32 (x : UInt32) : List UInt8 := Jam.toLE 4 x.toNat

def encodeUint64 (x : UInt64) : List UInt8 := Jam.toLE 8 x.toNat

namespace Constants

def numberOfValidators : Nat := 1023
def totalNumberOfCores : Nat := 341
def pendingAuthorizersQueueSize : Nat := 80
def sizeOfSegment : Nat := 4104
def maxNumberOfEntries : Nat := 2 ^ 11
def preimageExpulsionPeriod : Timeslot := 28800
def basicMinimumBalance : UInt64 := 100
def additionalMinimumBalancePerItem : UInt64 := 10
def additionalMinimumBalancePerOctet : UInt64 := 1
def transferMemoSizeBytes : Nat := 128
def availabilityThreshold : Nat := 2 * numberOfValidators / 3
def validatorsSuperMajority : Nat := 2 * numberOfValidators / 3 + 1
def availBitfieldBytes : Nat := (totalNumberOfCores + 7) / 8
def workReportTimeoutPeriod : Timeslot := 5
def validatorRotationPeriod : Timeslot := 10
def maxTicketExtrinsicSize : Nat := 16
def maxTicketAttempts : UInt8 := 2
def timeslotsPerEpoch : Nat := 600
def ticketSubmissionTimeSlots : Timeslot := 500
def maxAllocatedGasAccumulation : UInt64 := 10000000
def totalGasAccumulation : UInt64 := 341000000
def workReportMaxSumOfDependencies : Nat := 8
def maxWorkPackageSizeBytes : Nat := 48 * 1024
def maxTimeslotsForPreimage : Timeslot := 14400
def maxRecentBlocks : Nat := 8
def entropyPoolSize : Nat := 4
def maxAuthorizersPerCore : Nat := 8

end Constants

open Constants

def toEpoch (ts : Timeslot) : UInt32 := ts / UInt32.ofNat timeslotsPerEpoch

def timeslotInEpoch (ts : Timeslot) : UInt32 := ts % UInt32.ofNat timeslotsPerEpoch

theorem toEpoch_toNat (ts : Timeslot) : (toEpoch ts).toNat = ts.toNat / 600 := by
  unfold toEpoch timeslotsPerEpoch
  rw [UInt32.toNat_div]
  rfl

theorem timeslotInEpoch_toNat (ts : Timeslot) : (timeslotInEpoch ts).toNat = ts.toNat % 600 := by
  unfold timeslotInEpoch timeslotsPerEpoch
  rw [UInt32.toNat_mod]
  rfl

theorem toEpoch_mono {ts ts' : Timeslot} (h : ts < ts') : toEpoch ts ≤ toEpoch ts' := by
  rw [UInt32.le_iff_toNat_le, toEpoch_toNat, toEpoch_toNat]
  exact Nat.div_le_div_right (Nat.le_of_lt (UInt32.lt_iff_toNat_lt.mp h))

def isTicketSubmissionPeriod (ts : Timeslot) : Bool :=
  timeslotInEpoch ts < ticketSubmissionTimeSlots

def isWinningTicketMarkerPeriod (ts previous : Timeslot) : Bool :=
  timeslotInEpoch previous < ticketSubmissionTimeSlots &&
    ticketSubmissionTimeSlots ≤ timeslotInEpoch ts

abbrev Ed25519Key := Vector UInt8 32

abbrev Ed25519Signature := Vector UInt8 64

abbrev BandersnatchPublicKey := Vector UInt8 32

abbrev BandersnatchSignature := Vector UInt8 96

abbrev BandersnatchOutputHash := Vector UInt8 32

abbrev RingCommitment := Vector UInt8 144

abbrev RingVrfSignature := Vector UInt8 784

structure Primitives where
  hashData : HashData
  keccakData : HashData
  sha256 : HashData
  ed25519Verify : Ed25519Key → List UInt8 → Ed25519Signature → Bool
  outputHash : BandersnatchSignature → Option BandersnatchOutputHash
  newRingVerifier : List BandersnatchPublicKey → Bool
  ringCommitment : List BandersnatchPublicKey → Option RingCommitment
  ringVerify : List BandersnatchPublicKey → List UInt8 → RingCommitment → RingVrfSignature →
    Option BandersnatchOutputHash

def ascii (s : String) : List UInt8 := s.toList.map fun c => UInt8.ofNat c.toNat

end Strawberry
