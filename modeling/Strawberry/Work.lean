import Strawberry.Block

/-!
# Work packages

The work package as the refine functions read it, with its encoding.
-/

namespace Strawberry.Work

open Jam Block Constants

abbrev Segment := Vector UInt8 sizeOfSegment

structure ImportedSegment where
  hash : Hash
  index : UInt16
  deriving DecidableEq

structure Extrinsic where
  hash : Hash
  length : UInt32
  deriving DecidableEq

structure Item where
  serviceId : ServiceId
  codeHash : Hash
  payload : Option (List UInt8)
  gasLimitRefine : UInt64
  gasLimitAccumulate : UInt64
  importedSegments : List ImportedSegment
  extrinsics : List Extrinsic
  exportedSegments : UInt16
  deriving DecidableEq

structure Package where
  authorizationToken : List UInt8
  authorizerService : UInt32
  authCodeHash : Hash
  parameterization : List UInt8
  context : RefinementContext
  workItems : List Item
  deriving DecidableEq

def zeroPadding (x : List UInt8) (n : Nat) : List UInt8 :=
  if n = 0 then x else x ++ List.replicate (n - ((x.length + n - 1) % n + 1)) 0

def Item.encode (w : Item) : List UInt8 :=
  encodeUint32 w.serviceId ++ w.codeHash.toList ++ encodeBytes (w.payload.getD []) ++
    encodeUint64 w.gasLimitRefine ++ encodeUint64 w.gasLimitAccumulate ++
    encodeSlice (fun s => s.hash.toList ++ encodeUint16 s.index) w.importedSegments ++
    encodeSlice (fun x => x.hash.toList ++ encodeUint32 x.length) w.extrinsics ++
    encodeUint16 w.exportedSegments

def Package.encode (p : Package) : List UInt8 :=
  encodeBytes p.authorizationToken ++ encodeUint32 p.authorizerService ++
    p.authCodeHash.toList ++ encodeBytes p.parameterization ++ p.context.encode ++
    encodeSlice Item.encode p.workItems

end Strawberry.Work
