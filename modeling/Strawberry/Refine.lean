import Strawberry.HostCall.Refine

/-!
# Refinement

`Refine.InvokePVM`: the dispatcher of the refine host calls and the run of one work item.
-/

namespace Strawberry.Refine

open Polkavm Interpreter Service Work HostCall Constants

structure Refinement where
  hashData : HashData
  services : ServiceState
  itemIndex : UInt32
  workPackage : Package
  authorizerHashOutput : Option (List UInt8)
  importedSegments : List Segment
  exportOffset : UInt64

def refineCost : Gas := 10

def serveRefine (job : Refinement) (w : Item) : HostCall RefineContextPair :=
  fun hostCall gasCounter regs mem ctxPair =>
    match HostFunction.ofNumber hostCall with
    | some .historicalLookupID =>
      historicalLookup gasCounter regs mem ctxPair w.serviceId job.services
        job.workPackage.context.lookupAnchor.timeslot
    | some .fetchID =>
      fetch gasCounter regs mem ctxPair job.itemIndex job.workPackage job.authorizerHashOutput
        job.importedSegments none
    | some .exportID => exportSegment gasCounter regs mem ctxPair job.exportOffset
    | some .gasID =>
      (fun r => ⟨r.gas, r.regs, r.mem, ctxPair, r.err⟩) <$> gasRemaining gasCounter regs mem
    | some .machineID => machine gasCounter regs mem ctxPair
    | some .peekID => peek gasCounter regs mem ctxPair
    | some .zeroID => zero gasCounter regs mem ctxPair
    | some .pokeID => poke gasCounter regs mem ctxPair
    | some .voidID => void gasCounter regs mem ctxPair
    | some .invokeID => HostCall.invoke gasCounter regs mem ctxPair
    | some .expungeID => expunge gasCounter regs mem ctxPair
    | _ => .ret ⟨gasCounter - refineCost, withCode regs .what, mem, ctxPair, none⟩

def dropError {X : Type} (r : HostResult X) : HostResult X := ⟨r.gas, r.regs, r.mem, r.x, none⟩

def refineHostCall (job : Refinement) (w : Item) : HostCall RefineContextPair :=
  fun hostCall gasCounter regs mem ctxPair =>
    dropError <$> serveRefine job w hostCall gasCounter regs mem ctxPair

end Strawberry.Refine
