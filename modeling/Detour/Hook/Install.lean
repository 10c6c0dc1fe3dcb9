import Detour.World

/-! Installing a hook. An install checks the method, captures a snapshot and reflects the method, and then
patches the descriptor. Class initialization and reflection are the points where other code may run; the
claim in the last piece decides between installs that interleave there. Whatever fails releases what was
pinned before. -/
namespace Detour

variable {σ : Type}

structure Candidate where
  method : MethodAddress
  shorty : Shorty
  payload : Option Handle
  deriving DecidableEq

structure Captured where
  candidate : Candidate
  snapshot : Snapshot
  reflected : Handle
  deriving DecidableEq

namespace Install

open World

def releasePayload (payload : Option Handle) : Machine σ Unit := releaseAll payload.toList

def eligible (m : MethodAddress) : Act σ InstallError (ClassId × Shorty) := do
  let d ← lift (descriptor m)
  if d.isAbstract then
    throw (.abstractMethod (← lift (describe m)))
  match d.declaringClass with
  | none =>
    let info ← lift (method m)
    throw (.unresolvable "?" info.name info.signature)
  | some c =>
    let shorty ← Action.ofExcept d.shorty
    return (c, shorty)

def check (m : MethodAddress) (payload : Option Ref) : Act σ InstallError Candidate := do
  let (c, shorty) ← eligible m
  let pinned ← lift (payload.mapM fun p => createGlobal (some p))
  let initialized := (← get).vm.classes.isInitialized c
  if (← lift (descriptor m)).isStatic && !initialized then
    match ← lift (initClass c).attempt with
    | .ok () => pure ()
    | .error e =>
      lift (releasePayload pinned)
      throw (.runtime e)
  return ⟨m, shorty, pinned⟩

def reflect (intrude : MethodAddress → Act σ RuntimeError Unit) (m : MethodAddress) :
    Act σ RuntimeError Ref := do
  serve .reflect
  intrude m
  lift (vmStep (Vm.allocate (.reflected m)))

def capture (intrude : MethodAddress → Act σ RuntimeError Unit) (i : Interceptor) (k : Candidate) :
    Act σ InstallError Captured := do
  let d ← lift (descriptor k.method)
  match ← lift (Step.ofExcept (Snapshot.capture i.layout i.settings.snapshotSlack d)) with
  | .error e =>
    lift (releasePayload k.payload)
    throw (.runtime e)
  | .ok snapshot =>
    match ← lift (reflect intrude k.method).attempt with
    | .error e =>
      lift (releasePayload k.payload)
      throw (.runtime e)
    | .ok r =>
      let reflected ← lift (createGlobal (some r))
      return ⟨k, snapshot, reflected⟩

/-- Builds the record and claims the descriptor for it. A lost claim discards the record; if the method
is hooked by then, the winner's record is returned. -/
def patch (i : Interceptor) (k : Captured) : Act σ InstallError Nat := do
  let m := k.candidate.method
  let d ← lift (descriptor m)
  let record : InstalledHook := {
    method := m
    snapshot := k.snapshot
    reflected := k.reflected
    payload := k.candidate.payload
    shorty := k.candidate.shorty
    isStatic := d.isStatic
    slots := slots i.arch.abi k.candidate.shorty d.isStatic
    interceptor := i }
  let id := (← get).records.length
  match d.patch? i.settings.patchStyle k.snapshot.descriptor.nativeData id with
  | some patched =>
    modify fun w => (w.withDescriptor m patched).publish record
    return id
  | none =>
    lift (releaseHandle k.reflected)
    lift (releasePayload k.candidate.payload)
    match (← get).recordOf m with
    | some existing => return existing
    | none => throw (.installRace (← lift (describe m)))

end Install

open World in
def install (intrude : MethodAddress → Act σ RuntimeError Unit) (i : Interceptor) (m : MethodAddress)
    (payload : Option Ref) : Act σ InstallError Nat := do
  match (← get).recordOf m with
  | some existing => return existing
  | none =>
    let candidate ← Install.check m payload
    let captured ← Install.capture intrude i candidate
    Install.patch i captured

structure Transaction where
  interceptor : Interceptor
  installed : List MethodAddress
  deriving DecidableEq

namespace Transaction

def begin (i : Interceptor) : Transaction := ⟨i, []⟩

def note (t : Transaction) (m : MethodAddress) : Transaction :=
  if t.installed.contains m then t else { t with installed := t.installed ++ [m] }

def install (intrude : MethodAddress → Act σ RuntimeError Unit) (t : Transaction) (m : MethodAddress)
    (payload : Option Ref) : Machine σ (Except InstallError Nat × Transaction) := do
  match ← (Detour.install intrude t.interceptor m payload).attempt with
  | .ok id => return (.ok id, t.note m)
  | .error e => return (.error e, t)

def installNamed (intrude : MethodAddress → Act σ RuntimeError Unit) (t : Transaction) (c : ClassId)
    (name signature : String) (payload : Option Ref) :
    Machine σ (Except InstallError Nat × Transaction) := do
  let w ← get
  match w.vm.resolve c name signature with
  | some index => t.install intrude (.live index) payload
  | none => return (.error (.unresolvable (w.vm.classes.name c) name signature), t)

def commit (t : Transaction) : Nat := t.installed.length

end Transaction
end Detour
