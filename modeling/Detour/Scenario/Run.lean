import Detour.Scenario.Command
import Detour.Scenario.Guest

/-! Running a scenario: each command changes the world and has an answer. A command that ends in a fault
changes nothing. -/
namespace Detour.Scenario

open World Script

variable {α : Type}

abbrev Effect (α : Type) := Act Stage Failure α

namespace Effect

def refuse (what : String) : Effect α := throw (.refused what)

def ofCall (a : Act Stage CallError α) : Effect α := Action.mapError .call a

def script (s : Script α) : Act Stage CallError α := do
  let (outcome, _) ← lift (runScript .step s pure)
  Action.ofExcept outcome

def eval (s : Script α) : Effect α := ofCall (script s)

def classNamed (name : String) : Effect ClassId := ofCall (Lookup.classId name)

def methodNamed (name : String) : Effect MethodAddress := ofCall (Lookup.method name)

def interceptorNamed (name : String) : Effect Interceptor := ofCall (Lookup.interceptor name)

def chainNamed (name : String) : Effect Nat := ofCall (Lookup.chain name)

def declaredTag (t : Option Tag) : Effect Tag := ofCall (Lookup.require .badTag t)

end Effect

open Effect

/-! ## Arguments of the scenario's own calls -/

def evalCall (invoke : Invoker Stage) (c : CallTerms ValueTerm) :
    Script (Option Ref × List Value) := do
  let h ← pin (← c.receiver.evalLive invoke)
  let held ← guarding h (ValueTerm.holdAll invoke c.args)
  let r ← current h
  unpin h
  return (r, ← Held.collect held)

def evalReflective (invoke : Invoker Stage) (c : CallTerms ObjectTerm) :
    Script (Option Ref × List (Option Ref)) := do
  let h ← pin (← c.receiver.evalLive invoke)
  let pinned ← guarding h (ObjectTerm.pinAll invoke c.args)
  let r ← current h
  unpin h
  return (r, ← collectPinned pinned)

/-! ## Commands, by what they are about -/

namespace Classes

def define (name : String) (superclass : Superclass) (isInterface : Bool) : Effect Answer := do
  let named ← match superclass with
    | .nothing => pure none
    | .root => pure (some .object)
    | .named s => some <$> classNamed s
  let superclass := if isInterface then none else named
  let w ← get
  let c ← lift (Step.require .unknownClass w.vm.classes.next?)
  set { w with vm.classes := w.vm.classes.define name superclass isInterface }
  return .classId c

def change (c : ClassId) (f : Class → Class) : Effect Answer := do
  modify fun w => { w with vm.classes := w.vm.classes.modify c f }
  return .nothing

def info (c : ClassId) : Effect Answer := do
  let info ← lift (vmStep (Vm.classInfo c))
  return .classInfo info (← lift (info.superclass.mapM className))

end Classes

namespace Methods

def define (id className name signature : String) (flags : UInt32) (script : BodyScript) :
    Effect Answer := do
  let owner ← classNamed className
  let w ← get
  let number := w.vm.methods.length + 1
  let m ← lift <| Step.ofExcept <|
    Method.define w.vm.classes w.vm.layout number owner name signature flags
  set { w with
    vm.methods := w.vm.methods ++ [m]
    user.methodNames := w.user.methodNames ++ [id]
    user.bodies := w.user.bodies ++ [script] }
  return .descriptor (← lift (viewDescriptor (.live (number - 1))))

def poked? (d : Descriptor) (field : String) (w : UInt64) : Option Descriptor :=
  match field with
  | "native_data" => if d.isHooked ∧ w ≠ 0 then none else some { d with nativeData := .word w }
  | "entry_point" => some { d with entryPoint := .code w }
  | "registers_size" => some { d with registersSize := w.toUInt16 }
  | "outs_size" => some { d with outsSize := w.toUInt16 }
  | "access_flags" =>
    let after : Descriptor := { d with accessFlags := w.toUInt32 }
    if d.isHooked ∧ after.isStatic ≠ d.isStatic then none else some after
  | _ => none

def poke (m : MethodAddress) (field : String) (w : UInt64) : Effect Answer := do
  match poked? (← lift (descriptor m)) field w with
  | none => refuse "poke"
  | some d =>
    lift (setDescriptor m d)
    return .nothing

def detach (m : MethodAddress) : Effect Answer := do
  let d ← lift (descriptor m)
  lift (setDescriptor m { d with declaringClass := none })
  return .nothing

def resolve (className name signature : String) : Effect Answer := do
  let c ← classNamed className
  match (← get).vm.resolve c name signature with
  | none => return .method none
  | some index => return .method (some (← lift (Stage.methodName (.live index))))

end Methods

namespace Chains

def reregister (chain method hook : String) (f : Chain → MethodAddress → Callback → Bool × Chain) :
    Effect Answer := do
  match Statements.registration? (← get) chain method hook with
  | none => refuse Statements.registrationNames
  | some r => return .flag (← lift (Statements.change r f))

def callbacks (chain method : String) : Effect Answer := do
  let id ← chainNamed chain
  let m ← methodNamed method
  let w ← get
  let c ← lift (Step.require .unknownMethod w.chains[id]?)
  return .callbacks <| (c.callbacks m).filterMap fun h =>
    w.user.hooks[h.id]?.map fun script => (script.name, h.priority)

end Chains

namespace Interceptors

def handlerOf : HandlerSource → Effect Handler
  | .chain name => do
    match (← get).user.chainNamed? name with
    | some chain => return .chain chain
    | none => refuse "chain"
  | .script s => do
    let w ← get
    set { w with user.handlers := w.user.handlers ++ [s] }
    return .plain w.user.handlers.length

def define (id : String) (source : HandlerSource) (onHost : Bool) (settings : Settings.Overrides) :
    Effect Answer := do
  let arch := (← get).vm.arch
  let base : Settings := { Settings.standard with architecture := if onHost then none else some arch }
  let handler ← handlerOf source
  let settings ← Action.mapError .install (Action.ofExcept (base.override settings))
  let i ← Action.mapError .install <| Action.ofExcept <|
    Interceptor.create (← get).vm.layout handler settings
  if i.arch = arch then
    modify fun w => { w with user.interceptors := (id, i) :: w.user.interceptors }
  return .interceptor i

def drop (id : String) : Effect Answer := do
  let w ← get
  set { w with user.interceptors := w.user.interceptors.filter (·.1 ≠ id) }
  return .flag (w.user.interceptors.lookup id).isSome

def installOne (t : Transaction) (op : Installation) :
    Act Stage CallError (Except InstallError Nat × Transaction) := do
  let payload ← script (op.payload.evalLive (invoker (← get)))
  match op.target with
  | .method name =>
    let m ← Lookup.method name
    lift (t.install Scenario.intrude m payload)
  | .lookup className name signature =>
    let c ← Lookup.classId className
    lift (t.installNamed Scenario.intrude c name signature payload)

def installAll : Transaction → List Installation → Machine Stage (List InstallView × Transaction)
  | t, [] => return ([], t)
  | t, op :: ops => do
    let (result, t) ← match ← (installOne t op).attempt with
      | .error e => pure (.error (← viewError e), t)
      | .ok (.error e, t) => pure (.error (.install e), t)
      | .ok (.ok id, t) => do
        let number ← numberOf id
        let r ← World.record id
        pure (.ok (number, ← Stage.methodName r.method), t)
    let installed ← t.installed.mapM Stage.methodName
    let (views, t) ← installAll t ops
    return (⟨result, installed⟩ :: views, t)

def transaction (name : String) (ops : List Installation) (commit : Bool) : Effect Answer := do
  let (views, t) ← ofCall <| transacting name fun i => installAll (Transaction.begin i) ops
  return .transaction views (if commit then some t.commit else none)

def showRecord (name method : String) : Effect Answer := do
  let _ ← interceptorNamed name
  let m ← methodNamed method
  let w ← get
  match w.recordOf m with
  | none => return .record (w.isHooked m) none
  | some id => return .record (w.isHooked m) (some (← lift (viewRecord id)))

end Interceptors

namespace Calls

def call (c : CallTerms ValueTerm) : Effect Answer := do
  let invoke := invoker (← get)
  let (receiver, args) ← eval (evalCall invoke c)
  let m ← methodNamed c.method
  let v ← ofCall (enter invoke m receiver args)
  return .value (← lift (viewValue v))

def dispatch (c : CallTerms ValueTerm) (fill : UInt8) : Effect Answer := do
  let m ← methodNamed c.method
  let invoke := invoker (← get)
  let (receiver, args) ← eval (evalCall invoke c)
  ofCall (checkCall m receiver args)
  let d ← lift (descriptor m)
  let shorty ← Action.mapError (fun e => .call (.hook e)) (Action.ofExcept d.shorty)
  let abi := (← get).vm.arch.abi
  let slots := slots abi shorty d.isStatic
  let values := if d.isStatic then args else .reference receiver :: args
  let blank := Frame.filled abi (Frame.sizeFor abi slots + 8) fill
  let frame ← lift (Step.ofExcept (blank.storeValues slots values))
  let (outcome, bytes) ← lift (enterHook guest invoke (some m) frame.bytes)
  let raws ← lift (Step.ofExcept (Frame.loadSlots ⟨abi, bytes⟩ slots))
  match outcome with
  | none => return .dispatched 0 none raws
  | some (.ok v) => return .dispatched v.toRaw none raws
  | some (.error e) => return .dispatched 0 (some (← lift (viewError e))) raws

def reflective (interceptor : String) (c : CallTerms ObjectTerm)
    (invocation : Invoker Stage → MethodAddress → Option Ref → List (Option Ref) →
      Act Stage CallError (Option Ref)) : Effect Answer := do
  let _ ← interceptorNamed interceptor
  let invoke := invoker (← get)
  let (receiver, args) ← eval (evalReflective invoke c)
  let m ← methodNamed c.method
  let r ← ofCall (invocation invoke m receiver args)
  return .result (← lift (viewObject r))

end Calls

namespace Conversion

def convertArgument (method : String) (index : Nat) (declared : Option Tag) (object : ObjectTerm) :
    Effect Answer := do
  let r ← eval (object.evalLive (invoker (← get)))
  let t ← declaredTag declared
  let m ← methodNamed method
  let v ← ofCall (Boxing.convertArgument m index t r)
  return .value (← lift (viewValue v))

def parseShorty (text : String) : Effect Shorty := do
  match Shorty.parse? text with
  | some s => return s
  | none => throw (.call (.hook (.invalidShorty text)))

def convertArguments (method shorty : String) (args : List ObjectTerm) : Effect Answer := do
  let objects ← eval (ObjectTerm.evalAll (invoker (← get)) args)
  let shorty ← parseShorty shorty
  let m ← methodNamed method
  let values ← ofCall (Boxing.convertArguments m shorty objects)
  return .values (← lift (viewValues values))

def convertResult (method : String) (declared : Option Tag) (object : ObjectTerm) : Effect Answer := do
  let r ← eval (object.evalLive (invoker (← get)))
  let t ← declaredTag declared
  let m ← methodNamed method
  let v ← ofCall (Boxing.convertResult m t r)
  return .value (← lift (viewValue v))

def wrapResult (value : ValueTerm) : Effect Answer := do
  let v ← eval (value.eval (invoker (← get)))
  let r ← ofCall (Action.mapError .runtime (Boxing.wrapResult v))
  return .result (← lift (viewObject r))

def boxFrame (shorty : String) (isStatic readStatic emptyArgsArray : Bool) (args : List ValueTerm) :
    Effect Answer := do
  let shorty ← parseShorty shorty
  let values ← eval (ValueTerm.evalAll (invoker (← get)) args)
  let abi := (← get).vm.arch.abi
  let slots := slots abi shorty isStatic
  if !(slots.zip values).all fun (s, v) => s.tag ≠ .reference || v.tag = .reference then
    throw (.call Misuse.argumentKind.error)
  let blank := Frame.filled abi (Frame.sizeFor abi slots + 8) 0
  let frame ← lift (Step.ofExcept (blank.storeValues slots values))
  let before ← lift (Step.ofExcept (frame.loadSlots slots))
  let boxed ← ofCall <| Action.mapError .runtime <|
    Boxing.ofFrame frame slots readStatic emptyArgsArray
  let frame ← lift (Boxing.fixReferences frame slots boxed.references)
  let after ← lift (Step.ofExcept (frame.loadSlots slots))
  let receiver ← lift do viewObject (← boxed.receiver)
  let array ← lift do viewObject (← boxed.arrayRef)
  let elements ← lift do viewObjects (← boxed.arguments)
  let localHandles := ((← get).vm.handles.ofKind .localHandle).length
  lift boxed.release
  return .boxedFrame ⟨receiver, array, elements, before, after, localHandles⟩

end Conversion

def bindVariable (name : String) (object : ObjectTerm) (pin : Option HandleKind) : Effect Answer := do
  let r ← eval (object.evalLive (invoker (← get)))
  let v ← match pin with
    | none => pure (Variable.plain r)
    | some kind => Variable.pinned <$> lift (vmStep (Vm.createHandle kind r))
  modify fun w => { w with user.bindings := (name, v) :: w.user.bindings }
  return .object (← lift (viewObject r))

def setLost (className : Option String) : Effect Answer := do
  let lost ← className.mapM classNamed
  modify fun w => { w with lost }
  return .nothing

def Command.effect : Command → Effect Answer
  | .defineClass name superclass isInterface => Classes.define name superclass isInterface
  | .implement className interfaceName => do
    let c ← classNamed className
    let i ← classNamed interfaceName
    Classes.change c fun info => { info with interfaces := info.interfaces ++ [i] }
  | .setInitFails className on => do
    Classes.change (← classNamed className) fun info => { info with initFails := on }
  | .initClass className => do
    let c ← classNamed className
    ofCall (Action.mapError .runtime (vmAction (Vm.initClass c)))
    return .nothing
  | .classInfo className => do Classes.info (← classNamed className)
  | .defineMethod id className name signature flags script =>
    Methods.define id className name signature flags script
  | .showDescriptor method => do return .descriptor (← lift (viewDescriptor (← methodNamed method)))
  | .resolveMethod className name signature => Methods.resolve className name signature
  | .detach method => do Methods.detach (← methodNamed method)
  | .bodyCalls method => do return .count (← lift (World.method (← methodNamed method))).calls
  | .poke method field value => do Methods.poke (← methodNamed method) field value
  | .bindVariable name object pin => Scenario.bindVariable name object pin
  | .showObject object => do
    let r ← eval (object.eval (invoker (← get)))
    return .object (← lift (viewObject r))
  | .setMoving on => do
    modify fun w => { w with vm.moving := on }
    return .nothing
  | .lose className => setLost className
  | .disturb none _ => return .nothing
  | .disturb (some service) after => do
    modify fun w => { w with disturbed := (service, after) :: w.disturbed.filter (·.1 ≠ service) }
    return .nothing
  | .intrude i => do
    modify fun w => { w with user.intrusion := i }
    return .nothing
  | .raised => do return .raised (← lift ((← get).raised.mapM viewError))
  | .defineChain id => do
    modify fun w =>
      { w with
        chains := w.chains ++ [Chain.empty]
        user.chainNames := (id, w.chains.length) :: w.user.chainNames }
    return .nothing
  | .defineHook script => do
    modify fun w => { w with user.hooks := w.user.hooks ++ [script] }
    return .priority script.priority
  | .register chain method hook => Chains.reregister chain method hook Chain.register
  | .unregister chain method hook => Chains.reregister chain method hook Chain.unregister
  | .callbacks chain method => Chains.callbacks chain method
  | .defineInterceptor id handler onHost settings => Interceptors.define id handler onHost settings
  | .dropInterceptor id => Interceptors.drop id
  | .transaction name installs commit => Interceptors.transaction name installs commit
  | .showRecord name method => Interceptors.showRecord name method
  | .call c => Calls.call c
  | .dispatch none _ => return .noMethod
  | .dispatch (some c) fill => Calls.dispatch c fill
  | .callUnhooked name c => Calls.reflective name c Detour.callUnhooked
  | .callInherited name c => Calls.reflective name c Detour.callInherited
  | .convertArgument method index declared object => Conversion.convertArgument method index declared object
  | .convertArguments method shorty args => Conversion.convertArguments method shorty args
  | .convertResult method declared object => Conversion.convertResult method declared object
  | .wrapResult value => Conversion.wrapResult value
  | .boxFrame shorty isStatic readStatic empties args =>
    Conversion.boxFrame shorty isStatic readStatic empties args
  | .run statements => do
    let invoke := invoker (← get)
    eval (Statement.runAll invoke statements)
    return .nothing
  | .refused what => refuse what

def Command.answer (c : Command) : Machine Stage Answer := do
  match ← c.effect.attempt with
  | .ok a => return a
  | .error (.call e) => return .failed (← viewError e)
  | .error (.install e) => return .failed (.install e)
  | .error (.refused what) => return .refused what

def report (w : Scene) (a : Answer) : Report :=
  ⟨a, w.vm.collections, (w.vm.handles.ofKind .localHandle).length,
    (w.vm.handles.ofKind .globalHandle).length, w.user.notes⟩

def Command.step (c : Command) (w : Scene) : Report × Scene :=
  let w := { w with user.notes := [] }
  match c.answer w with
  | .ok (a, after) => (report after a, after)
  | .error f => (report w (.fault f), w)

def runAll : List Command → Scene → List Report
  | [], _ => []
  | c :: commands, w =>
    let (report, w) := c.step w
    report :: runAll commands w

def run (arch : Architecture) (layout : Layout) (commands : List Command) : List Report :=
  runAll commands (World.start (Vm.start arch layout) Stage.empty)

end Detour.Scenario
