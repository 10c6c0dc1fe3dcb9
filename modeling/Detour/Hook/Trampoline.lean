import Detour.Hook.Callbacks

/-! A hooked call: the frame's arguments are boxed, the handler answers, the frame's references are brought up
to date, and the answer is converted to the declared return kind. The entry point of a method leads to its
body, or, once hooked, through a frame to the trampoline. A frame is read by the convention of the
interceptor's own architecture. The class of a static method is initialized before its body is entered. Calls
nest up to a given depth; to run out of it is a fault, and no error of the call. -/
namespace Detour

open World

variable {σ : Type}

def Handler.answer (h : Handler) (g : Guest σ) (invoke : Invoker σ) (i : HookedCall) :
    Act σ CallError (Option Ref) :=
  match h with
  | .plain id => g.handler id invoke i
  | .chain id => Chain.answer g invoke id i

def answerFrame (g : Guest σ) (invoke : Invoker σ) (id : Nat) (frame : Frame) :
    Machine σ (Except CallError Value × Frame) := do
  let r ← record id
  let empties := r.interceptor.settings.emptyArgsArray
  match ← (Boxing.ofFrame frame r.slots r.isStatic empties).attempt with
  | .error e => return (.error (.runtime e), frame)
  | .ok boxed =>
    let result ← (r.interceptor.handler.answer g invoke ⟨id, boxed⟩).attempt
    let frame ← Boxing.fixReferences frame r.slots boxed.references
    let converted ← match result with
      | .error e => pure (.error e)
      | .ok obj => (Boxing.convertResult r.method r.shorty.result obj).attempt
    boxed.release
    return (converted, frame)

def enterHook (g : Guest σ) (invoke : Invoker σ) (m : Option MethodAddress) (bytes : Array UInt8) :
    Machine σ (Option (Except CallError Value) × Array UInt8) := do
  match m.bind (← get).recordOf with
  | none => return (none, bytes)
  | some id =>
    let r ← record id
    let (outcome, frame) ← answerFrame g invoke id ⟨r.interceptor.arch.abi, bytes⟩
    return (some outcome, frame.bytes)

def trampoline (g : Guest σ) (invoke : Invoker σ) (m : MethodAddress) (bytes : Array UInt8) :
    Machine σ UInt64 := do
  match (← enterHook g invoke (some m) bytes).1 with
  | none => return 0
  | some (.ok v) => return v.toRaw
  | some (.error e) =>
    raise e
    return 0

/-- The managed exception that an error becomes for the caller: an error that carries an exception object
passes it on, any other becomes a new throwable with its message. -/
def managedException (e : CallError) : Machine σ RuntimeError :=
  match e with
  | .handler r => return .exception r
  | .runtime (.exception r) => return .exception r
  | e => do
    let r ← vmStep (Vm.allocate (.throwable e.message))
    return .exception r

def callTrampoline (g : Guest σ) (invoke : Invoker σ) : Invoker σ := fun m receiver args => do
  let d ← lift (descriptor m)
  match d.shorty with
  | .error e => lift (Step.fault (.badShorty e.message))
  | .ok shorty =>
    if args.length ≠ shorty.params.length then
      lift (Step.fault (.argumentCount shorty.params.length args.length))
    else
      let abi := (← get).vm.arch.abi
      let slots := slots abi shorty d.isStatic
      let values := if d.isStatic then args else .reference receiver :: args
      let blank := Frame.filled abi (Frame.sizeFor abi slots + 8) 0
      let frame ← lift (Step.ofExcept (blank.storeValues slots values))
      let raw ← lift (trampoline g invoke m frame.bytes)
      match ← lift takePending with
      | some e => throw (← lift (managedException e))
      | none => return Value.ofRaw shorty.result raw

def countCall (index : Nat) : Machine σ Unit :=
  modify fun w =>
    { w with vm.methods := w.vm.methods.modify index fun info => { info with calls := info.calls + 1 } }

def callBody (g : Guest σ) (invoke : Invoker σ) : Invoker σ := fun m receiver args => do
  let d ← lift (descriptor m)
  match d.isStatic, d.declaringClass with
  | true, some c => vmAction (Vm.initClass c)
  | _, _ => pure ()
  let _ ← lift (method m)
  let index := d.codeItem.toNat - 1
  lift (countCall index)
  g.body index invoke receiver args

def call (g : Guest σ) : (depth : Nat) → Invoker σ
  | 0 => fun _ _ _ => lift (Step.fault .nestedTooDeep)
  | depth + 1 => fun m receiver args => do
    if (← lift (descriptor m)).isHooked then
      callTrampoline g (call g depth) m receiver args
    else
      callBody g (call g depth) m receiver args

end Detour
