import Detour.Proofs.Hook.Bypass
import Detour.Proofs.Hook.Session
import Detour.Proofs.Hook.Winning

/-! Objects move under a hooked call with every allocation and every class initializer. Wherever the code of a
handler or of a callback has come to, what it is shown are the objects that were passed, supplied or set,
where they are by then. A call that begins with too little room for its arguments may run out of references
before. -/
namespace Detour

open World

variable {σ : Type} {p : Rights σ} {w v x : World σ}

def InstalledHook.arrayAt (r : InstalledHook) (w : World σ) : Option Nat :=
  if r.shorty.params.isEmpty && !r.interceptor.settings.emptyArgsArray then none
  else some w.vm.heap.objects.size

structure HookedCall.Shows (i : HookedCall) (m : MethodAddress) (isStatic : Bool) (receiver : Option Ref)
    (args : List Value) (w : World σ) (payload : Option Ref) (w₀ : World σ) (o : Nat) (v : World σ) :
    Prop where
  receiver : ∃ s, i.receiver v = .ok (s, v) ∧
    if isStatic then s = none else Same w.vm.heap v.vm.heap receiver s
  arguments : ∃ es, i.arguments v = .ok (es, v) ∧ List.Forall₂ (Boxes w.vm.heap v.vm.heap) args es
  payload : ∃ s, i.payload v = .ok (s, v) ∧ Same w₀.vm.heap v.vm.heap payload s
  reflected : ∃ s, i.reflected v = .ok (some s, v) ∧ v.vm.heap.Denotes (some s) (some o) ∧
    v.vm.heap.get? s = some (.reflected m)

theorem Install.Holding.leads {i : Interceptor} {index : Nat} {payload : Option Ref} {w₀ : World σ}
    {id o n : Nat} {r : InstalledHook} (holding : Holding i index payload w₀ id o r w)
    (leads : Leads p n w v) : Holding i index payload w₀ id o r v := by
  have kept {h} (mem : h ∈ r.handles) {k} (held : w.vm.Held h k) : v.vm.Held h k :=
    leads.held (.inl ⟨r, List.mem_of_getElem? holding.found, mem⟩) held
  exact { holding with
    found := leads.published holding.found
    payload := holding.payload.imp fun h mem _ held => kept (List.mem_cons_of_mem _ mem) held
    reflected := kept (List.mem_cons_self ..) holding.reflected
    shows_ := leads.shows trivial holding.shows_ }

section Entry

variable {g : Guest σ} {depth index id o : Nat} {r : InstalledHook} {receiver payload : Option Ref}
  {args : List Value} {all xs : List Passed} {y : Option Nat} {boxed : BoxedFrame} {frame : Frame}
  {i : Interceptor} {u w₀ : World σ}

theorem Entered.steady (entered : Entered g depth index id r receiver args w all boxed frame u)
    (steady : Steady p w) : Steady (p.guarding (r.arrayAt w)) u := by
  have tidy := entered.tidy
  refine ⟨⟨tidy.pending.trans steady.ready.clear, fun k array => ?_, fun h kept => ?_⟩, steady.faithful,
    tidy.lost.trans steady.lost, fun h mine => ?_⟩
  · have array : r.arrayAt w = some k := array
    unfold InstalledHook.arrayAt at array
    split at array
    next => contradiction
    next some_ =>
      cases array
      cases given : boxed.array with
      | none => exact (some_ (entered.array.mp given)).elim
      | some h =>
        obtain ⟨_, e, _, denotes⟩ := (entered.keeps.array h given).held
        cases target : e.target with
        | none => simp [target] at denotes
        | some ref =>
          rw [target] at denotes
          exact denotes.2
  · exact Nat.lt_of_lt_of_le (steady.ready.issued h (tidy.kept.mp kept)) tidy.vm.issued
  · exact Nat.lt_of_lt_of_le (steady.owned h (tidy.user ▸ mine)) tidy.vm.issued

theorem Entered.returned {obj : Option Ref} {d : Descriptor}
    (entered : Entered g depth index id r receiver args w all boxed frame u)
    (active : Active w index d id r) (steady : Steady p w) (sound : Sound w)
    (lawful : g.Lawful (p.guarding (r.arrayAt w))) (reference : r.shorty.result = .reference)
    (run : (r.interceptor.handler.answer g (call g depth) ⟨id, boxed⟩).run u = .ok (.ok obj, x))
    (returns : x.Returns (.live index) obj) :
    ∃ z, (call g (depth + 1) (.live index) receiver args).run w = .ok (.ok (.reference obj), z) ∧
      z.vm.heap = x.vm.heap := by
  have later := entered.steady steady
  have leads := Step.Ends.result
    (handlerRespects lawful (callRespects lawful depth) r.interceptor.handler ⟨id, boxed⟩ u later.ready) run
  obtain ⟨info, known⟩ := entered.known active steady.ready sound leads
  have converts : convertOutcome r (.ok obj) x = .ok (.ok (.reference obj), x) := by
    unfold convertOutcome
    rw [active.hooked.method, reference]
    exact convertReferenceRun known returns
  obtain ⟨z, finished, served, heap⟩ :=
    entered.finished active leads (entered.foreign steady.owned) (later.leads leads).lost run converts
  have clear : z.pending = none := served.pending.trans (later.leads leads).ready.clear
  refine ⟨z, finished.trans ?_, heap⟩
  rw [reference, handOverOk _ _ clear]
  exact congrArg (fun v => Except.ok (Except.ok v, z)) (Value.ofRawToRaw (.reference obj))

end Entry

namespace Sample

def pick : Method where
  declaredIn := .object
  name := "pick"
  signature := "(IL;)L;"
  paramClasses := [none, some .object]
  resultClass := some .object
  descriptor := Method.descriptorOf Layout.compiled 1 .object 0 [76, 73, 76]
  calls := 0

def first : Ref := ⟨0x1000, by decide⟩
def second : Ref := ⟨0x1001, by decide⟩
def third : Ref := ⟨0x1002, by decide⟩

def peopled : World Unit := { fresh with vm.heap := ⟨0x1000, #[.instance .object]⟩ }
def ready : World Unit := { peopled with vm.methods := [pick] }

theorem takesMore {cs : List Char} {term : TypeTerm} {rest : List Char}
    (head : TypeTerm.take? cs = some (term, rest)) : TypeTerm.takeAll cs = term :: TypeTerm.takeAll rest := by
  rw [TypeTerm.takeAll]
  split
  next none_ => exact nomatch none_.symm.trans head
  next is =>
    cases is.symm.trans head
    rfl

theorem pickParsed : Signature.parse "(IL;)L;" = .ok ⟨[.letter 'I', .named ""], .named ""⟩ := by
  have chars : "(IL;)L;".toList = ['(', 'I', 'L', ';', ')', 'L', ';'] := rfl
  have nothing : TypeTerm.takeAll [] = [] := by
    rw [TypeTerm.takeAll]
    rfl
  have small : 'L'.utf8Size = 1 := by decide
  have last : TypeTerm.takeAll ['L', ';'] = [.named ""] := (takesMore rfl).trans (congrArg _ nothing)
  have params : TypeTerm.takeAll ['I', 'L', ';'] = [.letter 'I', .named ""] :=
    (takesMore rfl).trans (congrArg _ last)
  simp [Signature.parse, chars, TypeTerm.take?, TypeTerm.afterName, params, TypeTerm.kindChar, small]

theorem pickDefined :
    Method.define fresh.vm.classes fresh.vm.layout 1 .object "pick" "(IL;)L;" 0 = .ok pick := by
  unfold Method.define
  rw [pickParsed]
  rfl

theorem pickShorty : pick.descriptor.shorty = .ok ⟨.reference, [.int, .reference]⟩ := by
  have decoded : Text.Utf8.decode? [76, 73, 76] = some "LIL" := by
    simp [Text.Utf8.decode?, Text.Utf8.scan, Text.Utf8.step]
  unfold Descriptor.shorty
  rw [show pick.descriptor.shortyContent = [76, 73, 76] from rfl, decoded]
  rfl

def settings : Settings := { Settings.standard with architecture := some .arm }

def host : Interceptor := ⟨.plain 0, settings, .arm, Layout.compiled⟩

theorem hostMade : Interceptor.create Layout.compiled (.plain 0) settings = .ok host := rfl

def chosen : Candidate := ⟨.live 0, ⟨.reference, [.int, .reference]⟩, some ⟨1⟩⟩
def seized : Captured := ⟨chosen, ⟨pick.descriptor, 96⟩, ⟨2⟩⟩
def held : World Unit := ready.pinned .globalHandle (some first)
def mirrored : World Unit :=
  { held with vm.heap := ⟨0x1000, #[.instance .object, .reflected (.live 0)]⟩ }.pinned .globalHandle (some second)
def taken : World Unit :=
  mirrored.claimed (.live 0) (pick.descriptor.patched .compiledEntry 0) (seized.record host pick.descriptor)

theorem pickEligible {w : World Unit} {m : MethodAddress} (found : w.descriptor? m = some pick.descriptor) :
    (Install.eligible m).run w = .ok (.ok (.object, ⟨.reference, [.int, .reference]⟩), w) := by
  unfold Install.eligible
  rw [Action.liftBindRun (descriptorRun found), pickShorty]
  rfl

theorem checks : (Install.check (.live 0) (some first)).run ready = .ok (.ok chosen, held) := by
  unfold Install.check
  rw [Action.bindRun (pickEligible rfl)]
  rfl

theorem captures : (Install.capture (fun _ => pure ()) host chosen).run held = .ok (.ok seized, mirrored) := by
  rfl

theorem patches : (Install.patch host seized).run mirrored = .ok (.ok 0, taken) := by
  rfl

theorem won : Install.Won (fun _ => pure ()) host 0 (some first) ready 0 taken :=
  ⟨rfl, chosen, seized, held, mirrored, checks, captures, patches, rfl⟩

def nobody : Unit → Handle → Prop := fun _ _ => False

theorem readyLeads (p : Rights Unit) : Leads p 0 fresh ready := by
  have peopled : Leads p 0 fresh peopled :=
    .moves (.refl _) (.runs (.allocated (r := first) (o := .instance .object) rfl))
  exact peopled.moves (.defines pickDefined)

theorem readyReached : Reachable (Rights.owning nobody) fresh ready := .between .start (readyLeads _)

def moving : World Unit := { taken with vm.moving := true }

def answering : Guest Unit where
  body := fun _ _ _ _ => pure .void
  handler := fun _ _ i => lift i.payload
  before := fun _ _ s => pure (.ok (), s)
  after := fun _ _ s => pure (.ok (), s)

theorem answeringLawful (p : Rights Unit) : answering.Lawful p where
  body _ _ _ _ _ w _ := Leads.refl w
  handler _ _ _ i w _ := by
    have looks : Step.Looks (i.payload : Machine Unit (Option Ref)) := by
      refine Step.looksBind (looksRecord _) fun r => ?_
      cases r.payload with
      | none => exact Step.looksPure _
      | some h => exact looksResolve h
    refine Action.endsLift.mpr ((looks w).weaken fun _ x same => ?_)
    rw [same]
    exact .refl w
  before _ _ _ s w a _ := ⟨a, .refl⟩
  after _ _ _ s w a _ := ⟨a, .refl⟩

def record : InstalledHook := seized.record host pick.descriptor

theorem movingRoom : moving.vm.heap.Room (record.slots.length + 2) := by decide

end Sample

end Detour
