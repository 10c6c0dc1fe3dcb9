import Detour.Proofs.FailedInstalls
import Detour.Proofs.Hook.Balanced
import Detour.Proofs.Transparency

/-! Whose the live handles are. Whatever is asked of the interception layer, and however it ends, the local
handles afterwards are those before; and the global handles that are not user code's own are those of the
records, one record for each hooked method. -/
namespace Detour

open World

variable {σ α : Type} {mine : σ → Handle → Prop} {w x : World σ}

/-! ## Installs -/

theorem World.withDescriptorRecorded (w : World σ) (m : MethodAddress) (d : Descriptor) :
    (w.withDescriptor m d).recorded = w.recorded := by
  cases m with
  | live index => rfl
  | copy id =>
    simp only [recorded, withDescriptor, List.flatMap]
    congr 1
    refine List.ext_getElem? fun j => ?_
    simp only [List.getElem?_map, List.getElem?_modify]
    cases w.records[j]? with
    | none => rfl
    | some r => split <;> rfl

namespace Install

variable {intrude : MethodAddress → Act σ RuntimeError Unit} {i : Interceptor} {held : Keys}

theorem releasePayloadTrades (payload : Option Handle) :
    Trades mine (globals payload.toList) (releasePayload payload : Machine σ Unit) fun _ => [] :=
  Trades.releaseAll payload.toList .globalHandle

theorem eligibleKeeps (m : MethodAddress) :
    Keeps mine held (eligible m : Act σ InstallError (ClassId × Shorty)).run := by
  refine (descriptorKeeps m).lifted fun d => ?_
  dsimp only
  split
  next => exact (describeKeeps m).lifted fun _ => .throws _ rfl
  next =>
    split
    next => exact (methodKeeps m).lifted fun _ => .throws _ rfl
    next => exact (Trades.actOfExcept d.shorty).act (fun _ => .done rfl) fun _ => rfl

theorem pinPayloadTrades (payload : Option Ref) :
    Trades mine [] (payload.mapM fun p => createGlobal (some p) : Machine σ (Option Handle)) fun pinned =>
      globals pinned.toList := by
  cases payload with
  | none => exact .done rfl
  | some r => exact fun others w ledger => Step.endsMap.mpr (Trades.createGlobal (some r) others w ledger)

theorem checkTrades (m : MethodAddress) (payload : Option Ref) :
    Trades mine [] (check m payload : Act σ InstallError Candidate).run
      (whichever (fun k => globals k.payload.toList) []) := by
  refine (eligibleKeeps m).act (fun (c, shorty) => ?_) fun _ => rfl
  refine (pinPayloadTrades payload).lifted fun pinned => ?_
  refine Trades.got fun w => ?_
  refine (descriptorKeeps m).lifted fun d => ?_
  dsimp only
  split
  next =>
    refine Trades.lifted (c := (initClass c).attempt) (initClassKeeps c) fun outcome => ?_
    cases outcome with
    | ok => exact .done rfl
    | error e => exact (releasePayloadTrades pinned).lifted fun _ => .throws _ rfl
  next => exact .done rfl

theorem reflectKeeps (balanced : ∀ m, Keeps mine [] (intrude m).run) (m : MethodAddress) :
    Keeps mine held (reflect intrude m).run := by
  refine (serveKeeps .reflect).act (fun _ => ?_) fun _ => rfl
  exact (balanced m).idle.act (fun _ => Trades.lift (allocateKeeps _)) fun _ => rfl

theorem captureTrades (balanced : ∀ m, Keeps mine [] (intrude m).run) (k : Candidate) :
    Trades mine (globals k.payload.toList) (capture intrude i k).run
      (whichever (fun c => globals (c.reflected :: c.candidate.payload.toList)) []) := by
  refine (descriptorKeeps k.method).lifted fun d => ?_
  have copied : Keeps mine (globals k.payload.toList)
      (Step.ofExcept (Snapshot.capture i.layout i.settings.snapshotSlack d) : Machine σ _) :=
    Trades.ofExcept fun f failed => by
      rcases Nat.lt_or_ge (i.layout.copySize.toNat + i.settings.snapshotSlack.toNat) UInt64.size with fits | overflows
      · rw [Snapshot.captureFits fits] at failed
        cases failed
      · rw [Snapshot.captureOverflows overflows] at failed
        cases failed
        trivial
  refine copied.lifted fun snapshot => ?_
  cases snapshot with
  | error e => exact (releasePayloadTrades k.payload).lifted fun _ => .throws _ rfl
  | ok snapshot =>
    refine Trades.lifted (c := (reflect intrude k.method).attempt) (reflectKeeps balanced k.method) fun outcome => ?_
    cases outcome with
    | error e => exact (releasePayloadTrades k.payload).lifted fun _ => .throws _ rfl
    | ok r => exact ((Trades.createGlobal (some r)).frame _).lifted fun h => .done rfl

theorem publishTrades (m : MethodAddress) (d : Descriptor) (r : InstalledHook) :
    Trades mine (globals r.handles) (modify fun w => (w.withDescriptor m d).publish r : Machine σ PUnit)
      fun _ => [] := by
  intro others w ledger
  refine Step.endsModify.mpr (ledger.publish ?_ ?_ ?_)
  · cases m <;> rfl
  · cases m <;> rfl
  · rw [← withDescriptorRecorded w m d]
    simp [recorded, publish]

theorem patchTrades (c : Captured) :
    Trades mine (globals (c.reflected :: c.candidate.payload.toList)) (patch i c : Act σ InstallError Nat).run
      fun _ => [] := by
  refine (descriptorKeeps _).lifted fun d => ?_
  refine Trades.got fun w => ?_
  dsimp only
  split
  next patched _ => exact fun others w ledger => publishTrades _ patched (c.record i d) others w ledger
  next =>
    refine ((Trades.releaseHandle c.reflected .globalHandle).frame _).lifted fun _ => ?_
    refine (releasePayloadTrades c.candidate.payload).lifted fun _ => ?_
    refine Trades.got fun w => ?_
    split
    next => exact .done rfl
    next => exact (describeKeeps _).lifted fun _ => .throws _ rfl

def Publishes (intrude : MethodAddress → Act σ RuntimeError Unit) (m : MethodAddress) (payload : Option Ref)
    (w x : World σ) : Prop :=
  ∃ before, (before = w.records ∨
      ∃ y q z, y.records = w.records ∧ (intrude m).run y = .ok (q, z) ∧ before = z.records) ∧
    (x.records = before ∨
      ∃ r, r.method = m ∧ r.payload.isSome = payload.isSome ∧ x.records = before ++ [r])

theorem patchPublishes {index : Nat} {payload : Option Ref} {c : Captured}
    (method : c.candidate.method = .live index) (given : c.candidate.payload.isSome = payload.isSome) :
    Action.Ends (fun _ => True) (patch i c) w fun _ x =>
      x.records = w.records ∨
        ∃ r, r.method = .live index ∧ r.payload.isSome = payload.isSome ∧ x.records = w.records ++ [r] := by
  refine (patchEnds method).weaken fun r x outcome => ?_
  rcases outcome with ⟨d, patched, _, _, rfl⟩ | ⟨served, _⟩
  · exact Or.inr ⟨c.record i d, method, given, rfl⟩
  · exact Or.inl served.records

end Install

theorem Pinned.given {payload : Option Ref} {pinned : Option Handle} (pins : Pinned w payload pinned x) :
    pinned.isSome = payload.isSome := by
  cases payload <;> cases pinned <;> first | rfl | exact pins.elim

section Installs

variable {intrude : MethodAddress → Act σ RuntimeError Unit}

theorem installKeeps (balanced : ∀ m, Keeps mine [] (intrude m).run) (i : Interceptor) (m : MethodAddress)
    (payload : Option Ref) : Keeps mine [] (install intrude i m payload).run := by
  refine Trades.got fun w => ?_
  split
  next => exact .done rfl
  next =>
    refine (Install.checkTrades m payload).thenAct (fun k => ?_) fun _ => rfl
    exact (Install.captureTrades balanced k).thenAct Install.patchTrades fun _ => rfl

theorem installPublishes (intrude : MethodAddress → Act σ RuntimeError Unit) (i : Interceptor) (index : Nat)
    (payload : Option Ref) (orderly : w.vm.handles.Orderly) :
    Action.Ends (fun _ => True) (install intrude i (.live index) payload) w fun _ x =>
      Install.Publishes intrude (.live index) payload w x := by
  unfold install
  refine Action.endsGetBind.mpr ?_
  split
  next => exact ⟨_, .inl rfl, .inl rfl⟩
  next =>
    have checks := (Install.checkHolds (.live index) payload orderly).both (Install.checkEnds (.live index) payload w)
    refine Action.endsBind.mpr (Step.Ends.weaken checks fun r x ⟨⟨ok, _⟩, tidy, known⟩ => ⟨fun k is => ?_, ?_⟩)
    swap
    · exact fun e wrong => ⟨_, .inl rfl, .inl tidy.records⟩
    obtain ⟨method, holds⟩ := ok k is
    obtain ⟨d, checked⟩ := known k is
    refine Action.endsBind.mpr ((Install.captureHolds i holds orderly).weaken
      fun r v ⟨ok, failed⟩ => ⟨fun c is => ?_, ?_⟩)
    swap
    · intro e wrong
      rcases (failed e wrong).1 with leaves | ⟨own, y, q, z, before, ran, leaves⟩
      · exact ⟨_, .inl rfl, .inl leaves.served.records⟩
      · exact ⟨_, .inr ⟨y, q, z, before.leaves.served.records, method ▸ ran, rfl⟩, .inl leaves.served.records⟩
    obtain ⟨rfl, y, q, z, before, ran, after⟩ := ok c is
    refine (Install.patchPublishes method checked.pinned.given).weaken fun _ u published => ?_
    exact ⟨_, .inr ⟨y, q, z, before.leaves.served.records, method ▸ ran, after.leaves.served.records⟩, published⟩

end Installs

/-! ## Runs -/

inductive Accounted (mine : σ → Handle → Prop) (s : World σ) : World σ → Prop
  | start : Accounted mine s s
  | between {w v n} (before : Accounted mine s w) (leads : Leads (.free σ) n w v)
    (answers : ∀ hs, Ledger mine (locals hs) w → ∃ gs, Ledger mine (locals gs) v) : Accounted mine s v
  | installs {w v t intrude index payload r handler settings} (before : Accounted mine s w)
    (made : Interceptor.create w.vm.layout handler settings = .ok t.interceptor)
    (lawful : Install.Lawful (.free σ) intrude) (balanced : ∀ m, Keeps mine [] (intrude m).run)
    (run : Transaction.install intrude t (.live index) payload w = .ok (r, v)) : Accounted mine s v
  | installsNamed {w v t intrude c name signature payload r handler settings} (before : Accounted mine s w)
    (made : Interceptor.create w.vm.layout handler settings = .ok t.interceptor)
    (lawful : Install.Lawful (.free σ) intrude) (balanced : ∀ m, Keeps mine [] (intrude m).run)
    (run : Transaction.installNamed intrude t c name signature payload w = .ok (r, v)) : Accounted mine s v
  | calls {w v g depth m receiver args r} (before : Accounted mine s w) (lawful : g.Lawful (.free σ))
    (balanced : g.Balanced mine) (run : (call g depth m receiver args).run w = .ok (r, v)) : Accounted mine s v
  | callsUnhooked {w v g depth m receiver args r} (before : Accounted mine s w) (lawful : g.Lawful (.free σ))
    (balanced : g.Balanced mine) (run : (callUnhooked (call g depth) m receiver args).run w = .ok (r, v)) :
    Accounted mine s v
  | callsInherited {w v g depth m receiver args r} (before : Accounted mine s w) (lawful : g.Lawful (.free σ))
    (balanced : g.Balanced mine) (run : (callInherited (call g depth) m receiver args).run w = .ok (r, v)) :
    Accounted mine s v

theorem Transaction.installKeeps {intrude : MethodAddress → Act σ RuntimeError Unit}
    (balanced : ∀ m, Keeps mine [] (intrude m).run) (t : Transaction) (m : MethodAddress) (payload : Option Ref) :
    Keeps mine [] (t.install intrude m payload) := by
  refine Trades.bind (Detour.installKeeps balanced t.interceptor m payload) fun outcome => ?_
  cases outcome <;> exact .done rfl

theorem Transaction.installNamedKeeps {intrude : MethodAddress → Act σ RuntimeError Unit}
    (balanced : ∀ m, Keeps mine [] (intrude m).run) (t : Transaction) (c : ClassId) (name signature : String)
    (payload : Option Ref) : Keeps mine [] (t.installNamed intrude c name signature payload) := by
  refine getKeeps.bind fun w => ?_
  split
  next => exact Transaction.installKeeps balanced t _ payload
  next => exact .done rfl

theorem Trades.kept {c : Machine σ α} {hs : List Handle} (keeps : Keeps mine [] c)
    (ledger : Ledger mine (locals hs) w) :
    Step.Ends Fault.Sober c w fun _ x => Ledger mine (locals hs) x :=
  keeps (locals hs) w ledger

namespace Accounted

variable {s : World σ}

theorem reachable (accounted : Accounted mine s w) : Reachable (.free σ) s w := by
  induction accounted with
  | start => exact .start
  | between _ leads _ ih => exact .between ih leads
  | installs _ made lawful _ run ih => exact .installs ih made lawful run
  | installsNamed _ made lawful _ run ih => exact .installsNamed ih made lawful run
  | calls _ lawful _ run ih => exact .calls ih lawful run
  | callsUnhooked _ lawful _ run ih => exact .callsUnhooked ih lawful run
  | callsInherited _ lawful _ run ih => exact .callsInherited ih lawful run

theorem ledger (accounted : Accounted mine s w) (start : Ledger mine [] s) :
    ∃ hs, Ledger mine (locals hs) w := by
  induction accounted with
  | start => exact ⟨[], start⟩
  | between _ _ answers ih =>
    obtain ⟨hs, ledger⟩ := ih
    exact answers hs ledger
  | installs _ _ _ balanced run ih =>
    obtain ⟨hs, ledger⟩ := ih
    exact ⟨hs, (Trades.kept (Transaction.installKeeps balanced _ _ _) ledger).result run⟩
  | installsNamed _ _ _ balanced run ih =>
    obtain ⟨hs, ledger⟩ := ih
    exact ⟨hs, (Trades.kept (Transaction.installNamedKeeps balanced _ _ _ _ _) ledger).result run⟩
  | calls _ _ guest run ih =>
    obtain ⟨hs, ledger⟩ := ih
    exact ⟨hs, ((callKeeps guest _ _ _ _).kept ledger).result run⟩
  | callsUnhooked _ _ guest run ih =>
    obtain ⟨hs, ledger⟩ := ih
    exact ⟨hs, ((callUnhookedKeeps (callKeeps guest _) _ _ _).kept ledger).result run⟩
  | callsInherited _ _ guest run ih =>
    obtain ⟨hs, ledger⟩ := ih
    exact ⟨hs, ((callInheritedKeeps (callKeeps guest _) _ _ _).kept ledger).result run⟩

end Accounted

/-- The live global handles, apart from user code's own: one or two for each record, and a record for each
hooked method. -/
structure Accounts (mine : σ → Handle → Prop) (w : World σ) : Prop where
  live : (w.vm.handles.ofKind .globalHandle).Nodup
  globals : ∃ theirs, (∀ h ∈ theirs, mine w.user h) ∧
    (w.vm.handles.ofKind .globalHandle).Perm (w.recorded ++ theirs)
  ours : ∀ h ∈ w.recorded, ¬ mine w.user h
  hooked : ∀ index, w.isHooked (.live index) = true ↔ ∃ r ∈ w.records, r.method = .live index
  single : ∀ (id id' : Nat) (r r' : InstalledHook), w.records[id]? = some r → w.records[id']? = some r' →
    r.method = r'.method → id = id'

theorem Ledger.accounted {hs : List Handle} (ledger : Ledger mine (locals hs) w) (sound : Sound w) :
    Accounts mine w where
  live := by
    rw [HandleTable.ofKindKeys]
    exact ledger.once.sublist (List.filter_sublist.map _)
  globals := ledger.ofGlobals
  ours h mem := ledger.ours (h, .globalHandle) (List.mem_append_right _ (List.mem_map_of_mem mem)) rfl
  hooked index := by
    constructor
    · intro hooked
      obtain ⟨d, there, is⟩ : ∃ d, w.descriptor? (.live index) = some d ∧ d.isHooked = true := by
        simpa [isHooked, Option.any_eq_true] using hooked
      rcases sound.states index d there with unhooked | ⟨id, r, claimed⟩
      · simp [unhooked.notHooked] at is
      · exact ⟨r, List.mem_of_getElem? claimed.found, claimed.method⟩
    · rintro ⟨r, mem, method⟩
      obtain ⟨id, found⟩ := List.mem_iff_getElem?.mp mem
      obtain ⟨d, there, hooked⟩ := sound.hookedBy found method
      simp [isHooked, there, hooked.isHooked]
  single id id' r r' found found' same := by
    obtain ⟨index, _, method, _⟩ := sound.records r (List.mem_of_getElem? found)
    obtain ⟨_, _, hooked⟩ := sound.hookedBy found method
    exact (hooked.only id' r' found' (same.symm.trans method)).symm

def Accountable (c : Machine σ α) (w : World σ) : Prop :=
  Step.Ends Fault.Sober c w fun _ x =>
    (x.vm.handles.ofKind .localHandle).Perm (w.vm.handles.ofKind .localHandle)

theorem Trades.accountable {c : Machine σ α} {hs : List Handle} (keeps : Keeps mine [] c)
    (ledger : Ledger mine (locals hs) w) : Accountable c w :=
  (keeps.kept ledger).weaken fun _ _ after => after.ofLocals.trans ledger.ofLocals.symm

structure InstallsEvenly (intrude : MethodAddress → Act σ RuntimeError Unit) (w : World σ) : Prop where
  direct : ∀ t index payload, Accountable (Transaction.install intrude t (.live index) payload) w
  named : ∀ t c name signature payload, Accountable (Transaction.installNamed intrude t c name signature payload) w
  published : ∀ t index payload r x, Transaction.install intrude t (.live index) payload w = .ok (r, x) →
    Install.Publishes intrude (.live index) payload w x

structure CallsEvenly (g : Guest σ) (depth : Nat) (w : World σ) : Prop where
  calls : ∀ m receiver args, Accountable (call g depth m receiver args).run w
  trampolines : ∀ m bytes, Accountable (trampoline g (call g depth) m bytes) w
  unhooked : ∀ m receiver args, Accountable (callUnhooked (call g depth) m receiver args).run w
  inherited : ∀ m receiver args, Accountable (callInherited (call g depth) m receiver args).run w

namespace Ledger

variable {hs : List Handle}

theorem installs {intrude : MethodAddress → Act σ RuntimeError Unit} (ledger : Ledger mine (locals hs) w)
    (balanced : ∀ m, Keeps mine [] (intrude m).run) : InstallsEvenly intrude w where
  direct t index payload := Trades.accountable (Transaction.installKeeps balanced t _ payload) ledger
  named t c name signature payload :=
    Trades.accountable (Transaction.installNamedKeeps balanced t c name signature payload) ledger
  published t index payload r x run := by
    have ends : Step.Ends (fun _ => True) (Transaction.install intrude t (.live index) payload) w fun _ x =>
        Install.Publishes intrude (.live index) payload w x := by
      refine Step.endsBind.mpr ((installPublishes intrude t.interceptor index payload ledger.orderly).weaken
        fun outcome x published => ?_)
      cases outcome <;> exact published
    exact ends.result run

theorem calls {g : Guest σ} (ledger : Ledger mine (locals hs) w) (guest : g.Balanced mine) (depth : Nat) :
    CallsEvenly g depth w where
  calls m receiver args := (callKeeps guest depth m receiver args).accountable ledger
  trampolines m bytes := (trampolineKeeps guest (callKeeps guest depth) m bytes).accountable ledger
  unhooked m receiver args := (callUnhookedKeeps (callKeeps guest depth) m receiver args).accountable ledger
  inherited m receiver args := (callInheritedKeeps (callKeeps guest depth) m receiver args).accountable ledger

end Ledger

theorem handlesAccounted (mine : σ → Handle → Prop) (arch : Architecture) (layout : Layout) (user : σ)
    (nothing : ∀ h, ¬ mine user h) (w : World σ)
    (run : Accounted mine (World.start (Vm.start arch layout) user) w) :
    Accounts mine w ∧
      (∀ intrude : MethodAddress → Act σ RuntimeError Unit, (∀ m, Keeps mine [] (intrude m).run) →
        InstallsEvenly intrude w) ∧
      ∀ g : Guest σ, g.Balanced mine → ∀ depth, CallsEvenly g depth w := by
  have ready : Ready (Rights.free σ) (World.start (Vm.start arch layout) user) :=
    ⟨rfl, fun _ still => still.elim, fun _ ⟨_, none_, _⟩ => nomatch none_⟩
  obtain ⟨sound, _, _⟩ := (run.reachable.leads ready).straight (soundStart arch layout user)
  have start : Ledger mine [] (World.start (Vm.start arch layout) user) := {
    orderly := fun _ mem => nomatch mem
    owned := fun h own => (nothing h own).elim
    once := List.nodup_nil
    ours := fun _ mem => nomatch mem
    accounts := ⟨[], by simp, .refl _⟩ }
  obtain ⟨hs, ledger⟩ := run.ledger start
  exact ⟨ledger.accounted sound, fun _ => ledger.installs, fun _ => ledger.calls⟩

namespace Sample

def borrowing : Guest Unit where
  body _ _ receiver _ := pure (.reference receiver)
  handler _ invoke i := do
    let mirror ← lift i.reflected
    withLocals [mirror] fun _ => i.forward invoke
  before _ _ s := do
    let s ← s.replaceReceiver none
    let s ← s.answerWith none
    return (.ok (), s)
  after _ _ s := pure (.ok (), s)

theorem borrowingBalanced (mine : Unit → Handle → Prop) : borrowing.Balanced mine where
  body _ _ _ _ _ := .done rfl
  handler invoke balanced _ i := by
    refine HookedCall.reflectedKeeps.lifted fun mirror => withLocalsKeeps fun hs => ?_
    have beside {α : Type} {c : Machine Unit α} (keeps : Keeps mine (locals i.boxed.handles) c) :
        Keeps mine (locals hs ++ locals i.boxed.handles) c :=
      (keeps.frame (locals hs)).perm List.perm_append_comm fun _ => List.perm_append_comm
    refine (beside BoxedFrame.receiverKeeps).lifted fun receiver => ?_
    exact (beside BoxedFrame.argumentsKeeps).lifted fun args => i.proceedKeeps balanced receiver args
  before _ _ _ := .receives none (.answers none (.ends _))
  after _ _ _ := .ends _

theorem movingAccounted : Accounted nobody fresh moving := by
  have run : (Transaction.begin host).install (fun _ => pure ()) (.live 0) (some first) ready =
      .ok ((.ok 0, (Transaction.begin host).note (.live 0)), taken) := Step.bindRun won.run
  have ready : Accounted nobody fresh ready :=
    .between .start (readyLeads _) fun hs ledger => ⟨hs, ledger.same rfl rfl rfl rfl⟩
  have lawful : Install.Lawful (Rights.free Unit) fun _ => pure () := fun _ w _ => Leads.refl w
  have taken : Accounted nobody fresh taken :=
    .installs (t := .begin host) ready hostMade lawful (fun _ => .done rfl) run
  exact .between (n := 0) taken (.moves (.refl _) (.runs (.switched true))) fun hs ledger =>
    ⟨hs, ledger.same rfl rfl rfl rfl⟩

end Sample

theorem sampleAccounted :
    Accounts Sample.nobody Sample.moving ∧ Sample.moving.recorded = [⟨2⟩, ⟨1⟩] ∧
      CallsEvenly Sample.borrowing 3 Sample.moving := by
  obtain ⟨accounts, _, calls⟩ := handlesAccounted Sample.nobody .arm Layout.compiled () (fun _ own => own)
    Sample.moving Sample.movingAccounted
  exact ⟨accounts, rfl, calls Sample.borrowing (Sample.borrowingBalanced _) 3⟩

end Detour
