import Detour.Proofs.Declarations
import Detour.Proofs.Hook.Ascending
import Detour.Proofs.MovingObjects

/-! Super chains. Each class of a superclass chain has one method of a declaration, and the handlers of the
lower ones pass calls to the inherited implementation. A call goes up one level at a time, by one entry into
one handler, and what it comes to at the top is handed down through every level as it is. -/
namespace Detour

open World

variable {σ : Type} {p : Rights σ} {w x y z : World σ} {note : Nat → σ → σ}

theorem Handed.trans {a b c : Except RuntimeError Value} (first : Handed x y a b) (second : Handed y z b c) :
    Handed x z a c := by
  cases first with
  | value carried =>
    cases second with
    | value again => exact .value (carried.trans again)
  | exception heap =>
    cases second with
    | exception again => exact .exception (again.trans heap)
    | other plain => exact (plain _ rfl).elim
  | other plain made =>
    cases second with
    | exception again => exact .other plain (again ▸ made)
    | other thrown => exact (thrown _ rfl).elim

def Declaration.Fits (m : Declaration) (shorty : Shorty) (y : World σ) : Except RuntimeError Value → Prop
  | .ok v => y.disturbed = [] ∧ v.tag = shorty.result ∧ ∀ s, v = .reference s →
      (∃ k, y.vm.heap.Denotes s k) ∧ ∀ q c, s = some q → m.result = some c → y.IsA q c
  | .error _ => True

/-- A call in `w` that is another in `x`, and hands on what that comes to, with at most `n` objects made. -/
structure HandsOn (m : Declaration) (shorty : Shorty) (n : Nat) (outer inner : Act σ RuntimeError Value) (w x : World σ)
    (rest : Except RuntimeError Value → Machine σ (Except RuntimeError Value)) : Prop where
  run : outer.run w = (do
    let outcome ← inner.attempt
    rest outcome) x
  back : ∀ outcome y, inner.run x = .ok (outcome, y) → m.Fits shorty y outcome →
    RanOut y n (outer.run w) ∨
      ∃ result z, outer.run w = .ok (result, z) ∧ Handed y z outcome result ∧ m.Fits shorty z result ∧
        z.vm.methods = y.vm.methods ∧ z.user = y.user ∧ y.vm.heap.Spends n z.vm.heap

section HandingOn

variable {m : Declaration} {shorty : Shorty} {n k : Nat} {outer middle inner : Act σ RuntimeError Value}
  {rest late : Except RuntimeError Value → Machine σ (Except RuntimeError Value)}

theorem HandsOn.trans (first : HandsOn m shorty k outer middle w x rest)
    (second : HandsOn m shorty n middle inner x y late) :
    HandsOn m shorty (n + k) outer inner w y fun outcome => do
      let result ← late outcome
      rest result where
  run := first.run.trans ((Step.bindSame second.run).trans (by rw [bind_assoc]))
  back outcome v run fits := by
    rcases second.back outcome v run fits with ran | ⟨result, z, ended, handed, fits', methods, user, spends⟩
    · exact Or.inl ((ran.first first.run).more (Nat.le_add_right n k))
    · rcases first.back result z ended fits' with ran | ⟨last, z', ended', handed', fits'', methods', user', spends'⟩
      · exact Or.inl (ran.earlier spends fun _ failed => failed)
      · exact Or.inr ⟨last, z', ended', handed.trans handed', fits'', methods'.trans methods, user'.trans user,
          spends.trans spends'⟩

theorem HandsOn.enters (hands : HandsOn m shorty n outer middle w x rest) (run : middle.run x = inner.run y) :
    HandsOn m shorty n outer inner w y rest where
  run := hands.run.trans (Step.bindSame run)
  back outcome z ended := hands.back outcome z (run.trans ended)

end HandingOn

/-! ## One level -/

section Level

variable {g : Guest σ} {depth index id : Nat} {r : InstalledHook} {d : Descriptor} {info : Method}
  {receiver : Option Ref} {args : List Value} {all : List Passed} {boxed : BoxedFrame} {frame : Frame}
  {u : World σ} {m : Declaration} {shorty : Shorty} {c : ClassId} {inner : Act σ RuntimeError Value}
  {rest : Except CallError (Option Ref) → Machine σ (Except CallError (Option Ref))}

theorem World.IsA.handled {s : Ref} {c : ClassId} (is : w.IsA s c) (handled : Handled w x) : x.IsA s c := by
  unfold IsA
  rw [handled.heap, handled.classes]
  exact is

theorem Declaration.Fits.answers {v : Value} (fits : m.Fits shorty y (.ok v)) (read : r.shorty = shorty)
    (owner : r.method = .live index) (lasts : Lasts w y) (rung : Rung w m shorty c index d info) :
    r.Answers y (.ok v) := by
  refine ⟨read ▸ fits.2.1, fun s is => ⟨(fits.2.2 s is).1, fun q info' c' given known declared => ?_⟩⟩
  obtain ⟨now, there, same⟩ := lasts.found rung.at_
  obtain ⟨_, _, _, _, result, _, _, codeItem⟩ := Method.lastingParts same
  rw [owner] at known
  obtain ⟨e, found, at_⟩ := methodIff.mp known
  have found' : y.descriptor? (.live index) = some now.descriptor := by simp [descriptor?, there]
  cases found.symm.trans found'
  rw [codeItem, rung.descriptor, rung.numbered, Nat.add_sub_cancel, there] at at_
  cases at_
  exact isInstanceIff.mpr ((fits.2.2 s is).2 q c' given (rung.result ▸ result ▸ declared))

theorem Wrapped.fits {v : Value} {obj : Option Ref} (wrapped : Wrapped y v obj x) (handled : Handled x z)
    (fits : m.Fits shorty y (.ok v)) : m.Fits shorty z (.ok v) := by
  obtain ⟨quiet, tag, live⟩ := fits
  refine ⟨handled.disturbed.trans (wrapped.quiet quiet), tag, fun s is => ?_⟩
  subst is
  cases wrapped.same
  rw [handled.heap]
  exact ⟨(live s rfl).1, fun q c given declared => ((live s rfl).2 q c given declared).handled handled⟩

theorem Relays.handsOn (relays : Relays p g depth id r boxed u x inner rest) (lawful : g.Lawful p)
    (steady : Steady p w) (sound : Sound w) (active : Active w index d id r)
    (entered : Entered g depth index id r receiver args w all boxed frame u)
    (rung : Rung w m shorty c index d info)
    (leads : ∀ outcome y, inner.run x = .ok (outcome, y) → Leads p w.vm.handles.next w y) :
    HandsOn m shorty 1 (call g (depth + 1) (.live index) receiver args) inner w x fun outcome => do
      let result ← rest (← wrapOutcome outcome)
      finishCall r frame boxed result where
  run := relays.called entered
  back outcome y run fits := by
    cases outcome with
    | error e =>
      refine (relays.error lawful steady active entered run).imp_right ?_
      rintro ⟨thrown, z, ended, handed, methods, user, spends⟩
      exact ⟨_, z, ended, handed, trivial, methods, user, spends⟩
    | ok v =>
      have read : r.shorty = shorty := Except.ok.inj (active.shorty.symm.trans rung.read)
      have answers := fits.answers read active.hooked.method (leads _ _ run).lasts rung
      refine (relays.value lawful steady sound active entered run fits.1 answers).imp_right ?_
      rintro ⟨obj, z, z', ended, wrapped, handled, spends⟩
      refine ⟨_, z', ended, .value ?_, wrapped.fits handled fits, ?_, ?_, spends⟩
      · exact wrapped.carried (fun s is => (fits.2.2 s is).1) handled.heap
      · exact handled.methods.trans wrapped.calm.methods
      · exact handled.user.trans wrapped.calm.user

end Level

/-! ## The chain -/

structure Vm.SuperChain (vm : Vm) (m : Declaration) (n : Nat) (classes : Nat → ClassId) (methods : Nat → Nat) :
    Prop where
  above : ∀ i < n, vm.classes.superclass? (classes i) = some (classes (i + 1))
  below : ∀ i < n, (classes (i + 1)).index < (classes i).index
  overrides : ∀ i ≤ n, vm.Overrides m (classes i) (methods i)

structure AscendingHook (w : World σ) (g : Guest σ) (note : Nat → σ → σ) (index id : Nat) (r : InstalledHook) :
    Prop where
  recorded : w.recordOf (.live index) = some id
  found : w.records[id]? = some r
  configured : r.interceptor.arch = w.vm.arch
  ascends : r.interceptor.handler.Ascends g note

def entries (note : Nat → σ → σ) (ids : Nat → Nat) (k : Nat) (user : σ) : σ :=
  (List.range k).foldl (fun user i => note (ids i) user) user

theorem entriesNext (ids : Nat → Nat) (k : Nat) (user : σ) :
    entries note ids (k + 1) user = note (ids k) (entries note ids k user) := by
  simp [entries, List.range_succ]

structure Ladder (p : Rights σ) (g : Guest σ) (note : Nat → σ → σ) (m : Declaration) (shorty : Shorty) (n k : Nat)
    (classes : Nat → ClassId) (methods ids : Nat → Nat) (w : World σ) : Prop where
  steady : Steady p w
  sound : Sound w
  quiet : w.disturbed = []
  chain : w.vm.SuperChain m n classes methods
  rungs : ∀ i ≤ n, ∃ d info, Rung w m shorty (classes i) (methods i) d info
  hooks : ∀ i < k, ∃ d r, Active w (methods i) d (ids i) r ∧ r.interceptor.handler.Ascends g note

theorem Vm.SuperChain.climbed {m : Declaration} {n : Nat} {classes : Nat → ClassId} {methods : Nat → Nat} {user : σ}
    (chain : w.vm.SuperChain m n classes methods) (climbed : Climbed p user w x) :
    x.vm.SuperChain m n classes methods where
  above i inside := (climbed.kin.superclass _).trans (chain.above i inside)
  below := chain.below
  overrides i inside := by
    have overrides := chain.overrides i inside
    exact {
      there := climbed.methods ▸ overrides.there
      only := climbed.methods ▸ overrides.only
      starts := (climbed.kin.fails _).trans overrides.starts }

namespace Ladder

variable {g : Guest σ} {m : Declaration} {shorty : Shorty} {n k : Nat} {classes : Nat → ClassId}
  {methods ids : Nat → Nat} {user : σ}

theorem climbed (ladder : Ladder p g note m shorty n k classes methods ids w) (climbed : Climbed p user w x) :
    Ladder p g note m shorty n k classes methods ids x where
  steady := ladder.steady.leads climbed.leads
  sound := (climbed.leads.straight ladder.sound).1
  quiet := climbed.quiet
  chain := ladder.chain.climbed climbed
  rungs i inside := by
    obtain ⟨d, info, rung⟩ := ladder.rungs i inside
    exact ⟨d, info, rung.same climbed.methods⟩
  hooks i hooked := by
    obtain ⟨d, r, active, ascends⟩ := ladder.hooks i hooked
    exact ⟨d, r, active.climbed climbed, ascends⟩

section Level

variable (depth : Nat) {i : Nat} {receiver : Ref} {args : List Value} {s : ClassId}
  (ladder : Ladder p g note m shorty n k classes methods ids w) (lawful : g.Lawful p)
  (takes : ∀ id user h, p.mine (note id user) h → p.mine user h)
  (suits : Suits w shorty m.params (classes i) receiver args)

include ladder takes suits in
theorem ascends (hooked : i < k) (inside : i ≤ n) (above : w.vm.classes.superclass? (classes i) = some s) :
    RanOut w (shorty.params.length + 3) ((call g (depth + 1) (.live (methods i)) (some receiver) args).run w) ∨
      ∃ d info r o xs all boxed frame u ys h hs v, Rung w m shorty (classes i) (methods i) d info ∧
        Active w (methods i) d (ids i) r ∧ Passing w r (some receiver) args o xs all ∧
        Entered g depth (methods i) (ids i) r (some receiver) args w all boxed frame u ∧
        r.slots.length = shorty.params.length + 1 ∧
        Ascending p g depth (methods i) (ids i) r boxed s (note (ids i) w.user) w u o xs ys h hs v := by
  obtain ⟨d, info, rung⟩ := ladder.rungs i inside
  obtain ⟨_, r, active, ascends⟩ := ladder.hooks i hooked
  cases active.found.symm.trans rung.found
  have same : r.shorty = shorty := Except.ok.inj (active.shorty.symm.trans rung.read)
  have count := active.slotCount (active.isStatic.symm.trans rung.dynamic)
  rw [same] at count
  have proper := suits.proper same
  obtain ⟨o, xs, all, passing⟩ := Passing.ofProper proper (Descriptor.shortyProper active.shorty)
  rcases callEntered active proper passing ladder.steady.lost with
    ran | ⟨disturbed, _⟩ | ⟨boxed, frame, u, entered⟩
  · exact Or.inl (ran.more (by omega))
  · exact (disturbed ladder.quiet).elim
  · obtain ⟨ys, h, hs, v, ascending⟩ :=
      entered.ascends passing active ladder.steady ladder.quiet ascends takes rung above
    exact Or.inr ⟨d, info, r, o, xs, all, boxed, frame, u, ys, h, hs, v, rung, active, passing, entered, count,
      ascending⟩

include ladder lawful takes suits in
theorem reaches (hooked : i < k) (inside : i < n) :
    RanOut w (shorty.params.length + 3) ((call g (depth + 1) (.live (methods i)) (some receiver) args).run w) ∨
      ∃ x t values rest, Climbed p (note (ids i) w.user) w x ∧
        w.vm.heap.Spends (shorty.params.length + 3) x.vm.heap ∧
        Same w.vm.heap x.vm.heap (some receiver) (some t) ∧ List.Forall₂ (Carried w.vm.heap x.vm.heap) args values ∧
        HandsOn m shorty 1 (call g (depth + 1) (.live (methods i)) (some receiver) args)
          (call g depth (.live (methods (i + 1))) (some t) values) w x rest := by
  have above := ladder.chain.above i inside
  rcases ladder.ascends depth takes suits hooked (Nat.le_of_lt inside) above with
    ran | ⟨d, info, r, o, xs, all, boxed, frame, u, ys, h, hs, v, rung, active, passing, entered, count, ascending⟩
  · exact Or.inl ran
  obtain ⟨e, info', target⟩ := ladder.rungs (i + 1) inside
  have dynamic : r.isStatic = false := active.isStatic.symm.trans rung.dynamic
  rcases ascending.reaches lawful ladder.steady passing suits dynamic rung target
      (ladder.chain.overrides (i + 1) inside) above (ladder.chain.below i inside) with
    ran | ⟨x, t, values, climbed, spends, same, carried, relays⟩
  · refine Or.inl ((ran.earlier entered.spends fun f failed => entered.run.trans (Step.bindFault failed)).more ?_)
    omega
  · have ready := (ladder.climbed climbed).steady.ready
    have spends := (entered.spends.trans spends).more (n := shorty.params.length + 3) (by omega)
    refine Or.inr ⟨x, t, values, _, climbed, spends, same, carried,
      relays.handsOn lawful ladder.steady ladder.sound active entered rung fun outcome y run => ?_⟩
    have inner := Step.Ends.result (callRespects lawful depth _ _ _ x ready) run
    exact climbed.leads.trans (inner.widen climbed.leads.issued)

include ladder lawful takes suits in
theorem misses (hooked : i < k) (inside : i ≤ n) (above : w.vm.classes.superclass? (classes i) = some s)
    (absent : ∀ owner ∈ w.vm.classes.lineage s, ∀ info ∈ w.vm.methods, ¬ info.Declares owner m.name m.signature) :
    RanOut w (shorty.params.length + 3) ((call g (depth + 1) (.live (methods i)) (some receiver) args).run w) ∨
      ∃ x rest, Climbed p (note (ids i) w.user) w x ∧
        w.vm.heap.Spends (shorty.params.length + 3) x.vm.heap ∧
        HandsOn m shorty 1 (call g (depth + 1) (.live (methods i)) (some receiver) args)
          (throw (.noSuchMethod (w.vm.classes.name s) m.name m.signature)) w x rest := by
  refine (ladder.ascends depth takes suits hooked inside above).imp_right ?_
  rintro ⟨d, info, r, o, xs, all, boxed, frame, u, ys, h, hs, v, rung, active, _, entered, count, ascending⟩
  have climbed := ascending.climbed
  have missing : v.vm.resolve s m.name m.signature = none := by
    refine Vm.resolveNoneIff.mpr ?_
    rw [climbed.kin.lineage, climbed.methods]
    exact absent
  have spends := entered.spends.more (n := shorty.params.length + 3) (by omega)
  have relays := ascending.misses rung missing
  refine ⟨v, _, climbed, ascending.heap ▸ spends,
    relays.handsOn lawful ladder.steady ladder.sound active entered rung fun outcome y run => ?_⟩
  cases run
  exact climbed.leads

end Level

/-! ## Any number of levels -/

structure Risen (p : Rights σ) (note : Nat → σ → σ) (m : Declaration) (shorty : Shorty) (classes : Nat → ClassId)
    (ids : Nat → Nat) (j : Nat) (w : World σ) (receiver : Ref) (args : List Value) (outer : Act σ RuntimeError Value)
    (x : World σ) (t : Ref) (values : List Value) (middle : Act σ RuntimeError Value) : Prop where
  climbed : Climbed p (entries note ids j w.user) w x
  receiver : Same w.vm.heap x.vm.heap (some receiver) (some t)
  args : List.Forall₂ (Carried w.vm.heap x.vm.heap) args values
  suits : Suits x shorty m.params (classes j) t values
  spends : w.vm.heap.Spends (j * (shorty.params.length + 3)) x.vm.heap
  faults : ∀ f, middle.run x = .error f → outer.run w = .error f
  hands : ∀ n inner y rest, HandsOn m shorty n middle inner x y rest →
    ∃ rest', HandsOn m shorty (n + j) outer inner w y rest'

section Climbing

variable (depth : Nat) {j : Nat} {receiver : Ref} {args : List Value}

theorem risenStart (quiet : w.disturbed = []) (suits : Suits w shorty m.params (classes 0) receiver args)
    (outer : Act σ RuntimeError Value) :
    Risen p note m shorty classes ids 0 w receiver args outer w receiver args outer where
  climbed := ⟨.refl w, rfl, rfl, .refl _, rfl, quiet⟩
  receiver := by
    obtain ⟨k, _, denotes, _⟩ := suits.instance_
    exact ⟨some k, denotes, denotes⟩
  args := List.forall₂_same.mpr fun v mem => by
    cases v with
    | reference s =>
      obtain ⟨k, denotes⟩ := suits.live s mem
      exact .reference ⟨k, denotes, denotes⟩
    | _ => exact .plain (by simp [Value.tag])
  suits
  spends := by
    rw [Nat.zero_mul]
    exact Heap.spendsNone rfl
  faults _ failed := failed
  hands _ _ _ rest hands := ⟨rest, hands⟩

variable (ladder : Ladder p g note m shorty n k classes methods ids w) (lawful : g.Lawful p)
  (takes : ∀ id user h, p.mine (note id user) h → p.mine user h)
  (suits : Suits w shorty m.params (classes 0) receiver args)

include ladder lawful takes suits in
theorem climbs (hooked : j ≤ k) (inside : j ≤ n) :
    RanOut w (j * (shorty.params.length + 3)) ((call g (depth + j) (.live (methods 0)) (some receiver) args).run w) ∨
      ∃ x t values, Risen p note m shorty classes ids j w receiver args
        (call g (depth + j) (.live (methods 0)) (some receiver) args) x t values
        (call g depth (.live (methods j)) (some t) values) := by
  -- The level that is climbed last is called with the least depth left, so the depth varies with the levels.
  induction j generalizing depth with
  | zero => exact Or.inr ⟨w, receiver, args, risenStart ladder.quiet suits _⟩
  | succ j ih =>
    rw [show depth + (j + 1) = depth + 1 + j by omega]
    rw [Nat.succ_mul]
    rcases ih (depth + 1) (Nat.le_of_lt hooked) (Nat.le_of_lt inside) with
      ran | ⟨x, t, values, risen⟩
    · exact Or.inl (ran.more (Nat.le_add_right ..))
    have here := ladder.climbed risen.climbed
    rcases here.reaches depth lawful takes risen.suits hooked inside with
      ran | ⟨y, t', values', rest, climbed, spends, same, carried, hands⟩
    · exact Or.inl (ran.earlier risen.spends risen.faults)
    refine Or.inr ⟨y, t', values', ?_⟩
    have entered : Climbed p (entries note ids (j + 1) w.user) x y := by
      rw [entriesNext, ← risen.climbed.user]
      exact climbed
    exact {
      climbed := risen.climbed.trans entered
      receiver := risen.receiver.trans same
      args := carriedTrans risen.args carried
      suits := risen.suits.climbs climbed (here.chain.above j inside) (here.chain.below j inside) same carried
      spends := by
        rw [Nat.succ_mul]
        exact risen.spends.trans spends
      faults := fun f failed => risen.faults f (hands.run.trans (Step.bindFault failed))
      hands := fun n inner z late last => by
        rw [← Nat.add_assoc, Nat.add_right_comm]
        exact risen.hands _ inner z _ (hands.trans last) }

end Climbing
end Ladder

/-! ## The ends of the chain -/

/-- A call that is the body of a method of a super chain, entered in `x`, after one entry into each of `k` handlers:
no other body has run, and what this one comes to is handed on. -/
structure Ascended (g : Guest σ) (note : Nat → σ → σ) (m : Declaration) (shorty : Shorty) (ids : Nat → Nat)
    (depth k index : Nat) (w : World σ) (receiver : Ref) (args : List Value) (outer : Act σ RuntimeError Value)
    (x : World σ) (t : Ref) (values : List Value)
    (rest : Except RuntimeError Value → Machine σ (Except RuntimeError Value)) : Prop where
  entered : x.user = entries note ids k w.user
  others : x.vm.methods = w.vm.methods
  receiver : Same w.vm.heap x.vm.heap (some receiver) (some t)
  args : List.Forall₂ (Carried w.vm.heap x.vm.heap) args values
  body : HandsOn m shorty k outer (g.body index (call g depth) (some t) values) w (x.counted index) rest

structure Unanswered (note : Nat → σ → σ) (ids : Nat → Nat) (k : Nat) (e : RuntimeError) (w : World σ)
    (outer : Act σ RuntimeError Value) (thrown : Ref) (z : World σ) : Prop where
  run : outer.run w = .ok (.error (.exception thrown), z)
  thrown : z.vm.heap.get? thrown = some (.throwable e.message)
  entered : z.user = entries note ids k w.user
  none_ : z.vm.methods = w.vm.methods

namespace Ladder

variable {g : Guest σ} {m : Declaration} {shorty : Shorty} {n k depth : Nat} {classes : Nat → ClassId}
  {methods ids : Nat → Nat} {receiver : Ref} {args : List Value}
  (ladder : Ladder p g note m shorty n k classes methods ids w) (lawful : g.Lawful p)
  (takes : ∀ id user h, p.mine (note id user) h → p.mine user h)
  (suits : Suits w shorty m.params (classes 0) receiver args)

include ladder lawful takes suits in
theorem tops {i : Nat} (hooked : i < k) (inside : i < n) (plain : w.isHooked (.live (methods (i + 1))) = false) :
    RanOut w ((i + 1) * (shorty.params.length + 3))
        ((call g (depth + (i + 1) + 1) (.live (methods 0)) (some receiver) args).run w) ∨
      ∃ x t values rest, Ascended g note m shorty ids depth (i + 1) (methods (i + 1)) w receiver args
        (call g (depth + (i + 1) + 1) (.live (methods 0)) (some receiver) args) x t values rest := by
  rw [show depth + (i + 1) + 1 = depth + 2 + i by omega, Nat.succ_mul]
  rcases ladder.climbs (depth + 2) lawful takes suits (Nat.le_of_lt hooked) (Nat.le_of_lt inside) with
    ran | ⟨x, t, values, risen⟩
  · exact Or.inl (ran.more (Nat.le_add_right ..))
  rcases (ladder.climbed risen.climbed).reaches (depth + 1) lawful takes risen.suits hooked inside with
    ran | ⟨y, t', values', _, climbed, _, same, carried, hands⟩
  · exact Or.inl (ran.earlier risen.spends risen.faults)
  obtain ⟨rest, whole⟩ := risen.hands _ _ _ _ hands
  rw [Nat.add_comm] at whole
  have methods' := climbed.methods.trans risen.climbed.methods
  obtain ⟨d, info, rung⟩ := ladder.rungs (i + 1) inside
  have there := rung.same methods'
  have open_ : d.isHooked = false := by simpa [isHooked, rung.found] using plain
  have enters : (call g (depth + 1) (.live (methods (i + 1))) (some t') values').run y = _ :=
    callPlainRun there.found open_ there.known fun c static => by simp [rung.dynamic] at static
  rw [rung.numbered, Nat.add_sub_cancel] at enters
  refine Or.inr ⟨y, t', values', rest, ?_⟩
  exact {
    entered := by rw [climbed.user, risen.climbed.user, entriesNext]
    others := methods'
    receiver := risen.receiver.trans same
    args := carriedTrans risen.args carried
    body := whole.enters enters }

include ladder lawful takes suits in
theorem passes {s : ClassId} (hooked : n < k) (above : w.vm.classes.superclass? (classes n) = some s)
    (absent : ∀ owner ∈ w.vm.classes.lineage s, ∀ info ∈ w.vm.methods, ¬ info.Declares owner m.name m.signature) :
    RanOut w ((n + 1) * (shorty.params.length + 4))
        ((call g (depth + (n + 1)) (.live (methods 0)) (some receiver) args).run w) ∨
      ∃ thrown z, Unanswered note ids (n + 1) (.noSuchMethod (w.vm.classes.name s) m.name m.signature) w
        (call g (depth + (n + 1)) (.live (methods 0)) (some receiver) args) thrown z := by
  rw [show depth + (n + 1) = depth + 1 + n by omega, Nat.mul_succ, Nat.succ_mul]
  rcases ladder.climbs (depth + 1) lawful takes suits (Nat.le_of_lt hooked) (Nat.le_refl n) with
    ran | ⟨x, t, values, risen⟩
  · exact Or.inl (ran.more (by omega))
  have past : ∀ owner ∈ x.vm.classes.lineage s, ∀ info ∈ x.vm.methods, ¬ info.Declares owner m.name m.signature := by
    rw [risen.climbed.kin.lineage, risen.climbed.methods]
    exact absent
  rcases (ladder.climbed risen.climbed).misses depth lawful takes risen.suits hooked (Nat.le_refl n)
      ((risen.climbed.kin.superclass _).trans above) past with ran | ⟨y, _, climbed, spends, hands⟩
  · exact Or.inl ((ran.earlier risen.spends risen.faults).more (Nat.le_add_right ..))
  obtain ⟨_, whole⟩ := risen.hands _ _ _ _ hands
  rw [Nat.add_comm] at whole
  refine (whole.back _ y rfl trivial).imp (fun ran => ran.earlier (risen.spends.trans spends) fun _ failed => failed) ?_
  rintro ⟨_, z, ended, handed, _, methods', user, _⟩
  rw [risen.climbed.kin.name] at handed
  cases handed with
  | other _ made =>
    refine ⟨_, z, ended, made, ?_, ?_⟩
    · rw [user, climbed.user, risen.climbed.user, entriesNext]
    · rw [methods', climbed.methods, risen.climbed.methods]

end Ladder

theorem Vm.SuperChain.rung {m : Declaration} {shorty : Shorty} {n i : Nat} {classes : Nat → ClassId}
    {methods : Nat → Nat} {d : Descriptor} (chain : w.vm.SuperChain m n classes methods) (genuine : w.Genuine)
    (few : w.vm.methods.length < UInt64.size) (found : w.descriptor? (.live (methods 0)) = some d)
    (read : d.shorty = .ok shorty) (inside : i ≤ n) :
    ∃ d info, Rung w m shorty (classes i) (methods i) d info := by
  obtain ⟨first, at_, declares, _⟩ := (chain.overrides 0 (Nat.zero_le n)).there
  obtain ⟨info, there, declares', params, result, dynamic⟩ := (chain.overrides i inside).there
  obtain ⟨_, at_', rfl⟩ := Option.map_eq_some_iff.mp found
  cases at_.symm.trans at_'
  have own := genuine _ info there
  have below := (List.getElem?_eq_some_iff.mp there).1
  refine ⟨info.descriptor, info, ?_⟩
  exact {
    at_ := there
    descriptor := rfl
    declares := declares'
    params
    result
    declared := declares'.owner ▸ own.declared
    dynamic
    read := ((genuine _ first at_).sameShorty own (declares'.signature.trans declares.signature.symm)).trans read
    numbered := by
      rw [own.numbered]
      exact Nat.mod_eq_of_lt (show methods i + 1 < 2 ^ 64 by simp only [UInt64.size] at few; omega) }

theorem superChainClimbed (mine : σ → Handle → Prop) (arch : Architecture) (layout : Layout) (user : σ)
    (nothing : ∀ h, ¬ mine user h) (w : World σ)
    (reachable : Reachable (.owning mine) (World.start (Vm.start arch layout) user) w) (quiet : w.disturbed = [])
    (few : w.vm.methods.length < UInt64.size) (m : Declaration) (n : Nat) (classes : Nat → ClassId)
    (methods : Nat → Nat) (chain : w.vm.SuperChain m n classes methods) (d : Descriptor)
    (found : w.descriptor? (.live (methods 0)) = some d) (shorty : Shorty) (read : d.shorty = .ok shorty)
    (g : Guest σ) (lawful : g.Lawful (.owning mine)) (note : Nat → σ → σ)
    (takes : ∀ id user h, mine (note id user) h → mine user h) (k : Nat) (some_ : 1 ≤ k) (within : k ≤ n + 1)
    (ids : Nat → Nat) (hooks : ∀ i < k, ∃ r, AscendingHook w g note (methods i) (ids i) r)
    (plain : k ≤ n → w.isHooked (.live (methods k)) = false) (depth : Nat) (receiver : Ref) (args : List Value)
    (suits : Suits w shorty m.params (classes 0) receiver args) :
    (k ≤ n →
      RanOut w (k * (shorty.params.length + 3))
          ((call g (depth + k + 1) (.live (methods 0)) (some receiver) args).run w) ∨
        ∃ x t values rest, Ascended g note m shorty ids depth k (methods k) w receiver args
          (call g (depth + k + 1) (.live (methods 0)) (some receiver) args) x t values rest) ∧
      (k = n + 1 → ∀ s, w.vm.classes.superclass? (classes n) = some s →
        (∀ owner ∈ w.vm.classes.lineage s, ∀ info ∈ w.vm.methods, ¬ info.Declares owner m.name m.signature) →
        RanOut w (k * (shorty.params.length + 4))
            ((call g (depth + k) (.live (methods 0)) (some receiver) args).run w) ∨
          ∃ thrown z, Unanswered note ids k (.noSuchMethod (w.vm.classes.name s) m.name m.signature) w
            (call g (depth + k) (.live (methods 0)) (some receiver) args) thrown z) := by
  have start := steadyStart arch layout nothing
  have toCall := reachable.leads start.ready
  have genuine := toCall.lasts.genuine (genuineStart arch layout user)
  have ladder : Ladder (.owning mine) g note m shorty n k classes methods ids w := {
    steady := start.leads toCall
    sound := (toCall.straight (soundStart arch layout user)).1
    quiet
    chain
    rungs := fun i inside => chain.rung genuine few found read inside
    hooks := fun i hooked => by
      obtain ⟨r, hook⟩ := hooks i hooked
      have configured : r.interceptor.arch = arch := hook.configured.trans toCall.arch
      obtain ⟨_, _, d, active⟩ := reachable.active nothing hook.recorded hook.found configured
      exact ⟨d, r, active, hook.ascends⟩ }
  refine ⟨fun inside => ?_, fun all s above absent => ?_⟩
  · obtain ⟨i, rfl⟩ := Nat.exists_eq_add_of_le' some_
    exact ladder.tops lawful takes suits (Nat.lt_succ_self i) inside (plain inside)
  · subst all
    exact ladder.passes lawful takes suits (Nat.lt_succ_self n) above absent

namespace Sample

def pickIn (c : ClassId) (number : Nat) : Method :=
  { pick with declaredIn := c, descriptor := Method.descriptorOf Layout.compiled number c 0 [76, 73, 76] }

theorem pickInDefined (c : ClassId) (number : Nat) :
    Method.define ClassTable.standard Layout.compiled number c "pick" "(IL;)L;" 0 = .ok (pickIn c number) := by
  unfold Method.define
  rw [pickParsed]
  rfl

def picking : Declaration := ⟨"pick", "(IL;)L;", [none, some .object], some .object⟩

def empty : World (List Nat) := World.start (Vm.start .arm Layout.compiled) []

def overridden : World (List Nat) :=
  { empty with
    vm.heap := ⟨0x1000, #[.instance .string]⟩
    vm.methods := [pickIn .string 1, pickIn .object 2] }

def lower : Descriptor := (pickIn .string 1).descriptor

def caught : Captured := ⟨⟨.live 0, ⟨.reference, [.int, .reference]⟩, none⟩, ⟨lower, 96⟩, ⟨1⟩⟩

def mirroredString : World (List Nat) := overridden.pinned .globalHandle none

def climbing : World (List Nat) :=
  { mirroredString.claimed (.live 0) (lower.patched .compiledEntry 0) (caught.record host lower) with
    vm.moving := true }

theorem lowerShorty : lower.shorty = .ok ⟨.reference, [.int, .reference]⟩ := pickShorty

theorem caughtFrom : Captured.From caught host 0 lower mirroredString where
  method := rfl
  layout := rfl
  found := rfl
  unhooked := rfl
  concrete := rfl
  shorty := lowerShorty
  declared := ⟨.string, rfl, fun _ => rfl⟩
  copied := by decide

def nobodys : List Nat → Handle → Prop := fun _ _ => False

theorem climbingReached : Reachable (Rights.owning nobodys) empty climbing := by
  have peopled : Leads (Rights.owning nobodys) 0 empty { empty with vm.heap := ⟨0x1000, #[.instance .string]⟩ } :=
    .moves (.refl _) (.runs (.allocated (r := first) (o := .instance .string) rfl))
  have overridden : Leads (Rights.owning nobodys) 0 empty overridden :=
    (peopled.moves (.defines (pickInDefined .string 1))).moves (.defines (pickInDefined .object 2))
  have mirrored : Leads (Rights.owning nobodys) 0 empty mirroredString := overridden.moves (.runs (.pinned _ _))
  have claimed : Leads (Rights.owning nobodys) 0 empty (mirroredString.claimed (.live 0)
      (lower.patched .compiledEntry 0) (caught.record host lower)) :=
    mirrored.claims caughtFrom (.refl _) ⟨rfl, by decide⟩ (by decide)
  exact .between .start (claimed.moves (.runs (.switched true)))

def noting (id : Nat) (entered : List Nat) : List Nat := entered ++ [id]

theorem notingTakes (id : Nat) (entered : List Nat) (h : Handle) (own : nobodys (noting id entered) h) :
    nobodys entered h := own

def ascending : Guest (List Nat) where
  body _ _ receiver _ := pure (.reference receiver)
  handler _ invoke i := i.ascend noting invoke
  before _ _ s := pure (.ok (), s)
  after _ _ s := pure (.ok (), s)

theorem ascendingLawful : ascending.Lawful (Rights.owning nobodys) where
  body _ _ _ _ _ w _ := Leads.refl w
  handler _ respects _ i := i.ascendRespects respects notingTakes
  before _ _ _ _ _ a _ := ⟨a, .refl⟩
  after _ _ _ _ _ a _ := ⟨a, .refl⟩

def classesUp : Nat → ClassId
  | 0 => .string
  | _ => .object

theorem climbingChain : climbing.vm.SuperChain picking 1 classesUp id where
  above i inside := by
    obtain rfl := Nat.lt_one_iff.mp inside
    rfl
  below i inside := by
    obtain rfl := Nat.lt_one_iff.mp inside
    decide
  overrides i inside := by
    match i, inside with
    | 0, _ =>
      exact {
        there := ⟨_, rfl, ⟨rfl, rfl, rfl⟩, rfl, rfl, rfl⟩
        only := fun j info at_ declares => by
          match j, at_ with
          | 0, _ => rfl
          | 1, at_ =>
            cases at_
            exact absurd declares.owner (by decide)
        starts := rfl }
    | 1, _ =>
      exact {
        there := ⟨_, rfl, ⟨rfl, rfl, rfl⟩, rfl, rfl, rfl⟩
        only := fun j info at_ declares => by
          match j, at_ with
          | 1, _ => rfl
          | 0, at_ =>
            cases at_
            exact absurd declares.owner (by decide)
        starts := rfl }

theorem firstString : climbing.vm.heap.Denotes (some first) (some 0) := ⟨rfl, by decide⟩

theorem suitsString : Suits climbing ⟨.reference, [.int, .reference]⟩ picking.params .string first
    [.int 7, .reference (some first)] where
  instance_ := by
    obtain ⟨above, is⟩ := climbing.vm.classes.lineageHead .string
    exact ⟨0, .string, firstString, ⟨.instance .string, rfl, rfl⟩, is ▸ List.mem_cons_self ..⟩
  kinds := rfl
  live s mem := by
    obtain rfl : s = some first := by simpa using mem
    exact ⟨some 0, firstString⟩
  accepted j s c at_ declared := by
    match j, at_, declared with
    | 1, at_, declared =>
      cases at_
      cases declared
      obtain ⟨above, is⟩ := climbing.vm.classes.lineageHead .string
      refine ⟨0, .string, firstString, ⟨.instance .string, rfl, rfl⟩, ClassTable.lineageAssignable ?_⟩
      exact ClassTable.lineageUp (climbingChain.above 0 Nat.one_pos) (by decide) (is ▸ List.mem_cons_self ..)

end Sample

theorem sampleClimbed :
    ∃ x t values rest, Ascended Sample.ascending Sample.noting Sample.picking ⟨.reference, [.int, .reference]⟩ id
      0 1 1 Sample.climbing Sample.first [.int 7, .reference (some Sample.first)]
      (call Sample.ascending 2 (.live 0) (some Sample.first) [.int 7, .reference (some Sample.first)])
      x t values rest := by
  have climbs := (superChainClimbed Sample.nobodys .arm Layout.compiled [] (fun _ own => own) Sample.climbing
    Sample.climbingReached rfl (by decide) Sample.picking 1 Sample.classesUp id Sample.climbingChain
    (Sample.lower.patched .compiledEntry 0) rfl ⟨.reference, [.int, .reference]⟩
    ((Descriptor.patchedShorty _ _ _).trans Sample.lowerShorty) Sample.ascending Sample.ascendingLawful
    Sample.noting Sample.notingTakes 1 (Nat.le_refl 1) (by decide) id
    (fun i hooked => by
      obtain rfl := Nat.lt_one_iff.mp hooked
      exact ⟨Sample.caught.record Sample.host Sample.lower, rfl, rfl, rfl, fun _ _ => rfl⟩)
    (fun _ => rfl) 0 Sample.first [.int 7, .reference (some Sample.first)] Sample.suitsString).1 (Nat.le_refl 1)
  exact climbs.resolve_left fun ran => ran.short (by decide)

end Detour
