import Mathlib
import EngineHost.Proofs.Accesses
import EngineHost.Proofs.Cabinet
import EngineHost.Proofs.Reach

/-!
Arguments after their release. The engine is not called for them any more and every reading of them is
refused, except that an iteration which has begun goes on over what needs no callback.
-/
namespace EngineHost

open Host

variable {S : Embedding} {E : Engine S.State} {α β : Type} {w : World S} {id : Nat}

/-! ### What a release leaves -/

/-- A computation after which every object is of the kind that it was, with the same data. -/
def KeepsRoles (x : Host S α) : Prop :=
  ∀ (w : World S) (i : Nat), (exec x w).2.nodes[i]?.map Node.role = w.nodes[i]?.map Node.role

namespace KeepsRoles

theorem looks {x : Host S α} (hx : Looks x) : KeepsRoles x := by
  intro w i
  rw [hx w]

theorem bind {x : Host S α} {k : α → Host S β} (hx : KeepsRoles x) (hk : ∀ a, KeepsRoles (k a)) :
    KeepsRoles (x >>= k) := by
  intro w i
  have hfirst := hx w i
  rw [exec_bind]
  cases hp : exec x w with
  | mk r w₁ =>
    rw [hp] at hfirst
    cases r with
    | ok a => exact (hk a w₁ i).trans hfirst
    | error f => exact hfirst

theorem modifyNode (f : Node → Node) (id : Nat) (hf : ∀ n, (f n).role = n.role) :
    KeepsRoles (Host.modifyNode id f : Host S Unit) := by
  intro w i
  rw [exec_modifyNode, List.getElem?_modify]
  split
  · cases w.nodes[i]? <;> simp [hf]
  · cases w.nodes[i]? <;> rfl

theorem releaseEach {destroy : Nat → Host S Unit} (hdestroy : ∀ id, KeepsRoles (destroy id))
    (owned : List Value) : KeepsRoles (Host.releaseEach destroy owned) := by
  induction owned with
  | nil => exact looks (.pure ())
  | cons v rest ih =>
    refine bind (looks (.resource v)) fun r => ?_
    dsimp only
    split
    · exact bind (hdestroy r.1) fun _ => ih
    · exact ih

theorem releaseOwnedWith {destroy : Nat → Host S Unit} (hdestroy : ∀ id, KeepsRoles (destroy id)) (id : Nat) :
    KeepsRoles (Host.releaseOwnedWith destroy id) := by
  refine bind ?_ fun owned => releaseEach hdestroy _
  refine bind (looks (.node id)) fun n => bind ?_ fun _ => looks (.pure _)
  exact modifyNode _ id fun _ => rfl

theorem destroyWithin (fuel id : Nat) : KeepsRoles (Host.destroyWithin E fuel id) := by
  induction fuel generalizing id with
  | zero => exact looks (.fail _)
  | succ fuel ih =>
    refine bind (looks (.liveHandle id)) fun handle => bind (releaseOwnedWith ih id) fun _ => ?_
    refine bind ?_ fun _ => bind (looks (.node id)) fun n => bind (fun _ _ => rfl) fun _ => ?_
    · exact modifyNode _ id fun _ => rfl
    refine bind ?_ fun _ => ?_
    · intro w i
      rw [exec_dropHandle_any]
    split
    · exact modifyNode _ _ fun _ => rfl
    · exact looks (.pure _)

theorem releaseOwned (id : Nat) : KeepsRoles (Host.releaseOwned E id) :=
  releaseOwnedWith (fun id => bind (fun _ _ => rfl) fun _ => destroyWithin _ id) id

theorem dropAll (handles : List Value) : KeepsRoles (Args.dropAll E handles) := by
  intro w i
  rw [exec_dropAll_any]

end KeepsRoles

/-- The arguments of a call that have been released. -/
def IsShut (id : Nat) (w : World S) : Prop :=
  ∃ call, w.nodes[id]?.map Node.role = some (.args call) ∧ call.released = true

theorem exec_liveCall_some {call : Call} {w' : World S} (h : exec (liveCall id) w = (.ok call, w')) :
    w' = w ∧ call.released = false ∧ ∃ n, w.nodes[id]? = some n ∧ n.role = .args call := by
  cases hn : w.nodes[id]? with
  | none =>
    simp only [liveCall, checkLive, exec_bind, exec_node_none hn] at h
    cases h
  | some n =>
    cases hlive : n.isLive with
    | false =>
      simp only [liveCall, exec_bind, exec_checkLive_dead hn hlive] at h
      cases h
    | true =>
      simp only [liveCall, callOf, exec_bind, exec_checkLive hn hlive, exec_node_some hn] at h
      split at h
      · next call' hrole =>
        obtain ⟨hcall, rfl⟩ := Prod.mk.inj h
        obtain rfl := Except.ok.inj hcall
        exact ⟨rfl, by simpa [Node.isLive, hrole] using hlive, n, rfl, hrole⟩
      · cases h

/-- Open arguments whose release begins are released, however it ends. -/
theorem shut_of_open {n : Node} {call : Call} (hn : w.nodes[id]? = some n) (hrole : n.role = .args call)
    (hopen : call.released = false) : IsShut id (exec (Args.release E id) w).2 := by
  have hrest := KeepsRoles.bind (KeepsRoles.releaseOwned (E := E) id) fun _ =>
    KeepsRoles.bind (.looks (.callOf id)) fun call => KeepsRoles.dropAll (E := E) (Args.unreadBlocks call)
  rw [exec_release_open hn hrole hopen]
  refine ⟨{ call with released := true }, (hrest _ id).trans ?_, rfl⟩
  rw [markReleased_self call hn]
  rfl

/-- A release that succeeds leaves the arguments released. -/
theorem shut_of_release {w₀ w₁ : World S} (h : exec (Args.release E id) w₀ = (.ok (), w₁)) :
    IsShut id w₁ := by
  cases hlive : exec (liveCall id) w₀ with
  | mk r w =>
    cases r with
    | error f =>
      simp only [Args.release, exec_bind, hlive] at h
      cases h
    | ok call =>
      obtain ⟨rfl, hopen, n, hn, hrole⟩ := exec_liveCall_some hlive
      have hshut := shut_of_open (E := E) hn hrole hopen
      rwa [h] at hshut

/-- So are the arguments of a call whose release has been seen to. -/
theorem shut_of_releaseArgs {n : Node} (hn : w.nodes[id]? = some n) (hkind : n.role.kind = .args) :
    IsShut id (exec (releaseArgs E id) w).2 := by
  obtain ⟨call, hrole⟩ := args_of_kind hkind
  rw [releaseArgs, exec_bind, exec_callOf hn hrole]
  cases hreleased : call.released with
  | true =>
    simp only [hreleased, if_true, exec_pure]
    exact ⟨call, by rw [hn, Option.map_some, hrole], hreleased⟩
  | false =>
    simp only [hreleased, Bool.false_eq_true, if_false]
    exact shut_of_open hn hrole hreleased

/-! ### Uses of released arguments -/

/-- A computation that calls no engine, and under which released arguments stay so. -/
def Harmless (id : Nat) (x : Host S α) : Prop :=
  ∀ w, IsShut id w → (exec x w).2.engine = w.engine ∧ IsShut id (exec x w).2

namespace Harmless

theorem looks {x : Host S α} (hx : Looks x) : Harmless id x := by
  intro w h
  rw [hx w]
  exact ⟨rfl, h⟩

theorem bind {x : Host S α} {k : α → Host S β} (hx : Harmless id x) (hk : ∀ a, Harmless id (k a)) :
    Harmless id (x >>= k) := by
  intro w h
  obtain ⟨hengine, hshut⟩ := hx w h
  rw [exec_bind]
  cases hp : exec x w with
  | mk r w₁ =>
    rw [hp] at hengine hshut
    cases r with
    | error f => exact ⟨hengine, hshut⟩
    | ok a =>
      obtain ⟨hnext, hshut⟩ := hk a w₁ hshut
      exact ⟨hnext.trans hengine, hshut⟩

theorem keepsRoles {x : Host S α} (hx : KeepsRoles x) (hengine : ∀ w, (exec x w).2.engine = w.engine) :
    Harmless id x := by
  intro w h
  obtain ⟨call, hrole, hreleased⟩ := h
  exact ⟨hengine w, call, (hx w id).trans hrole, hreleased⟩

theorem addNode (role : Role) (handle : Option Value) :
    Harmless id (Host.addNode role handle : Host S Nat) := by
  intro w h
  obtain ⟨call, hrole, hreleased⟩ := h
  obtain ⟨n, hn, hrole⟩ := Option.map_eq_some_iff.mp hrole
  refine ⟨rfl, call, ?_, hreleased⟩
  rw [exec_addNode, List.getElem?_append_left (List.getElem?_eq_some_iff.mp hn).1, hn, Option.map_some, hrole]

theorem receive (owner : Nat) (value block : Value) :
    Harmless id (Host.receive owner value block : Host S Value) := by
  unfold Host.receive
  split
  · exact looks (.check _)
  · refine bind (looks (.checkLive owner)) fun _ => bind (addNode _ _) fun b => ?_
    refine bind (bind (looks (.checkLive owner)) fun _ => ?_) fun _ => looks (.pure _)
    exact keepsRoles (KeepsRoles.modifyNode _ _ fun _ => rfl) fun _ => rfl

/-- Taking note of a value that has been read. -/
theorem keep (j i : Nat) (v : Value) : Harmless id (do
    let call ← callOf j
    setRole j (.args { call with decoded := call.decoded ++ [(i, v)] })
    pure v : Host S Value) := by
  intro w h
  rw [exec_bind]
  by_cases hj : j = id
  · subst hj
    obtain ⟨call, hrole, hreleased⟩ := h
    obtain ⟨n, hn, hrole⟩ := Option.map_eq_some_iff.mp hrole
    rw [exec_callOf hn hrole]
    refine ⟨rfl, { call with decoded := call.decoded ++ [(i, v)] }, ?_, hreleased⟩
    show (w.nodes.modify j _)[j]?.map Node.role = _
    rw [List.getElem?_modify_eq, hn]
    rfl
  · have hlooks := Looks.callOf j w
    cases hcall : exec (callOf j) w with
    | mk r w₁ =>
      rw [hcall] at hlooks
      obtain rfl : w₁ = w := hlooks
      cases r with
      | error f => exact ⟨rfl, h⟩
      | ok call =>
        obtain ⟨shut, hrole, hreleased⟩ := h
        refine ⟨rfl, shut, ?_, hreleased⟩
        show (w₁.nodes.modify j _)[id]?.map Node.role = _
        simpa [hj] using hrole

theorem valueAt (j i : Nat) : Harmless id (Args.valueAt j i : Host S Value) := by
  refine bind (looks (.callOf j)) fun call => ?_
  split
  · exact looks (.pure _)
  · exact looks (.fail _)
  · exact bind (receive j _ _) fun v => keep j i v

theorem cursors (f : World S → World S) (hnodes : ∀ w, (f w).nodes = w.nodes)
    (hengine : ∀ w, (f w).engine = w.engine) : Harmless id (modify f : Host S Unit) := by
  refine keepsRoles (fun w i => ?_) hengine
  rw [exec_modify, hnodes]

theorem advance (cursor : Nat) (c : Cursor) :
    Harmless id (Args.advance cursor c : Host S (Option Value)) := by
  refine bind (looks (.callOf c.args)) fun call => ?_
  split
  · exact looks (.pure _)
  · refine bind (valueAt _ _) fun v => bind (cursors _ (fun _ => rfl) fun _ => rfl) fun _ => looks (.pure _)

theorem next (cursor : Nat) : Harmless id (Args.next cursor : Host S (Option Value)) := by
  refine bind (fun w h => ⟨rfl, h⟩) fun w => ?_
  split
  · exact looks (.fail _)
  · split
    · exact looks (.pure _)
    · refine bind (cursors _ (fun _ => rfl) fun _ => rfl) fun _ => ?_
      split
      · exact advance _ _
      · exact bind (looks (.checkLive _)) fun _ => advance _ _

end Harmless

/-- One use of the arguments of a call. -/
inductive ArgsUse where
  | read (a : Access)
  | release

namespace ArgsUse

def run (E : Engine S.State) (base id : Nat) : ArgsUse → Host S (Option Value)
  | .read a => a.run base id
  | .release => (fun _ => none) <$> Args.release E id

/-- The world after uses of the arguments, however they end. -/
def after (E : Engine S.State) (base id : Nat) : List ArgsUse → World S → World S
  | [], w => w
  | use :: rest, w => after E base id rest (exec (use.run E base id) w).2

/-- It asks whether the arguments are live before anything else. -/
def Asks : ArgsUse → Prop
  | .read .iterate | .read (.next _) => False
  | _ => True

/-- What would read an argument: every use but the start of an iteration, and going on with one only until
its end has been seen. -/
def Reads (base id : Nat) (w : World S) : ArgsUse → Prop
  | .read .iterate => False
  | .read (.next k) => ∃ c, w.cursors[base + k]? = some c ∧ c.args = id ∧ c.finished = false
  | _ => True

/-- It goes on with an iteration that has handed out something. -/
def Resumes (base : Nat) (w : World S) : ArgsUse → Prop
  | .read (.next k) => ∃ c, w.cursors[base + k]? = some c ∧ c.started = true
  | _ => False

/-- It goes on with an iteration that is at a callback which has not been read. -/
def MeetsCallback (base id : Nat) (w : World S) : ArgsUse → Prop
  | .read (.next k) => ∃ c n call entry, w.cursors[base + k]? = some c ∧ c.args = id ∧ c.finished = false ∧
      w.nodes[id]? = some n ∧ n.role = .args call ∧ call.entries[c.position]? = some entry ∧
      entry.block ≠ .null ∧ call.decoded.lookup c.position = none
  | _ => False

/-- It is refused as a use after release, and every object is as it was. -/
def Refused (E : Engine S.State) (base id : Nat) (w : World S) (use : ArgsUse) : Prop :=
  (exec (use.run E base id) w).1 = .error (.host (.useAfterDestroy .args)) ∧
    (exec (use.run E base id) w).2.nodes = w.nodes

end ArgsUse

theorem IsShut.node (h : IsShut id w) :
    ∃ n call, w.nodes[id]? = some n ∧ n.role = .args call ∧ n.isLive = false := by
  obtain ⟨call, hrole, hreleased⟩ := h
  obtain ⟨n, hn, hrole⟩ := Option.map_eq_some_iff.mp hrole
  exact ⟨n, call, hn, hrole, by simp [Node.isLive, hrole, hreleased]⟩

theorem IsShut.exec_checkLive (h : IsShut id w) :
    exec (checkLive id) w = (.error (.host (.useAfterDestroy .args)), w) := by
  obtain ⟨n, call, hn, hrole, hdead⟩ := h.node
  rw [exec_checkLive_dead hn hdead, hrole]
  rfl

theorem IsShut.exec_liveCall (h : IsShut id w) :
    exec (liveCall id) w = (.error (.host (.useAfterDestroy .args)), w) := by
  rw [liveCall, exec_bind, h.exec_checkLive]

/-- An iteration does not get past a callback that has not been read. -/
theorem IsShut.exec_advance_callback {cursor : Nat} {c : Cursor} {n : Node} {call : Call} {entry : Entry}
    (h : IsShut c.args w) (hn : w.nodes[c.args]? = some n) (hrole : n.role = .args call)
    (hentry : call.entries[c.position]? = some entry) (hblock : entry.block ≠ .null)
    (hunread : call.decoded.lookup c.position = none) :
    exec (Args.advance cursor c) w = (.error (.host (.useAfterDestroy .args)), w) := by
  have hvalue : exec (Args.valueAt c.args c.position) w =
      (.error (.host (.useAfterDestroy .args)), w) := by
    rw [Args.valueAt, exec_bind, exec_callOf hn hrole]
    simp only [hunread, hentry, receive_block hblock, wrapBlock, exec_bind, h.exec_checkLive]
  rw [Args.advance, exec_bind, exec_callOf hn hrole]
  simp only [hentry, exec_bind, hvalue]

/-- What is no iteration asks first whether the arguments are live. -/
theorem IsShut.exec_asking (h : IsShut id w) (base : Nat) {use : ArgsUse} (hasks : use.Asks) :
    exec (use.run E base id) w = (.error (.host (.useAfterDestroy .args)), w) := by
  have hcall := h.exec_liveCall
  cases use with
  | release => simp only [ArgsUse.run, exec_map, Args.release, exec_bind, hcall, Except.map]
  | read a =>
    cases a with
    | demand name =>
      simp only [ArgsUse.run, Access.run, exec_map, Args.demand, Args.lookup, exec_bind, hcall, Except.map]
    | maybe name fallback =>
      simp only [ArgsUse.run, Access.run, exec_map, Args.maybe, Args.lookup, exec_bind, hcall, Except.map]
    | size => simp only [ArgsUse.run, Access.run, exec_map, Args.size, exec_bind, hcall, Except.map]
    | contains name =>
      simp only [ArgsUse.run, Access.run, exec_map, Args.contains, exec_bind, hcall, Except.map]
    | iterate => cases hasks
    | next k => cases hasks

/-- No use calls the engine or opens the arguments again. -/
theorem IsShut.use (base : Nat) (use : ArgsUse) : Harmless id (use.run E base id) := by
  intro w h
  have hasking : use.Asks → (exec (use.run E base id) w).2.engine = w.engine ∧
      IsShut id (exec (use.run E base id) w).2 := by
    intro hasks
    rw [h.exec_asking base hasks]
    exact ⟨rfl, h⟩
  cases use with
  | release => exact hasking trivial
  | read a =>
    cases a with
    | iterate => exact ⟨rfl, h⟩
    | next k => exact Harmless.next (base + k) w h
    | _ => exact hasking trivial

theorem IsShut.after (h : IsShut id w) (base : Nat) (uses : List ArgsUse) :
    (ArgsUse.after E base id uses w).engine = w.engine ∧ IsShut id (ArgsUse.after E base id uses w) := by
  induction uses generalizing w with
  | nil => exact ⟨rfl, h⟩
  | cons use rest ih =>
    obtain ⟨hengine, hshut⟩ := IsShut.use (E := E) base use w h
    obtain ⟨hrest, hshut⟩ := ih hshut
    exact ⟨hrest.trans hengine, hshut⟩

/-- What reads is refused, unless it resumes an iteration. -/
theorem IsShut.refused (h : IsShut id w) (base : Nat) {use : ArgsUse} (hreads : use.Reads base id w)
    (hresumes : ¬ use.Resumes base w) : use.Refused E base id w := by
  have hasking : use.Asks → use.Refused E base id w := fun hasks =>
    ⟨by rw [h.exec_asking base hasks], by rw [h.exec_asking base hasks]⟩
  cases use with
  | release => exact hasking trivial
  | read a =>
    cases a with
    | iterate => cases hreads
    | next k =>
      obtain ⟨c, hc, rfl, hgoing⟩ := hreads
      have hfirst : c.started = false := by
        by_contra hstarted
        exact hresumes ⟨c, hc, by simpa using hstarted⟩
      have hshut : IsShut c.args (ending w (base + k) c) := h
      have hnext : exec (Args.next (base + k)) w =
          (.error (.host (.useAfterDestroy .args)), ending w (base + k) c) := by
        rw [exec_next_first hc hgoing hfirst, exec_bind, hshut.exec_checkLive]
      exact ⟨congrArg Prod.fst hnext, congrArg (fun p => p.2.nodes) hnext⟩
    | _ => exact hasking trivial

/-- No use hands out a callback that was not read before the release. -/
theorem IsShut.refused_callback (h : IsShut id w) (base : Nat) {use : ArgsUse}
    (hmeets : use.MeetsCallback base id w) : use.Refused E base id w := by
  cases use with
  | release => cases hmeets
  | read a =>
    cases a with
    | next k =>
      obtain ⟨c, n, call, entry, hc, rfl, hgoing, hn, hrole, hentry, hblock, hunread⟩ := hmeets
      have hshut : IsShut c.args (ending w (base + k) c) := h
      have hadvance : exec (Args.advance (base + k) c) (ending w (base + k) c) =
          (.error (.host (.useAfterDestroy .args)), ending w (base + k) c) :=
        hshut.exec_advance_callback hn hrole hentry hblock hunread
      have hnext : exec (Args.next (base + k)) w =
          (.error (.host (.useAfterDestroy .args)), ending w (base + k) c) := by
        cases hstarted : c.started with
        | false => rw [exec_next_first hc hgoing hstarted, exec_bind, hshut.exec_checkLive]
        | true => rw [exec_next_later hc hgoing hstarted, hadvance]
      exact ⟨congrArg Prod.fst hnext, congrArg (fun p => p.2.nodes) hnext⟩
    | _ => cases hmeets

/-- After a release that succeeded and any further uses, no use calls the engine; what would read an argument
is refused and reads nothing, unless it goes on with an iteration that has handed out something, and no
iteration gets past a callback that was not read before. -/
theorem release_bars {w₀ w₁ : World S.watched}
    (hrelease : exec (Args.release E.watched id) w₀ = (.ok (), w₁)) (base : Nat)
    (uses : List ArgsUse) (use : ArgsUse) :
    let w := ArgsUse.after E.watched base id uses w₁
    (exec (use.run E.watched base id) w).2.engine = w₁.engine ∧
      (use.Reads base id w → ¬ use.Resumes base w → use.Refused E.watched base id w) ∧
      (use.MeetsCallback base id w → use.Refused E.watched base id w) := by
  obtain ⟨hengine, hshut⟩ := (shut_of_release hrelease).after (E := E.watched) base uses
  have huse := IsShut.use (E := E.watched) base use _ hshut
  exact ⟨huse.1.trans hengine, hshut.refused base, hshut.refused_callback base⟩

/-! ### An iteration over three arguments -/

namespace Cabinet

/-- A number on the wire. -/
def number (i : Int) : Value :=
  .mapping .plain [(.str "Prim", .mapping .plain [(.str "Number", .int i)])]

/-- A call with two numbers and a callback, all of them under one name. -/
def threefold : Call :=
  ⟨⟨[⟨.str "f", .primitive .number, true, true⟩], .primitive .number, false⟩,
    [⟨.str "f", number 1, .null⟩, ⟨.str "f", number 2, .null⟩, ⟨.str "f", .null, .int 7⟩], [], false⟩

def called : World (Embedding.watched ⟨Cabinet, Unit, Unit⟩) :=
  ⟨[⟨.args threefold, none, []⟩], [], [], ⟨⟨[], []⟩, ⟨[], []⟩⟩, (), []⟩

/-- Where an iteration has handed out the first argument. -/
def begun : World (Embedding.watched ⟨Cabinet, Unit, Unit⟩) :=
  ArgsUse.after engine.watched 0 0 [.read .iterate, .read (.next 0)] called

def closed : World (Embedding.watched ⟨Cabinet, Unit, Unit⟩) :=
  (exec (Args.release engine.watched 0) begun).2

/-- An iteration that has begun hands out the next number after the release as well. -/
theorem resumes_after_release :
    exec (Args.release engine.watched 0) begun = (.ok (), closed) ∧
      (ArgsUse.read (.next 0)).Reads 0 0 closed ∧
      (exec ((ArgsUse.read (.next 0)).run engine.watched 0 0) closed).1 =
        .ok (some (.tuple [.str "f", .int 2])) := by
  refine ⟨Prod.ext (by cbv) rfl, ⟨⟨0, 1, true, false⟩, by cbv, rfl, rfl⟩, by cbv⟩

/-- It stops before the callback. -/
theorem bars_closed :
    exec (Args.release engine.watched 0) begun = (.ok (), closed) ∧
      (ArgsUse.read (.demand (.str "f"))).Refused engine.watched 0 0
        (ArgsUse.after engine.watched 0 0 [.read (.next 0)] closed) ∧
      (ArgsUse.read (.next 0)).Refused engine.watched 0 0
        (ArgsUse.after engine.watched 0 0 [.read (.next 0)] closed) := by
  have hrelease : exec (Args.release engine.watched 0) begun = (.ok (), closed) := Prod.ext (by cbv) rfl
  have hbars := release_bars hrelease 0 [.read (.next 0)]
  refine ⟨hrelease, (hbars (.read (.demand (.str "f")))).2.1 trivial id, ?_⟩
  let read : Call := { threefold with decoded := [(0, .int 1), (1, .int 2)], released := true }
  refine (hbars (.read (.next 0))).2.2 ⟨⟨0, 2, true, false⟩, ⟨.args read, none, []⟩, read,
    ⟨.str "f", .null, .int 7⟩, by cbv, rfl, rfl, by cbv, rfl, rfl, by simp, rfl⟩

end Cabinet

end EngineHost
