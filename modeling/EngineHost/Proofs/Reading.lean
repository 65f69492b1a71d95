import EngineHost.Proofs.Handover

/-!
Reading the arguments of a call. A value that is read for the first time leaves the table of what has not
been read; a callback among them goes over to an object that the call owns.
-/
namespace EngineHost

open Host

variable {S : Embedding} {E : Engine S.State} {B : Books S.State} {base : Nat}
  {may : ResourceKind → Prop} {mine : Option Nat} {others : Token → Prop} {flying : List Token}
  {α β : Type} {named' : β → List Token} {w w' w₀ : World S}

namespace Host

/-- Arguments of which one more has been read. -/
def readRole (call : Call) (i : Nat) (v : Value) : Role :=
  .args { call with decoded := call.decoded ++ [(i, v)] }

theorem lookup_read {call : Call} {i j : Nat} {v : Value} :
    (call.decoded ++ [(i, v)]).lookup j = none ↔ call.decoded.lookup j = none ∧ j ≠ i := by
  rw [List.lookup_append, Option.or_eq_none_iff]
  refine and_congr_right fun _ => ?_
  by_cases hj : j = i
  · simp [hj]
  · have hne : (j == i) = false := by simpa using hj
    simp [List.lookup_cons, hne, hj]

/-- A step of an iteration that has begun and not ended. -/
def Args.advance (cursor : Nat) (c : Cursor) : Host S (Option Value) := do
  match (← callOf c.args).entries[c.position]? with
  | none => pure none
  | some entry =>
    let v ← Args.valueAt c.args c.position
    Args.setCursor cursor { c with position := c.position + 1, started := true }
    return some (.tuple [entry.name, v])

/-- What the position held, and nothing else, is no longer held. -/
theorem holds_read {call : Call} {i : Nat} {v : Value} {n : Node} (hrole : n.role = .args call)
    (t : Token) (q : Option Nat) :
    Holds { n with role := readRole call i v } t q ↔ Holds n t q ∧ q ≠ some i := by
  cases q with
  | none => simp [Holds, readRole, hrole, Role.kind]
  | some j =>
    simp only [Holds, readRole, hrole, Role.args.injEq, ne_eq, Option.some.injEq]
    constructor
    · intro h
      obtain ⟨call', entry, rfl, hopen, hlookup, hrest⟩ := h
      obtain ⟨hlookup, hne⟩ := lookup_read.mp hlookup
      exact ⟨⟨call, entry, rfl, hopen, hlookup, hrest⟩, hne⟩
    · intro h
      obtain ⟨⟨call', entry, rfl, hopen, hlookup, hrest⟩, hne⟩ := h
      exact ⟨_, entry, rfl, hopen, lookup_read.mpr ⟨hlookup, hne⟩, hrest⟩

theorem adopted_modify {nodes : List Node} {p : Nat} {v : Value} {b : Node} (role : Role)
    (hp : p < nodes.length) :
    (adopted (some p) v (nodes ++ [b])).modify p (fun n => { n with role }) =
      adopted (some p) v (nodes.modify p (fun n => { n with role }) ++ [b]) := by
  apply List.ext_getElem?
  intro j
  simp only [adopted, List.getElem?_modify]
  by_cases hj : p = j
  · subst hj
    rw [List.getElem?_append_left hp, List.getElem?_append_left (by rwa [List.length_modify]),
      List.getElem?_modify_eq]
    cases nodes[p]? <;> simp
  · simp [hj, List.getElem?_append]

end Host

/-- A value without a callback is read. -/
theorem recast_read {n : Node} {call : Call} {i : Nat} {entry : Entry} {v : Value}
    (hrole : n.role = .args call) (hentry : call.entries[i]? = some entry) (hnull : entry.block = .null) :
    Recast n (readRole call i v) where
  fixed := by rw [hrole]; rfl
  live := by simp [Node.isLive, hrole, readRole]
  holds := by
    intro t q
    rw [holds_read hrole]
    refine and_iff_left_of_imp ?_
    intro hh hq
    subst hq
    obtain ⟨call', entry', hrole', -, -, hentry', hne, -⟩ := hh
    obtain rfl := Role.args.inj (hrole.symm.trans hrole')
    obtain rfl := Option.some.inj (hentry.symm.trans hentry')
    exact hne hnull

/-- A callback is read: its handle leaves the table and is on its way to an object. -/
theorem Accounts.read (h : Accounts B base may others flying w) {id i : Nat} {n : Node} {call : Call}
    {entry : Entry} (mine : Option Nat) (v : Value) (hb : base ≤ id) (hn : w.nodes[id]? = some n)
    (hrole : n.role = .args call)
    (hopen : call.released = false) (hunread : call.decoded.lookup i = none)
    (hentry : call.entries[i]? = some entry) (hne : entry.block ≠ .null) :
    Accounts B base may others ([(.block, entry.block)] ++ flying)
      { w with nodes := w.nodes.modify id fun n => { n with role := readRole call i v } } ∧
    Follows B base mine w
      { w with nodes := w.nodes.modify id fun n => { n with role := readRole call i v } } := by
  have hholds : Holds n (.block, entry.block) (some i) :=
    ⟨call, entry, hrole, hopen, hunread, hentry, hne, rfl⟩
  have hfixed : fixedRole (readRole call i v) = fixedRole n.role := by
    rw [hrole]
    rfl
  have hlive : Node.isLive { n with role := readRole call i v } = n.isLive := by
    simp [Node.isLive, hrole, readRole]
  refine ⟨h.renew ?_ rfl rfl ?_, .change h.valid ?_ rfl rfl⟩
  · refine nodewise_modify id _ (fun _ _ => ⟨rfl, rfl, rfl, fun _ => rfl⟩) ?_
    intro k hk
    obtain rfl := Option.some.inj (hn.symm.trans hk)
    exact ⟨hfixed, rfl, rfl, fun _ => hlive⟩
  · refine h.ledger.lift (fun _ p => p = (id, some i)) ?_ (List.nodup_singleton _) ?_
    · intro t p
      obtain ⟨j, q⟩ := p
      rw [held_modify hn]
      by_cases hj : j = id
      · subst hj
        rw [if_pos rfl, held_at hn, holds_read hrole, and_assoc]
        simp
      · rw [if_neg hj]
        simp [hj]
    · intro t
      rw [List.mem_singleton]
      constructor
      · intro ht
        subst ht
        exact ⟨(id, some i), (held_at hn _ _).mpr ⟨hb, hholds⟩, rfl⟩
      · intro ht
        obtain ⟨p, hp, rfl⟩ := ht
        obtain ⟨-, call', entry', hrole', -, -, hentry', -, rfl⟩ := (held_at hn _ _).mp hp
        obtain rfl := Role.args.inj (hrole.symm.trans hrole')
        obtain rfl := Option.some.inj (hentry.symm.trans hentry')
        rfl
  · refine nodewise_modify id _ (fun _ _ => ⟨.refl _ _, fun _ _ hh => hh, fun ho => ho⟩) ?_
    intro k hk
    obtain rfl := Option.some.inj (hn.symm.trans hk)
    refine ⟨⟨hfixed, .inl rfl, ?_⟩, fun t q hh => ((holds_read hrole t q).mp hh).1, ?_⟩
    · intro hl
      exact .inl (hlive.trans hl)
    · intro ho
      obtain ⟨hkind, hl⟩ := (isOpen_iff _).mp ho
      exact (isOpen_iff n).mpr ⟨by rw [hrole]; rfl, hlive.symm.trans hl⟩

namespace Kept

/-- A callback that has not been read gets an object that the call owns. -/
theorem wrapUnread {id i : Nat} {n : Node} {call : Call} {entry : Entry} (hb : base ≤ id)
    (hn : w.nodes[id]? = some n) (hrole : n.role = .args call) (hopen : call.released = false)
    (hunread : call.decoded.lookup i = none) (hentry : call.entries[i]? = some entry)
    (hne : entry.block ≠ .null) (h : Accounts B base may others flying w) :
    Kept B base may mine others flying nothing w (exec (do
      let v ← Host.wrapBlock id entry.block
      let call ← callOf id
      setRole id (.args { call with decoded := call.decoded ++ [(i, v)] })
      pure v) w) := by
  let v := refOf w.nodes.length .block
  let wrapped : World S := { w with
    nodes := adopted (some id) v (w.nodes ++ [⟨.block id, some entry.block, []⟩]) }
  let read : World S := { w with nodes := w.nodes.modify id fun n => { n with role := readRole call i v } }
  let after : World S := { w with
    nodes := adopted (some id) v (read.nodes ++ [⟨.block id, some entry.block, []⟩]) }
  have hlt : id < w.nodes.length := (List.getElem?_eq_some_iff.mp hn).1
  have hlive : n.isLive := by simp [Node.isLive, hrole, hopen]
  have hlength : read.nodes.length = w.nodes.length := List.length_modify ..
  have hread : read.nodes[id]? = some { n with role := readRole call i v } := by simp [read, hn]
  obtain ⟨hreadA, hreadF⟩ := h.read mine v hb hn hrole hopen hunread hentry hne
  have hhoused : Follows B base mine w after ∧ Accounts B base may others flying after := by
    refine housed (w := read) (.block id) entry.block ?_ rfl rfl
      (by simp [Role.kind]) ?_ ?_ (.inl rfl) hreadF hreadA
    · rw [hlength]
      rfl
    · intro p hp
      obtain rfl := Option.some.inj hp
      refine ⟨hb, ⟨_, hread, ?_, .inr (.inr rfl)⟩, ?_⟩
      · simp [Node.isLive, readRole, hopen]
      · intro _
        exact ⟨id, some i, n, hb, hn, ⟨call, entry, hrole, hopen, hunread, hentry, hne, rfl⟩, rfl⟩
    · intro issued types symbols hscope
      cases hscope
  have hexec : exec (do
      let v ← Host.wrapBlock id entry.block
      let call ← callOf id
      setRole id (.args { call with decoded := call.decoded ++ [(i, v)] })
      pure v) w = (.ok v, after) := by
    have hwrap : exec (Host.wrapBlock id entry.block) w = (.ok v, wrapped) := exec_wrapBlock hn hlive hne
    have hwrapped : wrapped.nodes[id]? = some (given (some id) v id n) := by
      change (adopted (some id) v (w.nodes ++ [⟨.block id, some entry.block, []⟩]))[id]? = _
      exact added_old hn
    have hcall : exec (callOf id) wrapped = (.ok call, wrapped) := exec_callOf hwrapped hrole
    have hafter : { wrapped with
        nodes := wrapped.nodes.modify id fun n => { n with role := readRole call i v } } = after := by
      simp only [wrapped, after, read, adopted_modify _ hlt]
    simp only [exec_bind, hwrap, hcall, exec_setRole, exec_pure]
    rw [← hafter]
    rfl
  rw [hexec]
  exact .ok hhoused.1 hhoused.2

/-- The value at a position is decoded or wrapped when it is first read. -/
theorem valueAt {id i : Nat} (hb : base ≤ id) (hf : Follows B base mine w₀ w)
    (h : Accounts B base may others flying w) :
    Kept B base may mine others flying nothing w₀ (exec (Args.valueAt id i) w) := by
  refine callOf_bind hf h fun n call hn hrole => ?_
  cases hread : call.decoded.lookup i with
  | some v => exact .done hf h
  | none =>
    cases hentry : call.entries[i]? with
    | none => exact .fail rfl hf h
    | some entry =>
      by_cases hnull : entry.block = .null
      · dsimp only
        rw [hnull]
        refine check_bind (Wire.tells_decode _) hf h fun v _ => ?_
        refine callOf_bind hf h fun n' call' hn' hrole' => ?_
        obtain rfl := Option.some.inj (hn.symm.trans hn')
        obtain rfl := Role.args.inj (hrole.symm.trans hrole')
        refine bind (recast hn (recast_read hrole hentry hnull) hf h) fun _ w₁ _ hf₁ h₁ => ?_
        exact .done hf₁ h₁
      · dsimp only
        rw [receive_block hnull]
        by_cases hopen : call.released = false
        · exact .after hf (wrapUnread hb hn hrole hopen hread hentry hnull h)
        · unfold Host.wrapBlock
          rw [bind_assoc]
          refine checkLive_bind hf h fun n' hn' hlive => ?_
          obtain rfl := Option.some.inj (hn.symm.trans hn')
          simp [Node.isLive, hrole, hopen] at hlive

theorem valuesAt {id : Nat} (hb : base ≤ id) (positions : List Nat) (hf : Follows B base mine w₀ w)
    (h : Accounts B base may others flying w) :
    Kept B base may mine others flying nothing w₀ (exec (Args.valuesAt id positions) w) := by
  induction positions generalizing w with
  | nil => exact .done hf h
  | cons i rest ih =>
    refine bind (valueAt hb hf h) fun v w₁ _ hf₁ h₁ => ?_
    refine bind (ih hf₁ h₁) fun vs w₂ _ hf₂ h₂ => ?_
    exact .done hf₂ h₂

theorem liveCall_bind {id : Nat} {k : Call → Host S β} (hf : Follows B base mine w₀ w)
    (h : Accounts B base may others flying w)
    (hk : ∀ n call, w.nodes[id]? = some n → n.role = .args call →
      Kept B base may mine others flying named' w₀ (exec (k call) w)) :
    Kept B base may mine others flying named' w₀ (exec (liveCall id >>= k) w) := by
  unfold liveCall
  rw [bind_assoc]
  exact checkLive_bind hf h fun n _ _ => callOf_bind hf h hk

theorem lookup {id : Nat} {name : Value} (hb : base ≤ id) (hf : Follows B base mine w₀ w)
    (h : Accounts B base may others flying w) :
    Kept B base may mine others flying nothing w₀ (exec (Args.lookup id name) w) := by
  refine liveCall_bind hf h fun n call _ _ => ?_
  split
  · exact check_bind (Signature.tells_name _) hf h fun _ _ => .fail rfl hf h
  · split
    · exact .done hf h
    · split
      · refine bind (valuesAt hb _ hf h) fun vs w₁ _ hf₁ h₁ => ?_
        exact .done hf₁ h₁
      · exact valueAt hb hf h

theorem demand {id : Nat} {name : Value} (hb : base ≤ id) (hf : Follows B base mine w₀ w)
    (h : Accounts B base may others flying w) :
    Kept B base may mine others flying nothing w₀ (exec (Args.demand id name) w) := by
  refine bind (lookup hb hf h) fun v w₁ _ hf₁ h₁ => ?_
  split
  · exact .fail rfl hf₁ h₁
  · exact .done hf₁ h₁

theorem maybe {id : Nat} {name fallback : Value} (hb : base ≤ id) (hf : Follows B base mine w₀ w)
    (h : Accounts B base may others flying w) :
    Kept B base may mine others flying nothing w₀ (exec (Args.maybe id name fallback) w) := by
  refine bind (lookup hb hf h) fun v w₁ _ hf₁ h₁ => ?_
  split
  · exact .done hf₁ h₁
  · exact .done hf₁ h₁

theorem size {id : Nat} (hf : Follows B base mine w₀ w) (h : Accounts B base may others flying w) :
    Kept B base may mine others flying nothing w₀ (exec (Args.size id) w) :=
  liveCall_bind hf h fun _ _ _ _ => .done hf h

theorem contains {id : Nat} {name : Value} (hf : Follows B base mine w₀ w)
    (h : Accounts B base may others flying w) :
    Kept B base may mine others flying nothing w₀ (exec (Args.contains id name) w) :=
  liveCall_bind hf h fun _ _ _ _ => .done hf h

theorem items {id : Nat} (hb : base ≤ id) (hf : Follows B base mine w₀ w)
    (h : Accounts B base may others flying w) :
    Kept B base may mine others flying nothing w₀ (exec (Args.items id) w) := by
  refine liveCall_bind hf h fun n call _ _ => ?_
  refine bind (valuesAt hb _ hf h) fun vs w₁ _ hf₁ h₁ => ?_
  exact .done hf₁ h₁

theorem iterate {id : Nat} (hf : Follows B base mine w₀ w) (h : Accounts B base may others flying w) :
    Kept B base may mine others flying nothing w₀ (exec (Args.iterate id) w) :=
  aside (exec_modifyGet _ w) rfl rfl rfl hf h

theorem setCursor {cursor : Nat} {c : Cursor} (hf : Follows B base mine w₀ w)
    (h : Accounts B base may others flying w) :
    Kept B base may mine others flying nothing w₀ (exec (Args.setCursor cursor c) w) :=
  aside (exec_modify _ w) rfl rfl rfl hf h

theorem advance {cursor : Nat} {c : Cursor} (hb : base ≤ c.args) (hf : Follows B base mine w₀ w)
    (h : Accounts B base may others flying w) :
    Kept B base may mine others flying nothing w₀ (exec (Args.advance cursor c) w) := by
  refine callOf_bind hf h fun n call _ _ => ?_
  split
  · exact .done hf h
  · refine bind (valueAt hb hf h) fun v w₁ _ hf₁ h₁ => ?_
    refine bind (setCursor hf₁ h₁) fun _ w₂ _ hf₂ h₂ => ?_
    exact .done hf₂ h₂

/-- A step of an iteration, over arguments that have been released as well. -/
theorem next {cursor : Nat} (hb : ∀ c, w.cursors[cursor]? = some c → base ≤ c.args)
    (hf : Follows B base mine w₀ w) (h : Accounts B base may others flying w) :
    Kept B base may mine others flying nothing w₀ (exec (Args.next cursor) w) := by
  unfold Args.next
  rw [exec_bind, exec_get]
  dsimp only
  cases hc : w.cursors[cursor]? with
  | none => exact .fail rfl hf h
  | some c =>
    have hb := hb c hc
    dsimp only
    split
    · exact .done hf h
    · refine bind (setCursor hf h) fun _ w₁ _ hf₁ h₁ => ?_
      split
      · exact advance hb hf₁ h₁
      · exact checkLive_bind hf₁ h₁ fun _ _ _ => advance hb hf₁ h₁

end Kept

end EngineHost
