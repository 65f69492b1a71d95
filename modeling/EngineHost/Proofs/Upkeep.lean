import EngineHost.Proofs.Releases
import EngineHost.Proofs.Messages

/-!
Operations of the library keep the accounts. Each is taken apart into calls of the engine, changes of one
object and checks, and what it leaves is related to the world it started in.
-/
namespace EngineHost

open Host

variable {S : Embedding} {E : Engine S.State} {B : Books S.State} {base : Nat}
  {may : ResourceKind → Prop} {mine : Option Nat} {others : Token → Prop} {flying : List Token}
  {α β : Type} {named : α → List Token} {named' : β → List Token} {w w' w₀ : World S}

variable (B base may mine others flying named) in
/-- The end of a computation that keeps the accounts: its result names handles that are still on their
way, and a failure leaves none and can be told. -/
structure Kept (w₀ : World S) (p : Except Failure α × World S) : Prop where
  follows : Follows B base mine w₀ p.2
  succeeds : ∀ a, p.1 = .ok a → Accounts B base may others (named a ++ flying) p.2
  fails : ∀ f, p.1 = .error f → f.Tellable ∧ Accounts B base may others flying p.2

/-- A result that names no handle. -/
def nothing (_ : α) : List Token := []

namespace Kept

theorem ok {a : α} (hf : Follows B base mine w₀ w)
    (h : Accounts B base may others (named a ++ flying) w) :
    Kept B base may mine others flying named w₀ (.ok a, w) := by
  refine ⟨hf, ?_, ?_⟩
  · intro b hb
    obtain rfl := Except.ok.inj hb
    exact h
  · intro f hf'
    cases hf'

theorem done {a : α} (hf : Follows B base mine w₀ w) (h : Accounts B base may others flying w) :
    Kept B base may mine others flying nothing w₀ (.ok a, w) :=
  .ok hf h

theorem error {f : Failure} (ht : f.Tellable) (hf : Follows B base mine w₀ w)
    (h : Accounts B base may others flying w) :
    Kept B base may mine others flying named w₀ (.error f, w) := by
  refine ⟨hf, ?_, ?_⟩
  · intro b hb
    cases hb
  · intro g hg
    obtain rfl := Except.error.inj hg
    exact ⟨ht, h⟩

theorem fail {f : Failure} (ht : f.Tellable) (hf : Follows B base mine w₀ w)
    (h : Accounts B base may others flying w) :
    Kept B base may mine others flying named w₀ (exec (Host.fail f) w) := by
  obtain ⟨g, hg, hiff⟩ := exec_fail (α := α) f w
  rw [hg]
  exact .error (hiff.mpr ht) hf h

theorem check {c : Checked α} (ht : Tells c) (hf : Follows B base mine w₀ w)
    (h : Accounts B base may others flying w) :
    Kept B base may mine others flying nothing w₀ (exec (Host.check c) w) := by
  cases c with
  | ok a => exact .ok hf h
  | error f => exact .fail (ht f rfl) hf h

theorem bind {x : Host S α} {k : α → Host S β}
    (hx : Kept B base may mine others flying named w₀ (exec x w))
    (hk : ∀ a w', exec x w = (.ok a, w') → Follows B base mine w₀ w' →
      Accounts B base may others (named a ++ flying) w' →
      Kept B base may mine others flying named' w₀ (exec (k a) w')) :
    Kept B base may mine others flying named' w₀ (exec (x >>= k) w) := by
  rw [exec_bind]
  obtain ⟨hf, hok, herr⟩ := hx
  cases hp : exec x w with
  | mk r w' =>
    rw [hp] at hf hok herr
    cases r with
    | ok a => exact hk a w' hp hf (hok a rfl)
    | error f => exact .error (herr f rfl).1 hf (herr f rfl).2

theorem attempt {x : Host S α} (hx : Kept B base may mine others flying nothing w₀ (exec x w)) :
    Kept B base may mine others flying nothing w₀ (exec (Host.attempt x) w) := by
  rw [exec_attempt]
  obtain ⟨hf, hok, herr⟩ := hx
  refine .ok hf ?_
  cases hr : (exec x w).1 with
  | ok a => exact hok a hr
  | error f => exact (herr f hr).2

theorem after {p : Except Failure α × World S} (hf : Follows B base mine w₀ w)
    (hp : Kept B base may mine others flying named w p) :
    Kept B base may mine others flying named w₀ p :=
  ⟨hf.trans hp.follows, hp.succeeds, hp.fails⟩

theorem widen {p : Except Failure α × World S} (hp : Kept B base may none others flying named w₀ p) :
    Kept B base may mine others flying named w₀ p :=
  ⟨hp.follows.widen, hp.succeeds, hp.fails⟩

theorem fail_bind {f : Failure} {k : α → Host S β} (ht : f.Tellable) (hf : Follows B base mine w₀ w)
    (h : Accounts B base may others flying w) :
    Kept B base may mine others flying named' w₀ (exec (Host.fail f >>= k) w) := by
  obtain ⟨g, hg, hiff⟩ := exec_fail (α := α) f w
  rw [exec_bind, hg]
  exact .error (hiff.mpr ht) hf h

theorem check_bind {c : Checked α} {k : α → Host S β} (ht : Tells c) (hf : Follows B base mine w₀ w)
    (h : Accounts B base may others flying w)
    (hk : ∀ a, c = .ok a → Kept B base may mine others flying named' w₀ (exec (k a) w)) :
    Kept B base may mine others flying named' w₀ (exec (Host.check c >>= k) w) := by
  cases c with
  | ok a =>
    rw [exec_bind, exec_check_ok]
    exact hk a rfl
  | error f => exact fail_bind (ht f rfl) hf h

/-- A call of the engine whose answer names what it issues. -/
theorem issue_bind {call : EngineM S.State α} {k : α → Host S β} (hf : Follows B base mine w₀ w)
    (h : Accounts B base may others flying w)
    (hcall : B.Issues w.engine named (call.run.run w.engine))
    (hk : ∀ a s', B.Fresh w.engine (named a) → Follows B base mine w₀ { w with engine := s' } →
      Accounts B base may others (named a ++ flying) { w with engine := s' } →
      Kept B base may mine others flying named' w₀ (exec (k a) { w with engine := s' })) :
    Kept B base may mine others flying named' w₀ (exec (Host.onEngine call >>= k) w) := by
  rw [exec_bind, exec_onEngine]
  unfold Books.Issues at hcall
  cases hp : (call.run.run w.engine) with
  | mk r s' =>
    rw [hp] at hcall
    cases r with
    | ok a =>
      obtain ⟨hfresh, hmoves⟩ := hcall
      exact hk a s' hfresh (hf.trans (.moves hmoves)) (h.call hfresh hmoves)
    | error f =>
      obtain ⟨ht, hmoves⟩ := hcall
      exact .error ht (hf.trans (.moves hmoves)) (h.call ⟨List.nodup_nil, by simp⟩ hmoves)

theorem onEngine {call : EngineM S.State α} (hf : Follows B base mine w₀ w)
    (h : Accounts B base may others flying w)
    (hcall : B.Issues w.engine named (call.run.run w.engine)) :
    Kept B base may mine others flying named w₀ (exec (Host.onEngine call) w) := by
  rw [← bind_pure (Host.onEngine call)]
  exact issue_bind hf h hcall fun a s' _ hf' h' => .ok hf' h'

/-- Whatever else a program keeps may change. -/
theorem aside {x : Host S α} {a : α} (hx : exec x w = (.ok a, w')) (hnodes : w'.nodes = w.nodes)
    (hfunctions : w'.functions = w.functions) (hengine : w'.engine = w.engine)
    (hf : Follows B base mine w₀ w) (h : Accounts B base may others flying w) :
    Kept B base may mine others flying nothing w₀ (exec x w) := by
  rw [hx]
  refine .ok (hf.trans (.engine (hfunctions ▸ List.prefix_refl _) hnodes ?_ ?_))
    (h.congr hnodes hfunctions hengine)
  · rw [hengine]
    exact .refl h.valid
  · rw [hengine]
    exact fun _ ht => ht

theorem write {e : LogEvent} (hf : Follows B base mine w₀ w) (h : Accounts B base may others flying w) :
    Kept B base may mine others flying nothing w₀ (exec (Host.write e) w) :=
  aside (exec_write e w) rfl rfl rfl hf h

end Kept

/-- A role of the same object, with other caches. -/
structure Recast (n : Node) (role : Role) : Prop where
  fixed : fixedRole role = fixedRole n.role
  live : Node.isLive { n with role } = n.isLive
  holds : ∀ t q, Holds { n with role } t q ↔ Holds n t q

theorem Kept.recast {id : Nat} {n : Node} {role : Role} (hn : w.nodes[id]? = some n)
    (hrole : Recast n role) (hf : Follows B base mine w₀ w) (h : Accounts B base may others flying w) :
    Kept B base may mine others flying nothing w₀ (exec (setRole id role) w) := by
  rw [exec_setRole]
  refine .ok (hf.trans (.change h.valid ?_ rfl rfl)) (h.renew ?_ rfl rfl ?_)
  · refine nodewise_modify id _ (fun _ _ => ⟨.refl _ _, fun _ _ hh => hh, fun ho => ho⟩) ?_
    intro k hk
    obtain rfl := Option.some.inj (hn.symm.trans hk)
    refine ⟨⟨hrole.fixed, .inl rfl, ?_⟩, fun t q hh => (hrole.holds t q).mp hh, ?_⟩
    · intro hlive
      exact .inl (hrole.live.trans hlive)
    · intro ho
      obtain ⟨hkind, hlive⟩ := (isOpen_iff _).mp ho
      exact (isOpen_iff n).mpr ⟨(kind_congr hrole.fixed).symm.trans hkind, hrole.live.symm.trans hlive⟩
  · refine nodewise_modify id _ (fun _ _ => ⟨rfl, rfl, rfl, fun _ => rfl⟩) ?_
    intro k hk
    obtain rfl := Option.some.inj (hn.symm.trans hk)
    exact ⟨hrole.fixed, rfl, rfl, fun _ => hrole.live⟩
  · refine h.ledger.congr (fun _ => Iff.rfl) ?_
    rintro t ⟨j, q⟩
    rw [held_modify hn]
    by_cases hj : j = id
    · subst hj
      rw [if_pos rfl, held_at hn, hrole.holds]
    · rw [if_neg hj]

theorem recast_scope {n : Node} {issued : Value} {types types' : Registry}
    {symbols symbols' : SymbolTable} (hrole : n.role = .scope issued types symbols) :
    Recast n (.scope issued types' symbols') where
  fixed := by rw [hrole]; rfl
  live := by simp [Node.isLive, hrole]
  holds := by
    intro t q
    cases q with
    | none => simp [Holds, hrole, Role.kind]
    | some i => simp [Holds, hrole]

theorem recast_script {n : Node} {home : ObjectId} {source source' : Value}
    (hrole : n.role = .script home source) : Recast n (.script home source') where
  fixed := by rw [hrole]; rfl
  live := by simp [Node.isLive, hrole]
  holds := by
    intro t q
    cases q with
    | none => simp [Holds, hrole, Role.kind]
    | some i => simp [Holds, hrole]

theorem Host.isLive_of_handle {n : Node} (hkind : n.role.kind ≠ .args) : n.isLive = n.handle.isSome := by
  obtain ⟨role, handle, owned⟩ := n
  cases role with
  | args call => exact absurd rfl hkind
  | _ => rfl

/-- A live resource's handle is live. -/
theorem Accounts.live_handle (h : Accounts B base may others flying w) {id : Nat} {n : Node}
    {handle : Value} (hb : base ≤ id) (hn : w.nodes[id]? = some n) (hh : n.handle = some handle) :
    B.Live w.engine (n.role.kind, handle) :=
  (h.ledger.live_iff _).mpr (.inr (.inr ⟨(id, none), hb, n, hn, rfl, hh⟩))

namespace Kept

/-- An operation that looks at an object first. -/
theorem node_bind {id : Nat} {k : Node → Host S β} (hf : Follows B base mine w₀ w)
    (h : Accounts B base may others flying w)
    (hk : ∀ n, w.nodes[id]? = some n →
      Kept B base may mine others flying named' w₀ (exec (k n) w)) :
    Kept B base may mine others flying named' w₀ (exec (node id >>= k) w) := by
  rw [exec_bind]
  cases hn : w.nodes[id]? with
  | none =>
    rw [exec_node_none hn]
    exact .error rfl hf h
  | some n =>
    rw [exec_node_some hn]
    exact hk n hn

/-- An operation that asks for the handle of a live resource first. -/
theorem liveHandle_bind {id : Nat} {n : Node} {k : Value → Host S β} (hn : w.nodes[id]? = some n)
    (hf : Follows B base mine w₀ w) (h : Accounts B base may others flying w)
    (hk : ∀ handle, n.handle = some handle →
      Kept B base may mine others flying named' w₀ (exec (k handle) w)) :
    Kept B base may mine others flying named' w₀ (exec (liveHandle id >>= k) w) := by
  cases hh : n.handle with
  | some handle =>
    rw [exec_bind, exec_liveHandle hn hh]
    exact hk handle hh
  | none =>
    unfold liveHandle
    rw [bind_assoc, exec_bind, exec_node_some hn]
    simp only [hh]
    exact fail_bind rfl hf h

theorem symbolsOf_bind {id : Nat} {k : Value × Registry × SymbolTable → Host S β}
    (hf : Follows B base mine w₀ w) (h : Accounts B base may others flying w)
    (hk : ∀ n issued types symbols, w.nodes[id]? = some n → n.role = .scope issued types symbols →
      Kept B base may mine others flying named' w₀ (exec (k (issued, types, symbols)) w)) :
    Kept B base may mine others flying named' w₀ (exec (Host.symbolsOf id >>= k) w) := by
  unfold Host.symbolsOf
  rw [bind_assoc]
  refine node_bind hf h fun n hn => ?_
  cases hrole : n.role with
  | scope issued types symbols => exact hk n issued types symbols hn hrole
  | _ => exact fail_bind rfl hf h

theorem callOf_bind {id : Nat} {k : Call → Host S β} (hf : Follows B base mine w₀ w)
    (h : Accounts B base may others flying w)
    (hk : ∀ n call, w.nodes[id]? = some n → n.role = .args call →
      Kept B base may mine others flying named' w₀ (exec (k call) w)) :
    Kept B base may mine others flying named' w₀ (exec (Host.callOf id >>= k) w) := by
  unfold Host.callOf
  rw [bind_assoc]
  refine node_bind hf h fun n hn => ?_
  cases hrole : n.role with
  | args call => exact hk n call hn hrole
  | _ => exact fail_bind rfl hf h

theorem checkLive_bind {id : Nat} {k : Unit → Host S β} (hf : Follows B base mine w₀ w)
    (h : Accounts B base may others flying w)
    (hk : ∀ n, w.nodes[id]? = some n → n.isLive →
      Kept B base may mine others flying named' w₀ (exec (k ()) w)) :
    Kept B base may mine others flying named' w₀ (exec (Host.checkLive id >>= k) w) := by
  unfold Host.checkLive
  rw [bind_assoc]
  refine node_bind hf h fun n hn => ?_
  by_cases hlive : n.isLive = true
  · rw [if_pos hlive]
    exact hk n hn hlive
  · rw [if_neg hlive]
    exact fail_bind rfl hf h

end Kept

variable (B w) in
/-- An access to a symbol table that may ask the engine once. -/
structure Asks (access : SymbolTable → Host S (Checked Value × SymbolTable)) : Prop where
  calls : ∀ table, ∃ r s', exec (access table) w = (r, { w with engine := s' }) ∧
    B.Moves w.engine s' [] [] ∧ (∀ f, r = .error f → f.Tellable) ∧ ∀ a, r = .ok a → Tells a.1

theorem asks_of_call {key : Value} (answers : SymbolTable → List (Value × Value))
    (keep : Value → SymbolTable → Checked Unit × SymbolTable) {call : EngineM S.State Value}
    (hvalid : B.valid w.engine) (hcall : B.Quiet w.engine (call.run.run w.engine))
    (hkeep : ∀ v t, Tells (keep v t).1) :
    Asks B w fun t => (match SymbolTable.checkKey key, SymbolTable.kept? key (answers t) with
      | .error f, _ => pure (.error f, t)
      | .ok (), some v => pure (.ok v, t)
      | .ok (), none => do
        let v ← Host.onEngine call
        let (outcome, t) := keep v t
        pure (outcome.map fun _ => v, t)) := by
  constructor
  intro table
  have hkey := SymbolTable.tells_checkKey key
  cases hk : SymbolTable.checkKey key with
  | error f =>
    refine ⟨_, w.engine, rfl, .refl hvalid, ?_, ?_⟩
    · intro g hg
      cases hg
    · intro a ha
      obtain rfl := Except.ok.inj ha
      exact .error (hkey f hk)
  | ok u =>
    cases hkept : SymbolTable.kept? key (answers table) with
    | some v =>
      refine ⟨_, w.engine, rfl, .refl hvalid, ?_, ?_⟩
      · intro g hg
        cases hg
      · intro a ha
        obtain rfl := Except.ok.inj ha
        exact .pure _
    | none =>
      unfold Books.Quiet Books.Issues at hcall
      simp only [exec_bind, exec_onEngine]
      cases hp : (call.run.run w.engine) with
      | mk r s' =>
        rw [hp] at hcall
        cases r with
        | ok v =>
          refine ⟨_, s', rfl, hcall.2, ?_, ?_⟩
          · intro g hg
            cases hg
          · intro a ha
            obtain rfl := Except.ok.inj ha
            exact (hkeep v table).map _
        | error f =>
          refine ⟨_, s', rfl, hcall.2, ?_, ?_⟩
          · intro g hg
            obtain rfl := Except.error.inj hg
            exact hcall.1
          · intro a ha
            cases ha

theorem asks_intern (hE : Lawful E B) (hvalid : B.valid w.engine) (issued name : Value) :
    Asks B w fun t => t.intern (fun n => Host.onEngine (E.internSymbol issued n)) name :=
  asks_of_call SymbolTable.ids (fun symbol t => t.remember name symbol) hvalid
    (hE.internSymbol _ issued name hvalid) fun symbol t => t.tells_remember name symbol

theorem asks_nameOf (hE : Lawful E B) (hvalid : B.valid w.engine) (issued symbol : Value) :
    Asks B w fun t => t.nameOf (fun s => Host.onEngine (E.lookupSymbol issued s)) symbol :=
  asks_of_call SymbolTable.names (fun name t => t.remember name symbol) hvalid
    (hE.lookupSymbol _ issued symbol hvalid) fun name t => t.tells_remember name symbol

/-- A table of a scope is read, and what it remembers afterwards is kept. -/
theorem Kept.remembering {scope : Nat}
    {access : Value → SymbolTable → Host S (Checked Value × SymbolTable)}
    (hasks : ∀ issued, Asks B w (access issued)) (hf : Follows B base mine w₀ w)
    (h : Accounts B base may others flying w) :
    Kept B base may mine others flying nothing w₀ (exec (do
      let (issued, types, symbols) ← Host.symbolsOf scope
      let (answer, symbols) ← access issued symbols
      setRole scope (.scope issued types symbols)
      Host.check answer) w) := by
  refine symbolsOf_bind hf h fun n issued types symbols hn hrole => ?_
  obtain ⟨r, s', hexec, hmoves, herror, hok⟩ := (hasks issued).calls symbols
  have hf' : Follows B base mine w₀ { w with engine := s' } := hf.trans (.moves hmoves)
  have h' : Accounts B base may others flying { w with engine := s' } :=
    h.call ⟨List.nodup_nil, by simp⟩ hmoves
  dsimp only
  rw [exec_bind, hexec]
  cases r with
  | error f => exact .error (herror f rfl) hf' h'
  | ok a =>
    exact bind (Kept.recast hn (recast_scope hrole) hf' h') fun _ _ _ hf'' h'' =>
      .check (hok a rfl) hf'' h''

theorem Kept.internIn (hE : Lawful E B) {scope : Nat} {name : Value} (hf : Follows B base mine w₀ w)
    (h : Accounts B base may others flying w) :
    Kept B base may mine others flying nothing w₀ (exec (Host.internIn E scope name) w) :=
  .remembering (fun issued => asks_intern hE h.valid issued name) hf h

theorem Kept.nameIn (hE : Lawful E B) {scope : Nat} {symbol : Value} (hf : Follows B base mine w₀ w)
    (h : Accounts B base may others flying w) :
    Kept B base may mine others flying nothing w₀ (exec (Host.nameIn E scope symbol) w) :=
  .remembering (fun issued => asks_nameOf hE h.valid issued symbol) hf h

end EngineHost
