import EngineHost.Proofs.Reading

/-!
Calls of host functions by the engine, and evaluations with such calls in them. Whatever the function
does, the call answers and releases its arguments; so an evaluation is left with nothing but what its own
answer names.
-/
namespace EngineHost

open Host

variable {S : Embedding} {E : Engine S.State} {B : Books S.State} {base : Nat}
  {may : ResourceKind → Prop} {mine : Option Nat} {others : Token → Prop} {flying : List Token}
  {α β : Type} {named' : β → List Token} {w w' w₀ : World S} {run : RunBody S}

section Arguments

/-- A callback handle, unless there is none. -/
def blockToken : Value → Option Token
  | .null => none
  | handle => some (.block, handle)

theorem blockToken_eq_some {b : Value} {t : Token} :
    blockToken b = some t ↔ b ≠ .null ∧ t = (.block, b) := by
  cases b with
  | null => simp [blockToken]
  | _ => simp [blockToken, eq_comm]

theorem rawTokens_eq (raw : List RawArg) :
    rawTokens raw = (raw.map RawArg.block).filterMap blockToken := by
  rw [List.filterMap_map]
  rfl

theorem mem_blockTokens {blocks : List Value} {t : Token} :
    t ∈ blocks.filterMap blockToken ↔ ∃ (i : Nat) (b : Value), blocks[i]? = some b ∧ b ≠ .null ∧
      t = (.block, b) := by
  rw [List.mem_filterMap]
  constructor
  · intro h
    obtain ⟨b, hb, ht⟩ := h
    obtain ⟨i, hi⟩ := List.mem_iff_getElem?.mp hb
    exact ⟨i, b, hi, blockToken_eq_some.mp ht⟩
  · intro h
    obtain ⟨i, b, hi, ht⟩ := h
    exact ⟨b, List.mem_of_getElem? hi, blockToken_eq_some.mpr ht⟩

/-- Distinct handles stand at distinct positions. -/
theorem blockTokens_position {blocks : List Value} (h : (blocks.filterMap blockToken).Nodup)
    {i j : Nat} {b : Value} (hi : blocks[i]? = some b) (hj : blocks[j]? = some b) (hne : b ≠ .null) :
    i = j := by
  have hpair := List.pairwise_iff_getElem.mp (List.pairwise_filterMap.mp h)
  obtain ⟨hil, hib⟩ := List.getElem?_eq_some_iff.mp hi
  obtain ⟨hjl, hjb⟩ := List.getElem?_eq_some_iff.mp hj
  have htoken : blockToken b = some (.block, b) := blockToken_eq_some.mpr ⟨hne, rfl⟩
  rcases Nat.lt_trichotomy i j with hlt | heq | hlt
  · exact absurd rfl (hpair i j hil hjl hlt _ (by rw [hib, htoken]) _ (by rw [hjb, htoken]))
  · exact heq
  · exact absurd rfl (hpair j i hjl hil hlt _ (by rw [hjb, htoken]) _ (by rw [hib, htoken]))

/-- The role of arguments nobody has read yet. -/
def unreadRole (signature : Signature) (entries : List Entry) : Role :=
  .args ⟨signature, entries, [], false⟩

theorem holds_unread {signature : Signature} {entries : List Entry} (t : Token) (q : Option Nat) :
    Holds ⟨unreadRole signature entries, none, []⟩ t q ↔
      ∃ (i : Nat) (b : Value), q = some i ∧ (entries.map Entry.block)[i]? = some b ∧ b ≠ .null ∧
        t = (.block, b) := by
  cases q with
  | none => simp [Holds, unreadRole]
  | some j =>
    simp only [Holds, unreadRole, Role.args.injEq, List.getElem?_map, Option.map_eq_some_iff,
      Option.some.injEq]
    constructor
    · intro h
      obtain ⟨call, entry, rfl, -, -, hentry, hne, ht⟩ := h
      exact ⟨j, entry.block, rfl, ⟨entry, hentry, rfl⟩, hne, ht⟩
    · intro h
      obtain ⟨i, b, rfl, ⟨entry, hentry, rfl⟩, hne, ht⟩ := h
      exact ⟨_, entry, rfl, rfl, rfl, hentry, hne, ht⟩

/-- A symbol that is known has a name, kept or asked for. -/
theorem exec_nameIn_known (hE : Lawful E B) (h : Accounts B base may others flying w) {scope : Nat}
    {n : Node} {issued symbol : Value} {types : Registry} {symbols : SymbolTable}
    (hn : w.nodes[scope]? = some n) (hrole : n.role = .scope issued types symbols)
    (hknows : B.knows w.engine issued symbol) :
    ∃ name, (exec (nameIn E scope symbol) w).1 = .ok name := by
  obtain ⟨hhash, name, hname, hnameHash⟩ := hE.lookupSymbol_known _ _ _ h.valid hknows
  have hkey : SymbolTable.checkKey symbol = .ok () := by simp [SymbolTable.checkKey, hhash]; rfl
  have hnameKey : SymbolTable.checkKey name = .ok () := by simp [SymbolTable.checkKey, hnameHash]; rfl
  simp only [nameIn, exec_bind, exec_symbolsOf hn hrole, SymbolTable.nameOf, hkey]
  cases hkept : SymbolTable.kept? symbol symbols.names with
  | some known => exact ⟨known, rfl⟩
  | none =>
    simp only [exec_bind, exec_onEngine]
    cases hp : (E.lookupSymbol issued symbol).run.run w.engine with
    | mk r s' =>
      rw [hp] at hname
      subst hname
      simp only [SymbolTable.remember, hkey, hnameKey]
      exact ⟨name, rfl⟩

/-- The entries of a call are made of its raw arguments, with the same handles. -/
theorem exec_entries (hE : Lawful E B) {scope : Nat} {issued : Value} (raw : List RawArg)
    (hf : Follows B base mine w₀ w) (h : Accounts B base may others flying w)
    (hscope : ∃ n types symbols, w.nodes[scope]? = some n ∧ n.role = .scope issued types symbols)
    (hknows : ∀ r ∈ raw, B.knows w.engine issued r.symbol) :
    ∃ entries w', exec (raw.mapM fun r => do
        pure (Entry.mk (← nameIn E scope r.symbol) r.value r.block)) w = (.ok entries, w') ∧
      Follows B base mine w₀ w' ∧ Accounts B base may others flying w' ∧
      entries.map Entry.block = raw.map RawArg.block := by
  induction raw generalizing w with
  | nil => exact ⟨[], w, rfl, hf, h, rfl⟩
  | cons r rest ih =>
    obtain ⟨n, types, symbols, hn, hrole⟩ := hscope
    obtain ⟨name, hname⟩ := exec_nameIn_known hE h hn hrole (hknows r (List.mem_cons_self ..))
    have hkept : Kept B base may none others flying nothing w (exec (nameIn E scope r.symbol) w) :=
      .nameIn hE (.refl h.valid) h
    cases hx : exec (nameIn E scope r.symbol) w with
    | mk result w₁ =>
      rw [hx] at hname hkept
      subst hname
      obtain ⟨n₁, hn₁, hc⟩ := hkept.follows.nodes scope n hn
      obtain ⟨types₁, symbols₁, hrole₁⟩ := scope_of_fixedRole (hrole ▸ hc.role)
      obtain ⟨entries, w₂, hexec, hf₂, h₂, hblocks⟩ := ih (hf.trans hkept.follows.widen)
        (hkept.succeeds name rfl) ⟨n₁, types₁, symbols₁, hn₁, hrole₁⟩
        (fun r' hr' => hkept.follows.later.knows _ _ (hknows r' (List.mem_cons_of_mem _ hr')))
      refine ⟨⟨name, r.value, r.block⟩ :: entries, w₂, ?_, hf₂, h₂, ?_⟩
      · simp only [List.mapM_cons, exec_bind, hx, exec_pure, hexec]
      · rw [List.map_cons, hblocks, List.map_cons]

end Arguments

variable (B base may) in
/-- Bodies of host functions that keep the accounts, and end nothing but what belongs to their call. -/
def Sound (run : RunBody S) : Prop :=
  ∀ (others : Token → Prop) (flying : List Token) (body : S.Body) (args : Nat) (n : Node) (w : World S),
    Accounts B base may others flying w → base ≤ args → w.nodes[args]? = some n → n.role.kind = .args →
      Kept B base may (some args) others flying nothing w (exec (run body args) w)

section Answers

theorem Host.exec_failureEnvelope {f : Failure} (h : f.Tellable) (w : World S) :
    ∃ v, exec (failureEnvelope f) w = (.ok v, w) := by
  unfold failureEnvelope
  obtain ⟨message, hmessage⟩ := Option.isSome_iff_exists.mp h
  rw [hmessage]
  split
  · exact ⟨_, rfl⟩
  · exact ⟨_, rfl⟩
  · rename_i heq
    cases heq

/-- An implementation that is no function fails before anything happens. -/
theorem Kept.runCallee (hrun : Sound B base may run) {callee : Callee S.Body} {args : Nat} {n : Node}
    (hb : base ≤ args) (hn : w.nodes[args]? = some n) (hkind : n.role.kind = .args)
    (h : Accounts B base may others flying w) :
    Kept B base may (some args) others flying nothing w (exec (Host.runCallee run callee args) w) := by
  unfold Host.runCallee
  split
  · rename_i body
    exact hrun others flying body args n w h hb hn hkind
  · unfold liveHandle
    rw [bind_assoc]
    refine node_bind (.refl h.valid) h fun m _ => ?_
    cases m.handle with
    | some handle =>
      dsimp only
      rw [pure_bind]
      exact .check (Wire.tells_encode _ _) (.refl h.valid) h
    | none => exact fail_bind rfl (.refl h.valid) h
  · exact .fail rfl (.refl h.valid) h

/-- Whatever an implementation does, the call is answered. -/
theorem exec_answer (hrun : Sound B base may run) (definition : Definition S.Body) {args : Nat}
    {n : Node} (hb : base ≤ args) (hn : w.nodes[args]? = some n) (hkind : n.role.kind = .args)
    (h : Accounts B base may others flying w) :
    ∃ v w', exec (answer run definition args) w = (.ok v, w') ∧
      Follows B base (some args) w w' ∧ Accounts B base may others flying w' := by
  have hcallee : Kept B base may (some args) others flying nothing w
      (exec (Host.runCallee run definition.implementation args >>= Host.encode .top) w) :=
    .bind (.runCallee hrun hb hn hkind h) fun v w₁ _ hf₁ h₁ => .check (Wire.tells_encode _ v) hf₁ h₁
  unfold answer
  rw [exec_bind, exec_attempt]
  cases hx : exec (Host.runCallee run definition.implementation args >>= Host.encode .top) w with
  | mk r w₁ =>
    rw [hx] at hcallee
    cases r with
    | ok wire => exact ⟨_, w₁, rfl, hcallee.follows, hcallee.succeeds wire rfl⟩
    | error f =>
      obtain ⟨htells, h₁⟩ := hcallee.fails f rfl
      dsimp only
      split
      · rename_i name message _ _ _
        have hreport : Kept B base may (some args) others flying nothing w
            (exec (write (.neverFailsRaised name message)) w₁) := .write hcallee.follows h₁
        rw [exec_write] at hreport
        obtain ⟨v, hv⟩ := exec_failureEnvelope htells _
        exact ⟨v, _, by rw [exec_bind, exec_write]; exact hv, hreport.follows, hreport.succeeds () rfl⟩
      · obtain ⟨v, hv⟩ := exec_failureEnvelope htells w₁
        exact ⟨v, w₁, hv, hcallee.follows, h₁⟩

end Answers

/-- What belonged to a call has ended with it, so nothing that was there before has ended. -/
theorem Follows.close {a : Nat} {w₁ w₂ : World S} (h : Follows B base (some a) w₀ w₂)
    (h₁ : Follows B base none w₀ w₁) (hbefore : Accounts B base may others flying w₁)
    (hnew : w₁.nodes.length ≤ a) (hclosed : ∀ n, w₂.nodes[a]? = some n → ¬ IsOpen n) :
    Follows B base none w₀ w₂ := by
  have hold : ∀ (id : Nat) (n : Node), w₀.nodes[id]? = some n → MayEnd base (some a) id n →
      n.role.kind ≠ .args ∧ n.handle = none := by
    intro id n hn hend
    obtain ⟨n₁, hn₁, hc⟩ := h₁.nodes id n hn
    have hlt := (List.getElem?_eq_some_iff.mp hn₁).1
    obtain ⟨hb, b, hb', hend⟩ := hend
    obtain rfl := Option.some.inj hb'
    rcases hend with hid | hparent
    · omega
    · refine ⟨kind_ne_args_of_parent hparent, ?_⟩
      by_contra hlive
      have hhandle : n₁.handle = n.handle := hc.handle.resolve_right (by simp [MayEnd])
      obtain ⟨-, m, hm, -⟩ := hbefore.owner id a n₁ hb hn₁
        (by rw [hhandle]; exact Option.isSome_iff_ne_none.mpr hlive) (hc.parent?.trans hparent)
      have hlta := (List.getElem?_eq_some_iff.mp hm).1
      omega
  refine ⟨h.later, ?_, h.functions, h.owners, ?_, ?_⟩
  · intro id n hn
    obtain ⟨n', hn', hc⟩ := h.nodes id n hn
    refine ⟨n', hn', hc.role, ?_, ?_⟩
    · rcases hc.handle with hh | hh
      · exact .inl hh
      · exact .inl (hh.2.trans (hold id n hn hh.1).2.symm)
    · intro hlive
      rcases hc.live hlive with hl | hend
      · exact .inl hl
      · obtain ⟨hkind, hnone⟩ := hold id n hn hend
        rw [isLive_of_handle hkind, hnone] at hlive
        cases hlive
  · intro t ht _
    refine h.stays t ht ?_
    intro b hb ho
    obtain rfl := Option.some.inj hb
    obtain ⟨id, q, n, hbase, hn, hh, hk⟩ := ho
    obtain ⟨n₁, hn₁, hc⟩ := h₁.nodes id n hn
    have hlt := (List.getElem?_eq_some_iff.mp hn₁).1
    cases q with
    | none =>
      have hend : MayEnd base (some a) id n := ⟨hbase, a, rfl, .inr hk⟩
      have hlive := hh.2
      rw [(hold id n hn hend).2] at hlive
      cases hlive
    | some i =>
      have hid : id = a := Option.some.inj hk
      omega
  · intro id n' hn' ho
    rcases h.calls id n' hn' ho with hmine | hn
    · obtain rfl := Option.some.inj hmine
      exact absurd ho (hclosed n' hn')
    · exact .inr hn

variable (B base may) in
/-- Calls of host functions that answer, and leave of what was on its way to them nothing. -/
def Answers (call : FunctionId → List RawArg → Host S Value) : Prop :=
  ∀ (others : Token → Prop) (flying : List Token) (f : FunctionId) (raw : List RawArg) (w₀ w : World S),
    Follows B base none w₀ w → Accounts B base may others (rawTokens raw ++ flying) w →
    (∀ t ∈ rawTokens raw, t ∉ B.issued w₀.engine) →
    (∃ scope, B.home w.engine f scope ∧ ∀ r ∈ raw, B.knows w.engine scope r.symbol) →
    ∃ v w', exec (call f raw) w = (.ok v, w') ∧ B.Later w.engine w'.engine ∧
      Follows B base none w₀ w' ∧ Accounts B base may others flying w'

/-- The world in which the arguments of a call have got an object. -/
def withArgs (signature : Signature) (entries : List Entry) (w : World S) : World S :=
  { w with nodes := w.nodes ++ [⟨unreadRole signature entries, none, []⟩] }

theorem withArgs_new (signature : Signature) (entries : List Entry) (w : World S) :
    (withArgs signature entries w).nodes[w.nodes.length]? =
      some ⟨unreadRole signature entries, none, []⟩ :=
  List.getElem?_concat_length

theorem withArgs_cases {signature : Signature} {entries : List Entry} {id : Nat} {n : Node}
    (hn : (withArgs signature entries w).nodes[id]? = some n) :
    id = w.nodes.length ∧ n = ⟨unreadRole signature entries, none, []⟩ ∨ w.nodes[id]? = some n := by
  rcases Nat.lt_or_ge id w.nodes.length with hlt | hge
  · rw [withArgs, List.getElem?_append_left hlt] at hn
    exact .inr hn
  · have hid : id = w.nodes.length := by
      have hlt := (List.getElem?_eq_some_iff.mp hn).1
      simp only [withArgs, List.length_append, List.length_singleton] at hlt
      omega
    subst hid
    exact .inl ⟨rfl, Option.some.inj (hn.symm.trans (withArgs_new signature entries w))⟩

/-- The object of the arguments holds the handles among them. -/
theorem Accounts.addArgs (signature : Signature) {entries : List Entry}
    (h : Accounts B base may others ((entries.map Entry.block).filterMap blockToken ++ flying) w) :
    Accounts B base may others flying (withArgs signature entries w) := by
  refine h.add (unreadRole signature entries) none rfl rfl rfl ?_ ?_ ?_ ?_ ?_ (.inr (.inl rfl))
  · intro t
    rw [mem_blockTokens]
    constructor
    · intro ht
      obtain ⟨i, b, hrest⟩ := ht
      exact ⟨some i, (holds_unread _ _).mpr ⟨i, b, rfl, hrest⟩⟩
    · intro ht
      obtain ⟨q, hq⟩ := ht
      obtain ⟨i, b, -, hrest⟩ := (holds_unread _ _).mp hq
      exact ⟨i, b, hrest⟩
  · intro t q q' hq hq'
    obtain ⟨i, b, rfl, hi, hne, rfl⟩ := (holds_unread _ _).mp hq
    obtain ⟨j, b', rfl, hj, -, heq⟩ := (holds_unread _ _).mp hq'
    obtain rfl := (Prod.mk.inj heq).2
    have hnodup := (List.nodup_append.mp h.ledger.flying_nodup).1
    rw [blockTokens_position hnodup hi hj hne]
  · intro p hp
    cases hp
  · intro _
    rfl
  · intro issued types symbols hrole
    cases hrole

theorem Follows.addArgs (signature : Signature) {entries : List Entry} (hf : Follows B base none w₀ w)
    (hfresh : ∀ t ∈ (entries.map Entry.block).filterMap blockToken, t ∉ B.issued w₀.engine) :
    Follows B base (some w.nodes.length) w₀ (withArgs signature entries w) := by
  refine hf.widen.add (unreadRole signature entries) none rfl rfl rfl ?_ ?_ ?_
  · intro hp
    cases hp
  · intro t q a hh _ hissued
    obtain ⟨i, b, -, hrest⟩ := (holds_unread _ _).mp hh
    exact absurd hissued (hfresh t (mem_blockTokens.mpr ⟨i, b, hrest⟩))
  · intro _
    rfl

/-- After a call its arguments are released, by the implementation or now. -/
theorem exec_releaseArgs (hE : Lawful E B) (h : Accounts B base may others flying w) {args : Nat}
    {n : Node} (hb : base ≤ args) (hn : w.nodes[args]? = some n) (hkind : n.role.kind = .args) :
    ∃ w', exec (releaseArgs E args) w = (.ok (), w') ∧ Follows B base (some args) w w' ∧
      Accounts B base may others flying w' ∧ ∀ n, w'.nodes[args]? = some n → ¬ IsOpen n := by
  obtain ⟨call, hrole⟩ := args_of_kind hkind
  have hcall : exec (callOf args) w = (.ok call, w) := exec_callOf hn hrole
  cases hreleased : call.released with
  | true =>
    refine ⟨w, ?_, .refl h.valid, h, ?_⟩
    · simp only [releaseArgs, exec_bind, hcall, hreleased, if_true, exec_pure]
    · intro m hm ho
      obtain rfl := Option.some.inj (hn.symm.trans hm)
      obtain ⟨call', hrole', hopen⟩ := ho
      obtain rfl := Role.args.inj (hrole.symm.trans hrole')
      rw [hreleased] at hopen
      cases hopen
  | false =>
    obtain ⟨w', hexec, h', hf', n', hn', hrole'⟩ := exec_release hE h hb hn hrole hreleased
    refine ⟨w', ?_, hf', h', ?_⟩
    · simp only [releaseArgs, exec_bind, hcall, hreleased, hexec, Bool.false_eq_true, if_false]
    · intro m hm ho
      obtain rfl := Option.some.inj (hn'.symm.trans hm)
      obtain ⟨call', hcall', hopen⟩ := ho
      obtain rfl := Role.args.inj (hrole'.symm.trans hcall')
      cases hopen

variable (B base may others flying) in
/-- The course of a call: its arguments are named until `w₁`, then get an object, and are released before
the call returns. -/
structure Course (raw : List RawArg) (signature : Signature) (entries : List Entry)
    (w w₁ w' : World S) : Prop where
  tokens : (entries.map Entry.block).filterMap blockToken = rawTokens raw
  naming : Follows B base none w w₁
  named : Accounts B base may others (rawTokens raw ++ flying) w₁
  running : Follows B base (some w₁.nodes.length) (withArgs signature entries w₁) w'
  returned : Accounts B base may others flying w'
  closed : ∀ n, w'.nodes[w₁.nodes.length]? = some n → ¬ IsOpen n

namespace Course

variable {raw : List RawArg} {signature : Signature} {entries : List Entry} {w₁ : World S}

theorem later (h : Course B base may others flying raw signature entries w w₁ w') :
    B.Later w.engine w'.engine :=
  h.naming.later.trans h.running.later

theorem begun (h : Course B base may others flying raw signature entries w w₁ w') :
    Accounts B base may others flying (withArgs signature entries w₁) :=
  Accounts.addArgs signature (h.tokens ▸ h.named)

end Course

/-- A call takes over the raw arguments, runs the implementation and releases what is left. -/
theorem exec_invoke (hE : Lawful E B) (hrun : Sound B base may run) {f : FunctionId} {raw : List RawArg}
    (h : Accounts B base may others (rawTokens raw ++ flying) w)
    (hknown : ∃ scope, B.home w.engine f scope ∧ ∀ r ∈ raw, B.knows w.engine scope r.symbol) :
    ∃ v w₁ signature entries w', exec (invoke E run f raw) w = (.ok v, w') ∧
      Course B base may others flying raw signature entries w w₁ w' := by
  obtain ⟨scope, hhome, hknows⟩ := hknown
  obtain ⟨fn, n, types, symbols, hfn, hn, hrole⟩ := h.homes f scope hhome
  have hcallee : exec (callee? f) w = (.ok fn, w) := by
    simp only [callee?, exec_bind, exec_get, hfn, exec_pure]
  obtain ⟨entries, w₁, hentries, hf₁, h₁, hblocks⟩ :=
    exec_entries hE raw (Follows.refl h.valid : Follows B base none w w) h ⟨n, types, symbols, hn, hrole⟩ hknows
  have htokens : (entries.map Entry.block).filterMap blockToken = rawTokens raw := by
    rw [hblocks, rawTokens_eq]
  have hargs : exec (newArgs E fn.scope fn.definition.signature raw) w =
      (.ok w₁.nodes.length, withArgs fn.definition.signature entries w₁) := by
    simp only [newArgs, exec_bind, hentries, exec_addNode]
    rfl
  have hn₂ := withArgs_new fn.definition.signature entries w₁
  have h₂ : Accounts B base may others flying (withArgs fn.definition.signature entries w₁) :=
    Accounts.addArgs fn.definition.signature (htokens ▸ h₁)
  obtain ⟨v, w₃, hanswer, hf₃, h₃⟩ := exec_answer hrun fn.definition h₁.base_le hn₂ rfl h₂
  obtain ⟨n₃, hn₃, hc₃⟩ := hf₃.nodes _ _ hn₂
  obtain ⟨w₄, hrelease, hf₄, h₄, hclosed⟩ :=
    exec_releaseArgs hE h₃ h₁.base_le hn₃ (kind_congr hc₃.role)
  refine ⟨v, w₁, fn.definition.signature, entries, w₄, ?_, htokens, hf₁, h₁, hf₃.trans hf₄, h₄, hclosed⟩
  simp only [invoke, exec_bind, hcallee, hargs, hanswer, exec_attempt, hrelease, exec_pure]

/-- Calls that evaluations make are answered, and leave nothing of theirs. -/
theorem answers_invoke (hE : Lawful E B) (hrun : Sound B base may run) :
    Answers B base may (invoke E run) := by
  intro others flying f raw w₀ w hf h hfresh hknown
  obtain ⟨v, w₁, signature, entries, w', hexec, hcourse⟩ := exec_invoke hE hrun h hknown
  have hf₁ : Follows B base none w₀ w₁ := hf.trans hcourse.naming
  have hf₂ : Follows B base (some w₁.nodes.length) w₀ (withArgs signature entries w₁) :=
    hf₁.addArgs signature (hcourse.tokens ▸ hfresh)
  exact ⟨v, w', hexec, hcourse.later,
    (hf₂.trans hcourse.running).close hf₁ hcourse.named (Nat.le_refl _) hcourse.closed,
    hcourse.returned⟩

/-- An evaluation keeps the accounts, however many calls are made in it; what its answer names is new. -/
theorem Kept.runEvaluation {call : FunctionId → List RawArg → Host S Value}
    (hcall : Answers B base may call) {ev : Evaluation S.State (Checked Value)} {s : S.State}
    (hev : B.Orderly s ev) {w₀ w : World S} (hs : w.engine = s) (hf : Follows B base none w₀ w)
    (h : Accounts B base may others flying w) :
    Kept B base may none others flying answerTokens w₀ (exec (Host.runEvaluation call ev) w) ∧
      ∀ v w', exec (Host.runEvaluation call ev) w = (.ok v, w') →
        AnswerTells v ∧ ∀ t ∈ answerTokens v, t ∉ B.issued w₀.engine := by
  induction hev generalizing w with
  | @done s s' result ends tells =>
    subst hs
    unfold Books.Issues at ends
    cases result with
    | ok envelope =>
      obtain ⟨hfresh, hmoves⟩ := ends
      refine ⟨.ok (hf.trans (.moves hmoves)) (h.call hfresh hmoves), ?_⟩
      intro v w' hx
      cases hx
      refine ⟨tells envelope rfl, ?_⟩
      intro t ht hissued
      exact (hfresh.2 t ht).2 (hf.later.mem_issued hissued)
    | error f =>
      obtain ⟨htells, hmoves⟩ := ends
      refine ⟨.fail htells (hf.trans (.moves hmoves)) (h.call ⟨List.nodup_nil, by simp⟩ hmoves), ?_⟩
      intro v w' hx
      obtain ⟨g, hg, -⟩ := exec_fail (α := Value) f { w with engine := s' }
      cases hg.symm.trans hx
  | @ask s s' f raw resume fresh moves known next ih =>
    subst hs
    have hfresh : ∀ t ∈ rawTokens raw, t ∉ B.issued w₀.engine := by
      intro t ht hissued
      exact (fresh.2 t ht).2 (hf.later.mem_issued hissued)
    obtain ⟨v, w₁, hexec, hlater, hf₁, h₁⟩ := hcall others flying f raw w₀ { w with engine := s' }
      (hf.trans (.moves moves)) (h.call fresh moves) hfresh known
    have hrun : exec (Host.runEvaluation call (.ask f raw s' resume)) w =
        exec (Host.runEvaluation call (resume (.ok v) w₁.engine)) w₁ := by
      simp only [Host.runEvaluation, exec_bind, exec_modify, exec_attempt, hexec, exec_get]
    rw [hrun]
    exact ih (.ok v) w₁.engine hlater rfl hf₁ h₁

theorem Kept.evaluating (hE : Lawful E B) (hrun : Sound B base may run)
    {start : S.State → Evaluation S.State (Checked Value)} {w : World S}
    (hstart : B.Orderly w.engine (start w.engine)) (h : Accounts B base may others flying w) :
    Kept B base may none others flying answerTokens w (exec (Host.evaluating E run start) w) ∧
      ∀ v w', exec (Host.evaluating E run start) w = (.ok v, w') →
        AnswerTells v ∧ ∀ t ∈ answerTokens v, t ∉ B.issued w.engine :=
  Kept.runEvaluation (answers_invoke hE hrun) hstart rfl (.refl h.valid) h

end EngineHost
