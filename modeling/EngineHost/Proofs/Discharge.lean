import EngineHost.Proofs.Tickets

/-!
What a call of a host function leaves when it returns. The callback handles it was given, and those that
its callbacks returned, have been taken back once each; a call within another leaves the other's handles
alone.
-/
namespace EngineHost

open Host

variable {S : Embedding} {E : Engine S.State} {B : Books S.State} {base : Nat}
  {may : ResourceKind → Prop} {others : Token → Prop} {flying : List Token} {w w' : World S}
  {run : RunBody S} {raw : List RawArg}

/-- Where programs make nothing but callbacks, what holds a handle belongs to an open call. -/
theorem Accounts.open_keeper (h : Accounts B base (fun _ => False) others flying w) {t : Token} {id : Nat}
    {q : Option Nat} {n : Node} (hb : base ≤ id) (hn : w.nodes[id]? = some n) (hh : Holds n t q) :
    ∃ a m, keeper id n q = some a ∧ base ≤ a ∧ w.nodes[a]? = some m ∧ IsOpen m := by
  have hmade : ∀ {i : Nat} {k : Node}, base ≤ i → w.nodes[i]? = some k →
      k.role.kind = .block ∨ k.role.kind = .args := by
    intro i k hi hk
    rcases h.made i k hi hk with hblock | hargs | hmay
    · exact .inl hblock
    · exact .inr hargs
    · exact absurd hmay not_false
  cases q with
  | some i =>
    obtain ⟨call, -, hrole, hopen, -⟩ := hh
    exact ⟨id, n, rfl, hb, hn, call, hrole, hopen⟩
  | none =>
    have hsome := hh.2
    rcases hmade hb hn with hblock | hargs
    · obtain ⟨a, hrole⟩ := block_of_kind hblock
      have hparent : n.role.parent? = some a := by rw [hrole]; rfl
      obtain ⟨ha, m, hm, hlive, hmay, -⟩ := h.owner id a n hb hn (by rw [hsome]; rfl) hparent
      refine ⟨a, m, hparent, ha, hm, (isOpen_iff m).mpr ⟨?_, hlive⟩⟩
      rw [hrole] at hmay
      rcases hmade ha hm with hmblock | hmargs
      · rcases hmay with hmay | hmay | hmay
        · cases hmblock.symm.trans hmay
        · cases hmblock.symm.trans hmay
        · exact hmay
      · exact hmargs
    · rw [h.args id n hb hn hargs] at hsome
      cases hsome

section Arguments

variable {signature : Signature} {entries : List Entry} {t : Token}

theorem Accounts.holds_withArgs (h : Accounts B base may others flying w)
    (ht : t ∈ (entries.map Entry.block).filterMap blockToken) :
    ∃ i, Held base (withArgs signature entries w).nodes t (w.nodes.length, some i) := by
  obtain ⟨i, b, hb⟩ := mem_blockTokens.mp ht
  exact ⟨i, h.base_le, _, withArgs_new signature entries w, (holds_unread t _).mpr ⟨i, b, rfl, hb⟩⟩

/-- Of a call that has just begun are the handles among its arguments. -/
theorem Accounts.mem_of_ownedBy_withArgs (h : Accounts B base may others flying w)
    (ho : OwnedBy base (withArgs signature entries w).nodes t w.nodes.length) :
    t ∈ (entries.map Entry.block).filterMap blockToken := by
  obtain ⟨id, q, n, hb, hn, hh, hk⟩ := ho
  rcases withArgs_cases hn with ⟨rfl, rfl⟩ | hn
  · obtain ⟨i, b, -, hrest⟩ := (holds_unread t q).mp hh
    exact mem_blockTokens.mpr ⟨i, b, hrest⟩
  · have hlt := (List.getElem?_eq_some_iff.mp hn).1
    cases q with
    | none =>
      have hsome : n.handle.isSome := by rw [hh.2]; rfl
      obtain ⟨-, m, hm, -⟩ := h.owner id _ n hb hn hsome hk
      exact absurd (List.getElem?_eq_some_iff.mp hm).1 (Nat.lt_irrefl _)
    | some i =>
      have hid : id = w.nodes.length := Option.some.inj hk
      omega

end Arguments

namespace Course

variable {signature : Signature} {entries : List Entry} {w₁ : World S}

/-- A call that is open afterwards is another, and was open before. -/
theorem open_before (h : Course B base may others flying raw signature entries w w₁ w') {id : Nat}
    {n' : Node} (hn' : w'.nodes[id]? = some n') (ho : IsOpen n') :
    id ≠ w₁.nodes.length ∧ ∃ n, w.nodes[id]? = some n ∧ IsOpen n := by
  have hne : id ≠ w₁.nodes.length := by
    intro hid
    subst hid
    exact h.closed n' hn' ho
  refine ⟨hne, ?_⟩
  rcases h.running.calls id n' hn' ho with hmine | ⟨n₂, hn₂, ho₂⟩
  · exact absurd (Option.some.inj hmine).symm hne
  · rcases withArgs_cases hn₂ with ⟨hid, -⟩ | hn₁
    · exact absurd hid hne
    · exact (h.naming.calls id n₂ hn₁ ho₂).resolve_left (by simp)

/-- What holds a handle afterwards belongs to a call that was open before. -/
theorem keeper_before
    (h : Course B base (fun _ => False) others flying raw signature entries w w₁ w') {t : Token}
    {id : Nat} {q : Option Nat} {n : Node} (hb : base ≤ id) (hn : w'.nodes[id]? = some n)
    (hh : Holds n t q) :
    ∃ a m, keeper id n q = some a ∧ a ≠ w₁.nodes.length ∧ base ≤ a ∧ w.nodes[a]? = some m ∧
      IsOpen m := by
  obtain ⟨a, m, hk, ha, hm, ho⟩ := h.returned.open_keeper hb hn hh
  obtain ⟨hne, m₀, hm₀, ho₀⟩ := h.open_before hm ho
  exact ⟨a, m₀, hk, hne, ha, hm₀, ho₀⟩

/-- The handles of a call are taken back in its course. -/
theorem given (h : Course B base (fun _ => False) others flying raw signature entries w w₁ w')
    {t : Token} (ht : t ∈ rawTokens raw) : t ∈ B.dropped w'.engine := by
  by_contra hdropped
  have hflying : t ∈ rawTokens raw ++ flying := List.mem_append_left _ ht
  have hissued : t ∈ B.issued w₁.engine := ((h.named.ledger.live_iff t).mpr (.inr (.inl hflying))).1
  have hlive : B.Live w'.engine t := ⟨h.running.later.mem_issued hissued, hdropped⟩
  rcases (h.returned.ledger.live_iff t).mp hlive with hothers | hrest | ⟨⟨id, q⟩, hb, n, hn, hh⟩
  · exact (h.named.ledger.flying_apart t hflying).1 hothers
  · exact (List.nodup_append.mp h.named.ledger.flying_nodup).2.2 t ht t hrest rfl
  · obtain ⟨a, m, hk, hne, -⟩ := h.keeper_before hb hn hh
    obtain ⟨id₂, q₂, n₂, hb₂, hn₂, hh₂, hk₂⟩ :=
      h.running.owners t a hissued ⟨id, q, n, hb, hn, hh, hk⟩
    obtain ⟨i, hheld⟩ : ∃ i, Held base (withArgs signature entries w₁).nodes t
        (w₁.nodes.length, some i) := h.named.holds_withArgs (h.tokens ▸ ht)
    obtain ⟨rfl, rfl⟩ := Prod.mk.inj (h.begun.ledger.sole t _ _ ⟨hb₂, n₂, hn₂, hh₂⟩ hheld)
    exact hne (Option.some.inj hk₂).symm

/-- What was live before and is not the call's own stays live. -/
theorem spares (h : Course B base may others flying raw signature entries w w₁ w') {t : Token}
    (hlive : B.Live w.engine t) (hnot : t ∉ rawTokens raw) : B.Live w'.engine t := by
  have hlive₁ : B.Live w₁.engine t := h.naming.stays t hlive (fun a ha => by cases ha)
  refine h.running.stays t hlive₁ ?_
  intro a ha ho
  obtain rfl := Option.some.inj ha
  exact hnot (h.tokens ▸ h.named.mem_of_ownedBy_withArgs ho)

/-- A handle that was issued meanwhile and is still live belongs to a call that was open before. -/
theorem issued (h : Course B base (fun _ => False) others flying raw signature entries w w₁ w')
    {t : Token} (hlive : B.Live w'.engine t) (hnot : t ∉ B.issued w.engine)
    (hothers : ∀ u, others u → u ∈ B.issued w.engine) (hflying : ∀ u ∈ flying, u ∈ B.issued w.engine) :
    ∃ (a : Nat) (m : Node), base ≤ a ∧ w.nodes[a]? = some m ∧ IsOpen m ∧
      OwnedBy base w'.nodes t a := by
  rcases (h.returned.ledger.live_iff t).mp hlive with ho | hf | ⟨⟨id, q⟩, hb, n, hn, hh⟩
  · exact absurd (hothers t ho) hnot
  · exact absurd (hflying t hf) hnot
  · obtain ⟨a, m, hk, -, ha, hm, ho⟩ := h.keeper_before hb hn hh
    exact ⟨a, m, ha, hm, ho, id, q, n, hb, hn, hh, hk⟩

end Course

variable (B base raw) in
/-- The worlds before and after a call with raw arguments. Calls from `base` on that were open before are
those it was made within. -/
structure Discharged (w w' : World S) : Prop where
  /-- Every callback handle among the arguments has been taken back. -/
  given : ∀ t ∈ rawTokens raw, t ∈ B.dropped w'.engine
  /-- Handles are taken back once, and only the call's own: those it was given, and new ones. -/
  once : ∃ gone, B.dropped w'.engine = gone ++ B.dropped w.engine ∧ gone.Nodup ∧
    ∀ t ∈ gone, t ∉ B.dropped w.engine ∧ (t ∈ rawTokens raw ∨ t ∉ B.issued w.engine)
  /-- New handles have been taken back as well, unless a call outside has come to own them. -/
  issued : ∀ t ∈ B.issued w'.engine, t ∉ B.issued w.engine → t ∈ B.dropped w'.engine ∨
    ∃ (a : Nat) (m : Node), base ≤ a ∧ w.nodes[a]? = some m ∧ IsOpen m ∧ OwnedBy base w'.nodes t a
  /-- Callback objects are destroyed, unless they belong to a call outside. -/
  objects : ∀ (id : Nat) (n : Node), base ≤ id → w'.nodes[id]? = some n → n.handle.isSome →
    ∃ (a : Nat) (m : Node), n.role.parent? = some a ∧ base ≤ a ∧ w.nodes[a]? = some m ∧ IsOpen m
  closed : ∀ (id : Nat) (n' : Node), w'.nodes[id]? = some n' → IsOpen n' →
    ∃ n, w.nodes[id]? = some n ∧ IsOpen n
  /-- An outermost call leaves none of its handles and objects. -/
  outermost : base = w.nodes.length →
    (∀ t ∈ B.issued w'.engine, t ∉ B.issued w.engine → t ∈ B.dropped w'.engine) ∧
      ∀ (id : Nat) (n : Node), base ≤ id → w'.nodes[id]? = some n → n.handle = none

theorem Course.discharged {signature : Signature} {entries : List Entry} {w₁ : World S}
    (h : Course B base (fun _ => False) others flying raw signature entries w w₁ w')
    (hbefore : Accounts B base (fun _ => False) others (rawTokens raw ++ flying) w) :
    Discharged B base raw w w' := by
  have hnew : ∀ t ∈ B.issued w'.engine, t ∉ B.issued w.engine → t ∈ B.dropped w'.engine ∨
      ∃ (a : Nat) (m : Node), base ≤ a ∧ w.nodes[a]? = some m ∧ IsOpen m ∧
        OwnedBy base w'.nodes t a := by
    intro t ht hnot
    by_cases hdropped : t ∈ B.dropped w'.engine
    · exact .inl hdropped
    · refine .inr (h.issued ⟨ht, hdropped⟩ hnot ?_ ?_)
      · exact fun u hu => ((hbefore.ledger.live_iff u).mpr (.inl hu)).1
      · exact fun u hu =>
          ((hbefore.ledger.live_iff u).mpr (.inr (.inl (List.mem_append_right _ hu)))).1
  have hobjects : ∀ (id : Nat) (n : Node), base ≤ id → w'.nodes[id]? = some n → n.handle.isSome →
      ∃ (a : Nat) (m : Node), n.role.parent? = some a ∧ base ≤ a ∧ w.nodes[a]? = some m ∧ IsOpen m := by
    intro id n hb hn hsome
    obtain ⟨handle, hhandle⟩ := Option.isSome_iff_exists.mp hsome
    have hh : Holds n (n.role.kind, handle) none := ⟨rfl, hhandle⟩
    obtain ⟨a, m, hk, -, hrest⟩ := h.keeper_before hb hn hh
    exact ⟨a, m, hk, hrest⟩
  refine ⟨fun t ht => h.given ht, ?_, hnew, hobjects, fun id n' hn' ho => (h.open_before hn' ho).2, ?_⟩
  · obtain ⟨gone, hgone, hnodup, hold⟩ := h.later.dropped
    refine ⟨gone, hgone, hnodup, ?_⟩
    intro t ht
    refine ⟨(hold t ht).1, ?_⟩
    by_contra hother
    obtain ⟨hnotraw, hissued⟩ := not_or.mp hother
    have hlive := h.spares ⟨not_not.mp hissued, (hold t ht).1⟩ hnotraw
    exact hlive.2 (by rw [hgone]; exact List.mem_append_left _ ht)
  · intro hbase
    have hnone : ∀ (a : Nat) (m : Node), base ≤ a → w.nodes[a]? = some m → False := by
      intro a m ha hm
      have hlt := (List.getElem?_eq_some_iff.mp hm).1
      omega
    constructor
    · intro t ht hnot
      refine (hnew t ht hnot).resolve_right ?_
      intro hkept
      obtain ⟨a, m, ha, hm, -⟩ := hkept
      exact hnone a m ha hm
    · intro id n hb hn
      by_contra hsome
      obtain ⟨a, m, -, ha, hm, -⟩ := hobjects id n hb hn (Option.isSome_iff_ne_none.mpr hsome)
      exact hnone a m ha hm

/-- Every call returns, whatever its implementation does, and has then discharged its handles. -/
theorem invoke_discharged (hE : Lawful E B) (hrun : Runner E base (fun _ => False) run)
    {f : FunctionId} (h : Accounts B base (fun _ => False) others (rawTokens raw ++ flying) w)
    (hknown : ∃ scope, B.home w.engine f scope ∧ ∀ r ∈ raw, B.knows w.engine scope r.symbol) :
    ∃ v w', exec (invoke E run f raw) w = (.ok v, w') ∧ Discharged B base raw w w' := by
  obtain ⟨v, w₁, signature, entries, w', hexec, hcourse⟩ := exec_invoke hE (hrun.sound hE) h hknown
  exact ⟨v, w', hexec, hcourse.discharged h⟩

/-- Before an outermost call every object belongs to others, and so does every handle that it is not
given. -/
theorem Accounts.outset (hvalid : B.valid w.engine)
    (hdropped : ∀ t ∈ B.dropped w.engine, t ∈ B.issued w.engine) (hdistinct : (rawTokens raw).Nodup)
    (hlive : ∀ t ∈ rawTokens raw, B.Live w.engine t)
    (hhomes : ∀ f scope, B.home w.engine f scope → ∃ fn n types symbols, w.functions[f]? = some fn ∧
      w.nodes[fn.scope]? = some n ∧ n.role = .scope scope types symbols) :
    Accounts B w.nodes.length may (fun t => B.Live w.engine t ∧ t ∉ rawTokens raw)
      (rawTokens raw ++ []) w := by
  have hnone : ∀ {id : Nat} {n : Node}, w.nodes.length ≤ id → w.nodes[id]? = some n → False := by
    intro id n hid hn
    have hlt := (List.getElem?_eq_some_iff.mp hn).1
    omega
  have hheld : ∀ t p, ¬ Held w.nodes.length w.nodes t p := by
    intro t p hp
    obtain ⟨hb, n, hn, -⟩ := hp
    exact hnone hb hn
  rw [List.append_nil]
  exact
    { base_le := Nat.le_refl _
      valid := hvalid
      dropped_issued := hdropped
      ledger :=
        { live_iff := by
            intro t
            have hin : t ∈ rawTokens raw → B.Live w.engine t := hlive t
            simp only [hheld, exists_false, or_false]
            tauto
          sole := fun t p _ hp => absurd hp (hheld t p)
          flying_nodup := hdistinct
          flying_apart := fun t ht => ⟨fun ho => ho.2 ht, hheld t⟩
          others_apart := fun t _ => hheld t }
      forest := ⟨fun _ _ hb hm => (hnone hb hm).elim, fun _ _ hb hm => (hnone hb hm).elim⟩
      owner := fun _ _ _ hb hn => (hnone hb hn).elim
      args := fun _ _ hb hn => (hnone hb hn).elim
      scopes := fun _ _ _ _ _ hb hn => (hnone hb hn).elim
      made := fun _ _ hb hn => (hnone hb hn).elim
      homes := hhomes }

namespace Tickets

/-- A namespace with one function, and two callbacks that the engine has just issued. -/
def calling : World embedding where
  nodes := [⟨.scope (.int 0) .empty .empty, some (.int 0), []⟩]
  cursors := []
  functions := [⟨0, ⟨⟨[⟨.str "f", .primitive .number, true, false⟩], .primitive .number, true⟩,
    .function ()⟩⟩]
  engine := ⟨[(.block, .int 2), (.block, .int 1), (.scope, .int 0)], [], [(0, .int 0)]⟩
  own := ()
  log := []

def callbacks : List RawArg := [⟨.str "f", .null, .int 1⟩, ⟨.str "g", .null, .int 2⟩]

theorem calling_accounts :
    Accounts books calling.nodes.length (fun _ => False)
      (fun t => books.Live calling.engine t ∧ t ∉ rawTokens callbacks) (rawTokens callbacks ++ [])
      calling := by
  refine .outset ⟨?_, by simp [calling], by simp [calling]⟩ (by simp [books, calling]) ?_ ?_ ?_
  · simp only [calling, List.forall_mem_cons]
    exact ⟨⟨2, by simp⟩, ⟨1, by simp⟩, ⟨0, by simp⟩, by simp⟩
  · simp [rawTokens, callbacks]
  · simp [rawTokens, callbacks, Books.Live, books, calling]
  · intro f scope hf
    obtain ⟨rfl, rfl⟩ : f = 0 ∧ scope = .int 0 := by simpa [books, calling] using hf
    exact ⟨_, _, _, _, rfl, rfl, rfl⟩

end Tickets

/-- The first callback is called, and returns a third; the second is never read. -/
theorem invoke_discharged_tickets :
    (∃ scope, Tickets.books.home Tickets.calling.engine 0 scope ∧
      ∀ r ∈ Tickets.callbacks, Tickets.books.knows Tickets.calling.engine scope r.symbol) ∧
    ∃ v w', exec (invoke Tickets.engine (Tickets.callBack 1) 0 Tickets.callbacks) Tickets.calling =
        (.ok v, w') ∧
      Discharged Tickets.books Tickets.calling.nodes.length Tickets.callbacks Tickets.calling w' := by
  have hknown : ∃ scope, Tickets.books.home Tickets.calling.engine 0 scope ∧
      ∀ r ∈ Tickets.callbacks, Tickets.books.knows Tickets.calling.engine scope r.symbol :=
    ⟨.int 0, by simp [Tickets.books, Tickets.calling], by
      simp [Tickets.callbacks, Tickets.books, Value.isHashable]⟩
  exact ⟨hknown, invoke_discharged Tickets.lawful (Tickets.callBack_runner 1 _)
    Tickets.calling_accounts hknown⟩

end EngineHost
