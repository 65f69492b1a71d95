import EngineHost.Proofs.Lookup
import EngineHost.Proofs.RoundTrip
import EngineHost.Proofs.Views
import EngineHost.Proofs.Vocabulary

/-!
From a declaration to the readings of a call. Whatever has been defined and called in a scope, the arguments
that the engine sends there for a function are read as what it sent, under the names that were declared.
-/
namespace EngineHost

open Host

variable {S : Embedding} {E : Engine S.State} {F : Files S.State} {id : ObjectId} {handle : Value}
  {past : List Signature} {w : World S}

/-- A symbol stands for a name. -/
abbrev Stood (F : Files S.State) (handle : Value) (w : World S) (name symbol : Value) : Prop :=
  Denotes (fun v => v.isText) (F.gave w.engine handle) name symbol

/-- What may have happened since a scope was created, in any order, with the signatures that were defined. -/
inductive Lifetime (E : Engine S.State) (F : Files S.State) (id : ObjectId) (handle : Value) :
    List Signature → World S → Prop where
  | create {w₀ w : World S} (hvalid : F.valid w₀.engine) (hcreate : exec (Scope.create E) w₀ = (.ok id, w))
    (hhandle : exec (liveHandle id) w = (.ok handle, w)) : Lifetime E F id handle [] w
  | defineType {past : List Signature} {w : World S} (name expr : Value) (h : Lifetime E F id handle past w) :
    Lifetime E F id handle past (exec (Scope.defineType id name expr) w).2
  /-- The declaration may come about in any way, and with any definitions on the way. -/
  | define {past past' : List Signature} {w w' : World S} {build : Host S (Builder S.Body)}
    {b : Builder S.Body} (h : Lifetime E F id handle past w) (hbuild : exec build w = (.ok b, w'))
    (h' : Lifetime E F id handle past' w') (hnames : ∀ a ∈ b.args, a.name.isText) :
    Lifetime E F id handle (past' ++ (exec (Scope.define E id build) w).1.toOption.toList)
      (exec (Scope.define E id build) w).2
  | getSignature {past : List Signature} {w : World S} {name : Value} (hname : name.isText)
    (h : Lifetime E F id handle past w) :
    Lifetime E F id handle past (exec (Scope.getSignature E id name) w).2
  /-- Arguments came for some function. -/
  | newArgs {past : List Signature} {w : World S} (s : Signature) {names : List Value} {raw : List RawArg}
    (hnames : List.Forall₂ (fun name r => name.isText ∧ Stood F handle w name r.symbol) names raw)
    (h : Lifetime E F id handle past w) : Lifetime E F id handle past (exec (newArgs E id s raw) w).2
  /-- Something happened that neither the scope nor what the engine keeps for it took part in. -/
  | elsewhere {past : List Signature} {w w' : World S} (hquiet : F.Quiet w.engine w'.engine)
    (hscope : ∀ n, w.nodes[id]? = some n →
      ∃ n', w'.nodes[id]? = some n' ∧ n'.handle = n.handle ∧ n'.role = n.role)
    (h : Lifetime E F id handle past w) : Lifetime E F id handle past w'

section Entering

variable (hE : Filing E F fun v => v.isText)

include hE

/-- Entries under names. -/
def entriesOf (names : List Value) (raw : List RawArg) : List Entry :=
  List.zipWith (fun name r => ⟨name, r.value, r.block⟩) names raw

/-- A symbol is read as the name it stands for. -/
theorem Understands.nameIn (h : Understands F (fun v => v.isText) id handle w) {name symbol : Value}
    (hname : name.isText) (hstood : Stood F handle w name symbol) :
    ∃ w', exec (Host.nameIn E id symbol) w = (.ok name, w') ∧
      Understands F (fun v => v.isText) id handle w' ∧ F.Keeps w.engine w'.engine := by
  obtain ⟨n, hn, -, types, symbols, hrole, hsymbols⟩ := h.node
  obtain ⟨m, s', symbols', hexec, hquiet, hsymbols', hm, hequals⟩ :=
    exec_nameIn_table hE naming_text h.valid h.live hn hrole hsymbols hname hstood
  obtain rfl := (equals_text hm).mp hequals
  exact ⟨_, hexec, h.retable hquiet hsymbols', hquiet.toKeeps⟩

theorem Understands.entries {names : List Value} {raw : List RawArg}
    (h : Understands F (fun v => v.isText) id handle w)
    (hnames : List.Forall₂ (fun name r => name.isText ∧ Stood F handle w name r.symbol) names raw) :
    ∃ w', exec (raw.mapM fun r => do
        pure (Entry.mk (← Host.nameIn E id r.symbol) r.value r.block)) w = (.ok (entriesOf names raw), w') ∧
      Understands F (fun v => v.isText) id handle w' := by
  induction raw generalizing names w with
  | nil =>
    cases hnames
    exact ⟨w, rfl, h⟩
  | cons r raw ih =>
    cases hnames with
    | @cons name _ names _ hfirst hrest =>
      obtain ⟨w₁, hexec₁, h₁, hkeeps⟩ := h.nameIn hE hfirst.1 hfirst.2
      have hlater : List.Forall₂ (fun name r => name.isText ∧ Stood F handle w₁ name r.symbol) names raw :=
        hrest.imp fun _ _ hx => ⟨hx.1, hx.2.mono (hkeeps.gave handle)⟩
      obtain ⟨w₂, hexec₂, h₂⟩ := ih h₁ hlater
      refine ⟨w₂, ?_, h₂⟩
      rw [List.mapM_cons]
      simp only [exec_bind, hexec₁, hexec₂, exec_pure]
      rfl

/-- Arguments come under the names that their symbols stand for. -/
theorem Understands.newArgs (h : Understands F (fun v => v.isText) id handle w) (s : Signature)
    {names : List Value} {raw : List RawArg}
    (hnames : List.Forall₂ (fun name r => name.isText ∧ Stood F handle w name r.symbol) names raw) :
    ∃ w', exec (Host.newArgs E id s raw) w = (.ok w'.nodes.length, { w' with
        nodes := w'.nodes ++ [⟨.args ⟨s, entriesOf names raw, [], false⟩, none, []⟩] }) ∧
      Understands F (fun v => v.isText) id handle w' := by
  obtain ⟨w', hexec, hunderstands⟩ := h.entries hE hnames
  refine ⟨w', ?_, hunderstands⟩
  simp only [Host.newArgs, exec_bind, hexec, exec_addNode]

omit hE in
theorem eq_ok_of_mem {α : Type} {r : Except Failure α} {a : α} (h : a ∈ r.toOption.toList) : r = .ok a := by
  cases r with
  | error f => simp [Except.toOption] at h
  | ok b => rw [show a = b by simpa [Except.toOption] using h]

/-- By induction on what has happened: the scope understands, and what was defined has named arguments. -/
theorem Lifetime.understands (h : Lifetime E F id handle past w) :
    Understands F (fun v => v.isText) id handle w ∧
      ∀ s ∈ past, (∀ a ∈ s.args, a.name.isText) ∧ s.args ≠ [] := by
  induction h with
  | create hvalid hcreate hhandle => exact ⟨understands_create hE hvalid hcreate hhandle, by simp⟩
  | defineType name expr _ ih => exact ⟨ih.1.defineType name expr, ih.2⟩
  | define _ hbuild _ hnames ih ih' =>
    have hstays := Stays.define hE naming_text ih.1 hbuild ih'.1 hnames
    refine ⟨hstays.understands, fun s hs => ?_⟩
    rcases List.mem_append.mp hs with hs | hs
    · exact ih'.2 s hs
    · obtain ⟨hargs, hne⟩ := hstays.given s (eq_ok_of_mem hs)
      exact ⟨hargs ▸ hnames, hne⟩
  | getSignature hname _ ih => exact ⟨(Stays.getSignature hE naming_text hname ih.1).understands, ih.2⟩
  | newArgs s hnames _ ih =>
    obtain ⟨w', hexec, hunderstands⟩ := ih.1.newArgs hE s hnames
    rw [hexec]
    refine ⟨hunderstands.rescoped rfl fun n hn => ⟨n, ?_, rfl, rfl⟩, ih.2⟩
    rw [List.getElem?_append_left (List.getElem?_eq_some_iff.mp hn).1, hn]
  | elsewhere hquiet hscope _ ih => exact ⟨(ih.1.quiet hquiet).rescoped rfl hscope, ih.2⟩

end Entering

/-! ### What was sent -/

/-- An argument as the engine sends it for a declared name: a wire value, or a callback. -/
structure Sent (F : Files S.State) (handle : Value) (w : World S) (s : Signature) (name : Value)
    (r : RawArg) : Prop where
  declared : ∃ a ∈ s.args, a.name = name
  stands : Stood F handle w name r.symbol
  form : r.block = .null → Wire.WireForm r.value

/-- A value that is what was sent: the decoded one, or an object of the call's with the handle of the
callback. -/
structure Presents (args : Nat) (w : World S) (r : RawArg) (v : Value) : Prop where
  value : r.block = .null → Wire.decode r.value = .ok v
  callback : r.block ≠ .null → ∃ b, v = refOf b .block ∧ w.nodes[b]? = some ⟨.block args, some r.block, []⟩

/-- What the engine sends is read as something. -/
theorem readable_of_wireForm {name : Value} {r : RawArg} (h : r.block = .null → Wire.WireForm r.value) :
    Entry.Readable ⟨name, r.value, r.block⟩ := by
  intro hnull
  obtain ⟨v, hdecode, hencode⟩ := (h hnull).returns
  refine ⟨v, hdecode, ?_⟩
  rintro rfl
  cases hencode .top

theorem entriesOf_getElem {names : List Value} {raw : List RawArg} {i : Nat}
    (hname : i < names.length) (hr : i < raw.length) :
    (entriesOf names raw)[i]? = some ⟨names[i], raw[i].value, raw[i].block⟩ := by
  rw [entriesOf, List.getElem?_zipWith, List.getElem?_eq_getElem hname, List.getElem?_eq_getElem hr]

theorem mem_entriesOf {names : List Value} {raw : List RawArg} {entry : Entry}
    (h : entry ∈ entriesOf names raw) : ∃ name, ∃ r ∈ raw, entry = ⟨name, r.value, r.block⟩ := by
  obtain ⟨i, hi, rfl⟩ := List.getElem_of_mem h
  exact ⟨_, _, List.getElem_mem _, List.getElem_zipWith ..⟩

/-- Entries under names have the values under the names. -/
theorem pairsOf_entriesOf {names : List Value} {raw : List RawArg} (hlength : names.length = raw.length)
    (values : Nat → Value) :
    pairsOf (entriesOf names raw) values = names.zip ((List.range raw.length).map values) := by
  refine List.ext_getElem (by simp [pairsOf, entriesOf, hlength]) fun i hi _ => ?_
  have hlt : i < raw.length := by simpa [pairsOf, entriesOf, hlength] using hi
  simp [pairsOf, entriesOf_getElem (hlength ▸ hlt) hlt]

theorem readable_of_sent {s : Signature} {names : List Value} {raw : List RawArg}
    (hsent : List.Forall₂ (Sent F handle w s) names raw) :
    ∀ entry ∈ entriesOf names raw, entry.Readable := by
  intro entry hentry
  obtain ⟨name, r, hr, rfl⟩ := mem_entriesOf hentry
  obtain ⟨i, hi, rfl⟩ := List.getElem_of_mem hr
  exact readable_of_wireForm (hsent.get (hsent.length_eq ▸ hi) hi).form

/-- Values that show the entries are what was sent. -/
theorem presents_of_shows {names : List Value} {raw : List RawArg} {args : Nat} {values : Nat → Value}
    (hlength : names.length = raw.length)
    (hshows : ∀ i entry, (entriesOf names raw)[i]? = some entry → Shows args w entry (values i)) :
    List.Forall₂ (Presents args w) raw ((List.range raw.length).map values) := by
  refine List.forall₂_iff_get.mpr ⟨by simp, fun i hi _ => ?_⟩
  have hshown := hshows i _ (entriesOf_getElem (hlength ▸ hi) hi)
  simpa using (⟨hshown.1, hshown.2⟩ : Presents args w raw[i] (values i))

/-- Once a function has been defined, in a scope where anything may have happened, the arguments that the
engine sends for it can be read, and after any readings in any order there are values, one for each, that
are what was sent and that all the replies were about. -/
theorem replies_as_sent (hE : Filing E F fun v => v.isText) (h : Lifetime E F id handle past w)
    {s : Signature} (hs : s ∈ past) {names : List Value} {raw : List RawArg}
    (hsent : List.Forall₂ (Sent F handle w s) names raw) :
    ∃ args w₁, exec (newArgs E id s raw) w = (.ok args, w₁) ∧
      ∀ accesses : List Access, (∀ a ∈ accesses, a.Proper) →
        let (replies, w₂) := Access.runAll w₁.cursors.length args accesses w₁
        ∃ values w₃, replies = View.replies ⟨s, names.zip values⟩ w₁.cursors.length [] accesses ∧
          exec (Args.items args) w₂ =
            (.ok (.list ((names.zip values).map fun g => .tuple [g.1, g.2])), w₃) ∧
          List.Forall₂ (Presents args w₃) raw values := by
  obtain ⟨hunderstands, hdefined⟩ := h.understands hE
  obtain ⟨hnames_text, hne⟩ := hdefined s hs
  obtain ⟨first, rest, hargs⟩ := List.exists_cons_of_ne_nil hne
  have hname : s.name? = some first.name := by simp [Signature.name?, hargs]
  have hname_text : first.name.isText := hnames_text first (hargs ▸ List.mem_cons_self)
  have hnames : List.Forall₂ (fun name r => name.isText ∧ Stood F handle w name r.symbol) names raw := by
    refine hsent.imp fun n r hr => ⟨?_, hr.stands⟩
    obtain ⟨a, ha, rfl⟩ := hr.declared
    exact hnames_text a ha
  obtain ⟨w', hexec, -⟩ := hunderstands.newArgs hE s hnames
  refine ⟨_, _, hexec, fun accesses hproper => ?_⟩
  have hlength : names.length = raw.length := hsent.length_eq
  have hreadable := readable_of_sent hsent
  have hserving : Serving s (entriesOf names raw) w'.nodes.length w'.cursors.length
      { w' with nodes := w'.nodes ++ [⟨.args ⟨s, entriesOf names raw, [], false⟩, none, []⟩] }
      ⟨s, entriesOf names raw, [], false⟩ [] :=
    ⟨⟨⟨_, List.getElem?_concat_length, rfl⟩, rfl, rfl, rfl, by simp⟩, ⟨rfl, by simp⟩⟩
  obtain ⟨rs, w₂, call, iterations, hrun, hserving₂, -, hreplies⟩ :=
    hserving.replies_all hreadable hname hname_text accesses hproper
  obtain ⟨values, w₃, call', hitems, hkeeps, hvalues, hshows⟩ := hserving₂.toAttends.items hreadable
  have hpairs := pairsOf_entriesOf hlength values
  rw [hpairs] at hitems
  rw [hrun]
  refine ⟨(List.range raw.length).map values, w₃, ?_, hitems, presents_of_shows hlength hshows⟩
  rw [← hpairs]
  exact (hreplies values (hvalues.of_extends hkeeps)).symm

section Gathering

namespace Cabinet

/-- Declares a function of one argument. -/
def first : List (BuildStep Unit) :=
  [.declare (.str "first") (.str "number") true false, .returns (.str "number"),
    .implement (some (.function ()))]

/-- Declares a function whose last argument may repeat. -/
def gathering : List (BuildStep Unit) :=
  [.declare (.str "gather") (.str "string") true false, .declare (.str "rest") (.str "number") false true,
    .returns (.str "number"), .implement (some (.function ()))]

def gatheringSignature : Signature :=
  ⟨[⟨.str "gather", .primitive .string, true, false⟩, ⟨.str "rest", .primitive .number, false, true⟩],
    .primitive .number, false⟩

/-- The scope once the first has been defined. -/
def prepared : World embedding :=
  (exec (Scope.define engine 0 (Scope.declareAll 0 first)) start).2

/-- The scope once both have been. -/
def gathered : World embedding :=
  (exec (Scope.define engine 0 (Scope.declareAll 0 gathering)) prepared).2

/-- The last argument twice, a wire value and a callback, around the first. -/
def sent : List RawArg :=
  [⟨.int 2, Wire.prim "Number" (.int 5), .null⟩, ⟨.int 1, Wire.prim "String" (.str "x"), .null⟩,
    ⟨.int 2, .null, .int 9⟩]

def sentNames : List Value := [.str "rest", .str "gather", .str "rest"]

theorem prepared_lifetime : ∃ past, Lifetime engine files 0 (.int 0) past prepared := by
  have hcreated : Lifetime engine files 0 (.int 0) [] start := .create valid_outset rfl rfl
  have hbuild : exec (Scope.declareAll 0 first) start =
      (.ok ⟨[⟨.str "first", .primitive .number, true, false⟩], false, some (.primitive .number),
        some (.function ())⟩, start) := Prod.ext (by cbv) rfl
  exact ⟨_, .define hcreated hbuild hcreated (by simp [Value.isText])⟩

theorem gathered_lifetime :
    ∃ past, gatheringSignature ∈ past ∧ Lifetime engine files 0 (.int 0) past gathered := by
  obtain ⟨past, hprepared⟩ := prepared_lifetime
  have hbuild : exec (Scope.declareAll 0 gathering) prepared =
      (.ok ⟨gatheringSignature.args, false, some (.primitive .number), some (.function ())⟩, prepared) :=
    Prod.ext (by cbv) rfl
  have hreturned : (exec (Scope.define engine 0 (Scope.declareAll 0 gathering)) prepared).1 =
      .ok gatheringSignature := by cbv
  refine ⟨_, ?_, .define hprepared hbuild hprepared (by simp [gatheringSignature, Value.isText])⟩
  simp [hreturned, Except.toOption]

theorem gathered_names : gathered.engine.names = [.str "first", .str "gather", .str "rest"] := by
  cbv

theorem stood_gathered {k : Nat} {name : String} (h : gathered.engine.names[k]? = some (.str name)) :
    Stood files (.int 0) gathered (.str name) (.int k) :=
  ⟨⟨k, rfl⟩, .str name, rfl, ⟨k, rfl, h⟩, (equals_text rfl).mpr rfl⟩

theorem sent_gathered :
    List.Forall₂ (Sent files (.int 0) gathered gatheringSignature) sentNames sent := by
  have hrest : Stood files (.int 0) gathered (.str "rest") (.int 2) :=
    stood_gathered (k := 2) (by rw [gathered_names]; rfl)
  have hgather : Stood files (.int 0) gathered (.str "gather") (.int 1) :=
    stood_gathered (k := 1) (by rw [gathered_names]; rfl)
  have hdeclared : ∃ a ∈ gatheringSignature.args, a.name = .str "rest" := ⟨_, .tail _ (.head _), rfl⟩
  refine .cons ⟨hdeclared, hrest, fun _ => .int _ _ 5⟩
    (.cons ⟨⟨_, .head _, rfl⟩, hgather, fun _ => .str _ _ "x"⟩
      (.cons ⟨hdeclared, hrest, fun h => ?_⟩ .nil))
  cases h

/-- By name, and by two iterations that take turns. -/
def readings : List Access :=
  [.iterate, .next 0, .demand (.str "rest"), .iterate, .next 1, .next 0, .contains (.str "gather")]

theorem readings_proper : ∀ a ∈ readings, a.Proper := by
  simp [readings, Access.Proper, Value.isText]

end Cabinet

open Cabinet in
theorem replies_as_sent_gathering :
    Filing engine files (fun v => v.isText) ∧
      (∃ past, gatheringSignature ∈ past ∧ Lifetime engine files 0 (.int 0) past gathered) ∧
      List.Forall₂ (Sent files (.int 0) gathered gatheringSignature) sentNames sent ∧
      ∃ args w₁, exec (newArgs engine 0 gatheringSignature sent) gathered = (.ok args, w₁) ∧
        let (replies, w₂) := Access.runAll w₁.cursors.length args readings w₁
        ∃ values w₃, replies =
            View.replies ⟨gatheringSignature, sentNames.zip values⟩ w₁.cursors.length [] readings ∧
          exec (Args.items args) w₂ =
            (.ok (.list ((sentNames.zip values).map fun g => .tuple [g.1, g.2])), w₃) ∧
          List.Forall₂ (Presents args w₃) sent values := by
  obtain ⟨past, hdefined, hlifetime⟩ := gathered_lifetime
  obtain ⟨args, w₁, hexec, hreplies⟩ := replies_as_sent Cabinet.filing hlifetime hdefined sent_gathered
  exact ⟨Cabinet.filing, ⟨past, hdefined, hlifetime⟩, sent_gathered, args, w₁, hexec,
    hreplies readings readings_proper⟩

end Gathering

end EngineHost
