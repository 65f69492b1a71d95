import EngineHost.Proofs.Accesses

/-!
One call's arguments, read in any order. Whatever is read when, by name or by iterations under way at the
same time, is what one list of names and values says, and that list says what the engine sent.
-/
namespace EngineHost

open Host

variable {S : Embedding}

/-! ### What a call was given -/

/-- All that a call was given, to one who need not read it: values under names, in the order they came. -/
structure View where
  signature : Signature
  given : List (Value × Value)

namespace View

/-- The values under a name, in their order. -/
def valuesOf (v : View) (name : Value) : List Value :=
  (v.given.filter (·.1.equals name)).map Prod.snd

/-- What was given under a declared name: the first value, or all of them if the name may repeat. -/
def find (v : View) (name : Value) : Checked (Option Value) :=
  match v.signature.arg? name with
  | none => .error (.host (.unknownArgument name (v.signature.name?.getD .null)))
  | some spec =>
    match v.valuesOf name with
    | [] => .ok none
    | first :: rest => .ok (some (if spec.variadic then .list (first :: rest) else first))

/-- What was given under a declared name, or what stands for it where nothing was. -/
def answer (v : View) (name : Value) (missing : Except Failure (Option Value)) :
    Except Failure (Option Value) :=
  match v.find name with
  | .error f => .error f
  | .ok none => missing
  | .ok found => .ok found

/-- The reply to a reading, and where the iterations are after it. -/
def reply (v : View) (base : Nat) (iterations : List Nat) :
    Access → Except Failure (Option Value) × List Nat
  | .demand name => (v.answer name (.error (.host (.missingArgument name))), iterations)
  | .maybe name fallback => (v.answer name (.ok (some fallback)), iterations)
  | .size => (.ok (some (.int v.given.length)), iterations)
  | .contains name => (.ok (some (.bool !(v.valuesOf name).isEmpty)), iterations)
  | .iterate => (.ok (some (.object ⟨base + iterations.length, "generator"⟩)), iterations ++ [0])
  | .next k =>
    match iterations[k]? with
    | none => (.error (.shape .wrongKind), iterations)
    | some p =>
      match v.given[p]? with
      | none => (.ok none, iterations)
      | some (name, value) => (.ok (some (.tuple [name, value])), iterations.set k (p + 1))

/-- The replies to readings one after the other. -/
def replies (v : View) (base : Nat) : List Nat → List Access → List (Except Failure (Option Value))
  | _, [] => []
  | iterations, a :: rest =>
    (v.reply base iterations a).1 :: v.replies base (v.reply base iterations a).2 rest

end View

/-- The names of entries with values that are read from them, by position. -/
def pairsOf (entries : List Entry) (values : Nat → Value) : List (Value × Value) :=
  (List.range entries.length).map fun i => ((entries[i]?.map Entry.name).getD .null, values i)

theorem pairsOf_getElem? (entries : List Entry) (values : Nat → Value) (i : Nat) :
    (pairsOf entries values)[i]? = entries[i]?.map fun entry => (entry.name, values i) := by
  rw [pairsOf, List.getElem?_map]
  cases hentry : entries[i]? with
  | none =>
    rw [List.getElem?_eq_none (by simpa using hentry)]
    rfl
  | some entry =>
    rw [List.getElem?_range (List.getElem?_eq_some_iff.mp hentry).1, Option.map_some, hentry]
    rfl

/-- The values under a name stand where the entries of the name do. -/
theorem valuesOf_pairsOf (signature : Signature) (entries : List Entry) (values : Nat → Value)
    (name : Value) :
    View.valuesOf ⟨signature, pairsOf entries values⟩ name = (Args.positions name entries).map values := by
  rw [View.valuesOf, pairsOf, List.filter_map, List.map_map, Args.positions]
  congr 1
  refine List.filter_congr fun i hi => ?_
  have hlt : i < entries.length := List.mem_range.mp hi
  simp [List.getElem?_eq_getElem hlt]

/-- A name stands somewhere if an entry has it. -/
theorem positions_isEmpty (name : Value) (entries : List Entry) :
    (Args.positions name entries).isEmpty = !entries.any (·.name.equals name) := by
  rw [Bool.eq_iff_iff, List.isEmpty_iff, Args.positions, List.filter_eq_nil_iff, Bool.not_eq_true',
    List.any_eq_false]
  constructor
  · intro h entry hmem
    obtain ⟨i, hi, rfl⟩ := List.getElem_of_mem hmem
    simpa [List.getElem?_eq_getElem hi] using h i (List.mem_range.mpr hi)
  · intro h i hi
    have hlt : i < entries.length := List.mem_range.mp hi
    simpa [List.getElem?_eq_getElem hlt] using h entries[i] (List.getElem_mem hlt)

/-! ### Arguments that are being read -/

section Serving

variable {signature : Signature} {entries : List Entry} {args base : Nat} {w w' : World S} {call call' : Call}
  {iterations : List Nat}

/-- An entry that is a wire value can be read, and not as null. -/
def Entry.Readable (entry : Entry) : Prop :=
  entry.block = .null → ∃ v, Wire.decode entry.value = .ok v ∧ v ≠ .null

/-- The value of an entry: a decoded one, or an object of the call's that has the handle of the callback. -/
def Shows (args : Nat) (w : World S) (entry : Entry) (v : Value) : Prop :=
  (entry.block = .null → Wire.decode entry.value = .ok v) ∧
    (entry.block ≠ .null → ∃ b, v = refOf b .block ∧ w.nodes[b]? = some ⟨.block args, some entry.block, []⟩)

/-- Where an iteration is: before a position, or found to be at its end. -/
def Stands (args : Nat) (entries : List Entry) (c : Cursor) (p : Nat) : Prop :=
  c.args = args ∧ (c.finished = false ∧ c.position = p ∨ c.finished = true ∧ entries.length ≤ p)

variable (signature entries args) in
/-- The arguments are open, and what has been read of them is as it came. -/
structure Attends (w : World S) (call : Call) : Prop where
  node : ∃ n, w.nodes[args]? = some n ∧ n.role = .args call
  unreleased : call.released = false
  same_signature : call.signature = signature
  same_entries : call.entries = entries
  shows : ∀ i v, call.decoded.lookup i = some v → ∃ entry, entries[i]? = some entry ∧ Shows args w entry v

variable (entries args base) in
/-- The iterations, the last of the program, are where they have got to. -/
structure Iterates (cursors : List Cursor) (iterations : List Nat) : Prop where
  length : cursors.length = base + iterations.length
  stands : ∀ k p, iterations[k]? = some p → ∃ c, cursors[base + k]? = some c ∧ Stands args entries c p

/-- Nothing that was read is read differently. -/
def Call.Extends (call call' : Call) : Prop :=
  ∀ i v, call.decoded.lookup i = some v → call'.decoded.lookup i = some v

theorem Call.Extends.refl (call : Call) : call.Extends call := fun _ _ h => h

theorem Call.Extends.trans {call call' call'' : Call} (h : call.Extends call') (h' : call'.Extends call'') :
    call.Extends call'' := fun i v hv => h' i v (h i v hv)

/-- Values by position that are those that have been read. -/
def Call.Agrees (call : Call) (values : Nat → Value) : Prop :=
  ∀ i v, call.decoded.lookup i = some v → values i = v

theorem Call.Agrees.of_extends {values : Nat → Value} (h : call'.Agrees values) (hext : call.Extends call') :
    call.Agrees values := fun i v hv => h i v (hext i v hv)

variable (signature entries args) in
/-- From one world to another, some entries have been read. -/
structure Reads (w : World S) (call : Call) (w' : World S) (call' : Call) : Prop extends
    Attends signature entries args w' call' where
  cursors : w'.cursors = w.cursors
  keeps : call.Extends call'

theorem Reads.refl (h : Attends signature entries args w call) :
    Reads signature entries args w call w call := ⟨h, rfl, .refl call⟩

theorem Reads.trans {w'' : World S} {call'' : Call} (h : Reads signature entries args w call w' call')
    (h' : Reads signature entries args w' call' w'' call'') :
    Reads signature entries args w call w'' call'' :=
  ⟨h'.toAttends, h'.cursors.trans h.cursors, h.keeps.trans h'.keeps⟩

theorem Shows.ne_null {entry : Entry} {v : Value} (h : Shows args w entry v) (hreadable : entry.Readable) :
    v ≠ .null := by
  by_cases hnull : entry.block = .null
  · obtain ⟨u, hu, hne⟩ := hreadable hnull
    obtain rfl := Except.ok.inj ((h.1 hnull).symm.trans hu)
    exact hne
  · obtain ⟨b, rfl, -⟩ := h.2 hnull
    simp [refOf]

/-- The call's callbacks stay as they are. -/
def KeepsCallbacks (args : Nat) (w w' : World S) : Prop :=
  ∀ (b : Nat) (n : Node), n.role = .block args → w.nodes[b]? = some n → w'.nodes[b]? = some n

theorem Shows.mono {entry : Entry} {v : Value} (h : Shows args w entry v)
    (hkeeps : KeepsCallbacks args w w') :
    Shows args w' entry v := by
  refine ⟨h.1, fun hne => ?_⟩
  obtain ⟨b, rfl, hb⟩ := h.2 hne
  exact ⟨b, rfl, hkeeps b _ rfl hb⟩

/-- One more entry has been read. -/
theorem Attends.read (h : Attends signature entries args w call) {i : Nat} {entry : Entry}
    {v : Value} (hentry : entries[i]? = some entry) (hunread : call.decoded.lookup i = none)
    (hnode : ∃ n, w'.nodes[args]? = some n ∧ n.role = readRole call i v)
    (hcursors : w'.cursors = w.cursors) (hkeeps : KeepsCallbacks args w w')
    (hshows : Shows args w' entry v) :
    Reads signature entries args w call w' { call with decoded := call.decoded ++ [(i, v)] } ∧
      (call.decoded ++ [(i, v)]).lookup i = some v := by
  have hself : (call.decoded ++ [(i, v)]).lookup i = some v := by
    rw [List.lookup_append, hunread]
    simp
  have hext : call.Extends { call with decoded := call.decoded ++ [(i, v)] } := by
    intro j u hu
    show (call.decoded ++ [(i, v)]).lookup j = some u
    rw [List.lookup_append, hu]
    rfl
  refine ⟨⟨⟨hnode, h.unreleased, h.same_signature, h.same_entries, ?_⟩, hcursors, hext⟩, hself⟩
  intro j u hu
  by_cases hj : j = i
  · subst hj
    obtain rfl := Option.some.inj (hself.symm.trans hu)
    exact ⟨entry, hentry, hshows⟩
  · have hold : call.decoded.lookup j = some u := by
      have hne : (j == i) = false := by simpa using hj
      simpa [List.lookup_append, List.lookup_cons, hne] using hu
    obtain ⟨entry', hentry', hshows'⟩ := h.shows j u hold
    exact ⟨entry', hentry', hshows'.mono hkeeps⟩

theorem exec_valueAt_wire {i : Nat} {n : Node} {entry : Entry} {v : Value} (hn : w.nodes[args]? = some n)
    (hrole : n.role = .args call) (hunread : call.decoded.lookup i = none)
    (hentry : call.entries[i]? = some entry) (hnull : entry.block = .null)
    (hdecode : Wire.decode entry.value = .ok v) :
    exec (Args.valueAt args i) w =
      (.ok v, { w with nodes := w.nodes.modify args fun n => { n with role := readRole call i v } }) := by
  rw [Args.valueAt, exec_bind, exec_callOf hn hrole]
  simp only [hunread, hentry, receive, hnull, hdecode, exec_bind, exec_check_ok, exec_callOf hn hrole,
    exec_setRole, exec_pure, readRole]

theorem exec_valueAt_block {i : Nat} {n : Node} {entry : Entry} (hn : w.nodes[args]? = some n)
    (hrole : n.role = .args call) (hopen : call.released = false) (hunread : call.decoded.lookup i = none)
    (hentry : call.entries[i]? = some entry) (hne : entry.block ≠ .null) :
    exec (Args.valueAt args i) w =
      (.ok (refOf w.nodes.length .block), { w with
        nodes := (adopted (some args) (refOf w.nodes.length .block)
            (w.nodes ++ [⟨.block args, some entry.block, []⟩])).modify args
          fun n => { n with role := readRole call i (refOf w.nodes.length .block) } }) := by
  have hlive : n.isLive := by simp [Node.isLive, hrole, hopen]
  have hwrapped : (adopted (some args) (refOf w.nodes.length .block)
      (w.nodes ++ [⟨.block args, some entry.block, []⟩]))[args]? =
        some (given (some args) (refOf w.nodes.length .block) args n) := added_old hn
  have hcall : exec (callOf args) { w with
      nodes := adopted (some args) (refOf w.nodes.length .block)
        (w.nodes ++ [⟨.block args, some entry.block, []⟩]) } = (.ok call, _) :=
    exec_callOf (n := given (some args) (refOf w.nodes.length .block) args n) hwrapped hrole
  rw [Args.valueAt, exec_bind, exec_callOf hn hrole]
  simp only [hunread, hentry, receive_block hne, exec_bind, exec_wrapBlock hn hlive hne, hcall]
  rfl

/-- A position is read as its entry shows, and from then on always so. -/
theorem Attends.valueAt (hreadable : ∀ entry ∈ entries, entry.Readable)
    (h : Attends signature entries args w call) {i : Nat} (hi : i < entries.length) :
    ∃ v w' call', exec (Args.valueAt args i) w = (.ok v, w') ∧ v ≠ .null ∧
      Reads signature entries args w call w' call' ∧ call'.decoded.lookup i = some v := by
  obtain ⟨n, hn, hrole⟩ := h.node
  have hentry : entries[i]? = some entries[i] := List.getElem?_eq_getElem hi
  have hentry' : call.entries[i]? = some entries[i] := h.same_entries ▸ hentry
  have hread := hreadable entries[i] (List.getElem_mem hi)
  have hcallback : ∀ (b : Nat) (m : Node), m.role = .block args → w.nodes[b]? = some m → args ≠ b := by
    rintro b m hm hb rfl
    obtain rfl := Option.some.inj (hn.symm.trans hb)
    rw [hrole] at hm
    cases hm
  cases hlookup : call.decoded.lookup i with
  | some v =>
    obtain ⟨entry, hentry₁, hshows⟩ := h.shows i v hlookup
    obtain rfl := Option.some.inj (hentry.symm.trans hentry₁)
    refine ⟨v, w, call, ?_, hshows.ne_null hread, .refl h, hlookup⟩
    rw [Args.valueAt, exec_bind, exec_callOf hn hrole]
    simp only [hlookup, exec_pure]
  | none =>
    by_cases hnull : entries[i].block = .null
    · obtain ⟨v, hdecode, hne⟩ := hread hnull
      have hexec := exec_valueAt_wire hn hrole hlookup hentry' hnull hdecode
      refine ⟨v, _, _, hexec, hne, h.read hentry hlookup
        ⟨{ n with role := readRole call i v }, ?_, rfl⟩ rfl ?_ ?_⟩
      · rw [List.getElem?_modify_eq, hn]
        rfl
      · intro b m hm hb
        simp [hcallback b m hm hb, hb]
      · exact ⟨fun _ => hdecode, fun hne => absurd hnull hne⟩
    · have hexec := exec_valueAt_block hn hrole h.unreleased hlookup hentry' hnull
      have hlt : args < w.nodes.length := (List.getElem?_eq_some_iff.mp hn).1
      let v := refOf w.nodes.length .block
      refine ⟨v, _, _, hexec, by simp [v, refOf], h.read hentry hlookup
        ⟨{ given (some args) v args n with role := readRole call i v }, ?_, rfl⟩ rfl ?_ ?_⟩
      · rw [List.getElem?_modify_eq, added_old hn]
        rfl
      · intro b m hm hb
        have hne := hcallback b m hm hb
        show (List.modify _ args _)[b]? = _
        rw [List.getElem?_modify_ne _ _ hne, added_old hb]
        simp [given, hne]
      · refine ⟨fun h => absurd h hnull, fun _ => ⟨w.nodes.length, rfl, ?_⟩⟩
        have hne : args ≠ w.nodes.length := Nat.ne_of_lt hlt
        show (List.modify _ args _)[w.nodes.length]? = _
        rw [List.getElem?_modify_ne _ _ hne, added_new (by simpa using hne)]

theorem Attends.valuesAt (hreadable : ∀ entry ∈ entries, entry.Readable) (positions : List Nat)
    (hpositions : ∀ i ∈ positions, i < entries.length) (h : Attends signature entries args w call) :
    ∃ vs w' call', exec (Args.valuesAt args positions) w = (.ok vs, w') ∧
      Reads signature entries args w call w' call' ∧
      (∀ i ∈ positions, ∃ v, call'.decoded.lookup i = some v) ∧
      ∀ values, call'.Agrees values → vs = positions.map values := by
  induction positions generalizing w call with
  | nil => exact ⟨[], w, call, rfl, .refl h, by simp, fun _ _ => rfl⟩
  | cons i rest ih =>
    obtain ⟨v, w₁, call₁, hexec, -, hreads, hv⟩ := h.valueAt hreadable (hpositions i List.mem_cons_self)
    obtain ⟨vs, w₂, call₂, hexec₂, hreads₂, hread, hvs⟩ :=
      ih (fun j hj => hpositions j (List.mem_cons_of_mem _ hj)) hreads.toAttends
    refine ⟨v :: vs, w₂, call₂, ?_, hreads.trans hreads₂, ?_, fun values hvalues => ?_⟩
    · simp only [Args.valuesAt, exec_bind, hexec, hexec₂, exec_pure]
    · intro j hj
      rcases List.mem_cons.mp hj with rfl | hj
      · exact ⟨v, hreads₂.keeps j v hv⟩
      · exact hread j hj
    · rw [List.map_cons, ← hvs values hvalues, hvalues i v (hreads₂.keeps i v hv)]

/-- What has a text shows as it is. -/
theorem reveal_text {v : Value} (hv : v.isText) (w : World S) : reveal w v = v := by
  cases v with
  | str s => rfl
  | letters s => rfl
  | _ => cases hv

/-- What looking up a name gives, by what is found under it. -/
def Finds : Checked (Option Value) → Except Failure Value → Prop
  | .error f, r => r = .error f
  | .ok none, r => r = .ok .null
  | .ok (some v), r => r = .ok v ∧ v ≠ .null

/-- What is made of what looking up gave. -/
def provided (missing : Except Failure (Option Value)) : Except Failure Value → Except Failure (Option Value)
  | .error f => .error f
  | .ok .null => missing
  | .ok v => .ok (some v)

theorem provided_some {v : Value} (hne : v ≠ .null) (missing : Except Failure (Option Value)) :
    provided missing (.ok v) = .ok (some v) := by
  cases v <;> first | rfl | exact absurd rfl hne

theorem Finds.provided {view : View} {name : Value} {r : Except Failure Value} (h : Finds (view.find name) r)
    (missing : Except Failure (Option Value)) : view.answer name missing = provided missing r := by
  rw [View.answer]
  cases hfound : view.find name with
  | error f =>
    rw [hfound] at h
    obtain rfl := h
    rfl
  | ok found =>
    rw [hfound] at h
    cases found with
    | none =>
      obtain rfl := h
      rfl
    | some v =>
      obtain ⟨rfl, hne⟩ := h
      rw [provided_some hne]

theorem Attends.lookup (hreadable : ∀ entry ∈ entries, entry.Readable)
    {function name : Value} (hfunction : signature.name? = some function) (hfunction_text : function.isText)
    (hname : name.isText) (h : Attends signature entries args w call) :
    ∃ r w' call', exec (Args.lookup args name) w = (r, w') ∧
      Reads signature entries args w call w' call' ∧
      ∀ values, call'.Agrees values → Finds (View.find ⟨signature, pairsOf entries values⟩ name) r := by
  obtain ⟨n, hn, hrole⟩ := h.node
  rw [Args.lookup, exec_bind, exec_liveCall hn hrole h.unreleased]
  simp only [View.find, valuesOf_pairsOf, h.same_signature, h.same_entries]
  cases harg : signature.arg? name with
  | none =>
    refine ⟨_, w, call, ?_, .refl h, fun _ _ => rfl⟩
    have hcheck : signature.name = .ok function := by
      rw [Signature.name, hfunction]
      rfl
    have hfail : (HostError.unknownArgument name function).mapValues (reveal w) =
        .unknownArgument name function := by
      rw [HostError.mapValues, reveal_text hname, reveal_text hfunction_text]
    simp only [hcheck, hfunction, Option.getD_some, exec_bind, exec_check_ok, fail, exec_get, hfail]
    rfl
  | some spec =>
    have hpositions : ∀ i ∈ Args.positions name entries, i < entries.length := fun i hi =>
      List.mem_range.mp (List.mem_filter.mp hi).1
    cases hfound : Args.positions name entries with
    | nil => exact ⟨_, w, call, rfl, .refl h, fun _ _ => rfl⟩
    | cons first rest =>
      rw [hfound] at hpositions
      by_cases hvariadic : spec.variadic = true
      · obtain ⟨vs, w', call', hexec, hreads, -, hvs⟩ :=
          h.valuesAt hreadable (first :: rest) hpositions
        refine ⟨.ok (.list vs), w', call', ?_, hreads, fun values hvalues => ?_⟩
        · simp only [hvariadic, if_true, exec_bind, hexec, exec_pure]
        · rw [hvs values hvalues]
          exact ⟨by simp [hvariadic], by simp [hvariadic]⟩
      · obtain ⟨v, w', call', hexec, hne, hreads, hv⟩ :=
          h.valueAt hreadable (hpositions first List.mem_cons_self)
        refine ⟨.ok v, w', call', ?_, hreads, fun values hvalues => ?_⟩
        · simpa only [hvariadic, Bool.false_eq_true, if_false] using hexec
        · obtain rfl := hvalues first v hv
          exact ⟨by simp [hvariadic], by simpa [hvariadic] using hne⟩

/-! ### One reading, and all of them -/

theorem Attends.congr (h : Attends signature entries args w call) (hnodes : w'.nodes = w.nodes) :
    Attends signature entries args w' call where
  node := hnodes ▸ h.node
  unreleased := h.unreleased
  same_signature := h.same_signature
  same_entries := h.same_entries
  shows := by
    intro i v hv
    obtain ⟨entry, hentry, hshows⟩ := h.shows i v hv
    exact ⟨entry, hentry, hshows.mono fun b n _ hb => hnodes ▸ hb⟩

variable (signature entries args base) in
/-- The arguments are being read, by iterations as well. -/
structure Serving (w : World S) (call : Call) (iterations : List Nat) : Prop extends
    Attends signature entries args w call where
  iterates : Iterates entries args base w.cursors iterations

theorem Reads.serving (h : Reads signature entries args w call w' call')
    (hiterates : Iterates entries args base w.cursors iterations) :
    Serving signature entries args base w' call' iterations :=
  ⟨h.toAttends, h.cursors ▸ hiterates⟩

variable (signature entries args base) in
/-- A reading whose reply is that of the view, whatever is yet to be read, and after which the arguments
are being read as before. -/
def Replies (w : World S) (call : Call) (iterations : List Nat) (a : Access) : Prop :=
  ∃ r w' call' iterations', exec (a.run base args) w = (r, w') ∧
    Serving signature entries args base w' call' iterations' ∧ call.Extends call' ∧
    ∀ values, call'.Agrees values →
      View.reply ⟨signature, pairsOf entries values⟩ base iterations a = (r, iterations')

/-- Names are texts. -/
def Access.Proper : Access → Prop
  | .demand name | .maybe name _ | .contains name => name.isText
  | _ => True

/-- An iteration moves, and the others stay. -/
theorem Iterates.set {cursors : List Cursor} {k p p' : Nat} {c' : Cursor}
    (h : Iterates entries args base cursors iterations) (hk : iterations[k]? = some p)
    (hc' : Stands args entries c' p') :
    Iterates entries args base (cursors.modify (base + k) fun _ => c') (iterations.set k p') where
  length := by simpa using h.length
  stands := by
    intro j q hj
    by_cases hjk : k = j
    · subst hjk
      obtain ⟨c, hc, -⟩ := h.stands k p hk
      have hlt : k < iterations.length := (List.getElem?_eq_some_iff.mp hk).1
      rw [List.getElem?_set_self hlt] at hj
      obtain rfl := Option.some.inj hj
      exact ⟨c', by rw [List.getElem?_modify_eq, hc]; rfl, hc'⟩
    · rw [List.getElem?_set_ne hjk] at hj
      obtain ⟨c, hc, hstands⟩ := h.stands j q hj
      exact ⟨c, by rw [List.getElem?_modify_ne _ _ (by omega)]; exact hc, hstands⟩

section

variable {function : Value} (hreadable : ∀ entry ∈ entries, entry.Readable)
  (hfunction : signature.name? = some function) (hfunction_text : function.isText)
  (h : Serving signature entries args base w call iterations)

include h

theorem Serving.size : Replies signature entries args base w call iterations .size := by
  obtain ⟨n, hn, hrole⟩ := h.node
  refine ⟨.ok (some (.int entries.length)), w, call, iterations, ?_, h, .refl call, fun values _ => ?_⟩
  · simp only [Access.run, exec_map, Args.size, exec_bind, exec_liveCall hn hrole h.unreleased, exec_pure,
      h.same_entries, Except.map]
  · simp [View.reply, pairsOf]

theorem Serving.contains (name : Value) :
    Replies signature entries args base w call iterations (.contains name) := by
  obtain ⟨n, hn, hrole⟩ := h.node
  refine ⟨.ok (some (.bool (entries.any (·.name.equals name)))), w, call, iterations, ?_, h, .refl call,
    fun values _ => ?_⟩
  · simp only [Access.run, exec_map, Args.contains, exec_bind, exec_liveCall hn hrole h.unreleased,
      exec_pure, h.same_entries, Except.map]
  · rw [View.reply, valuesOf_pairsOf, List.isEmpty_map, positions_isEmpty, Bool.not_not]

theorem Serving.iterate : Replies signature entries args base w call iterations .iterate := by
  refine ⟨.ok (some (.object ⟨w.cursors.length, "generator"⟩)), _, call, iterations ++ [0], rfl,
    ⟨h.toAttends.congr rfl, ?_, ?_⟩, .refl call, fun values _ => ?_⟩
  · simp [h.iterates.length, Nat.add_assoc]
  · intro k p hk
    by_cases hold : k < iterations.length
    · rw [List.getElem?_append_left hold] at hk
      obtain ⟨c, hc, hstands⟩ := h.iterates.stands k p hk
      exact ⟨c, by rw [List.getElem?_append_left (List.getElem?_eq_some_iff.mp hc).1, hc], hstands⟩
    · obtain ⟨hlt, hp⟩ := List.getElem?_eq_some_iff.mp hk
      obtain rfl : k = iterations.length := by
        rw [List.length_append, List.length_singleton] at hlt
        omega
      obtain rfl : 0 = p := by simpa using hp
      exact ⟨⟨args, 0, false, false⟩, by rw [← h.iterates.length, List.getElem?_concat_length], rfl,
        .inl ⟨rfl, rfl⟩⟩
  · simp [View.reply, h.iterates.length]

include hreadable

/-- An iteration that has not found its end hands out the entry it is at, whatever else has been read. -/
theorem Serving.advance {k p : Nat} {c : Cursor} (hk : iterations[k]? = some p)
    (hc : w.cursors[base + k]? = some c) (hargs : c.args = args) (hgoing : c.finished = false)
    (hp : c.position = p) : Replies signature entries args base w call iterations (.next k) := by
  obtain ⟨n, hn, hrole⟩ := h.node
  have hlive : n.isLive := by simp [Node.isLive, hrole, h.unreleased]
  have hexec : exec (Args.next (base + k)) w = exec (Args.advance (base + k) c) (ending w (base + k) c) := by
    cases hstarted : c.started with
    | true => exact exec_next_later hc hgoing hstarted
    | false =>
      rw [exec_next_first hc hgoing hstarted, exec_bind,
        exec_checkLive (w := ending w (base + k) c) (hargs ▸ hn) hlive]
  subst hargs hp
  rw [Args.advance, exec_bind, exec_callOf (w := ending w (base + k) c) hn hrole] at hexec
  dsimp only at hexec
  rw [h.same_entries] at hexec
  cases hentry : entries[c.position]? with
  | none =>
    rw [hentry] at hexec
    have hend : Stands c.args entries { c with finished := true } c.position :=
      ⟨rfl, .inr ⟨rfl, List.getElem?_eq_none_iff.mp hentry⟩⟩
    have hset := h.iterates.set hk hend
    obtain ⟨hlt, hat⟩ := List.getElem?_eq_some_iff.mp hk
    have hsame : iterations.set k c.position = iterations := by
      rw [← hat, List.set_getElem_self]
    rw [hsame] at hset
    refine ⟨.ok none, _, call, iterations, hexec, ⟨h.toAttends.congr rfl, hset⟩, .refl call,
      fun values _ => ?_⟩
    simp [View.reply, hk, pairsOf_getElem?, hentry]
  | some entry =>
    rw [hentry] at hexec
    have hopen : Attends signature entries c.args (ending w (base + k) c) call := h.toAttends.congr rfl
    obtain ⟨v, w₁, call₁, hvalue, -, hreads, hv⟩ :=
      hopen.valueAt hreadable (List.getElem?_eq_some_iff.mp hentry).1
    have hmoved : Stands c.args entries { c with position := c.position + 1, started := true }
        (c.position + 1) := ⟨rfl, .inl ⟨hgoing, rfl⟩⟩
    have hset := h.iterates.set hk hmoved
    simp only [exec_bind, hvalue, Args.setCursor, exec_modify, exec_pure] at hexec
    refine ⟨_, _, call₁, iterations.set k (c.position + 1), hexec, ⟨hreads.toAttends.congr rfl, ?_⟩,
      hreads.keeps, fun values hvalues => ?_⟩
    · rw [hreads.cursors]
      show Iterates entries c.args base ((w.cursors.modify (base + k) _).modify (base + k) _) _
      rw [List.modify_modify_eq]
      exact hset
    · simp [View.reply, hk, pairsOf_getElem?, hentry, hvalues _ v hv]

theorem Serving.next (k : Nat) : Replies signature entries args base w call iterations (.next k) := by
  cases hk : iterations[k]? with
  | none =>
    have hnone : w.cursors[base + k]? = none := by
      rw [List.getElem?_eq_none_iff] at hk ⊢
      rw [h.iterates.length]
      omega
    exact ⟨_, w, call, iterations, exec_next_none hnone, h, .refl call,
      fun values _ => by simp [View.reply, hk]⟩
  | some p =>
    obtain ⟨c, hc, hargs, ⟨hgoing, hp⟩ | ⟨hfinished, hp⟩⟩ := h.iterates.stands k p hk
    · exact h.advance hreadable hk hc hargs hgoing hp
    · refine ⟨_, w, call, iterations, exec_next_finished hc hfinished, h, .refl call, fun values _ => ?_⟩
      simp [View.reply, hk, pairsOf_getElem?, List.getElem?_eq_none hp]

include hfunction hfunction_text

theorem Serving.demand {name : Value} (hname : name.isText) :
    Replies signature entries args base w call iterations (.demand name) := by
  obtain ⟨r, w', call', hexec, hreads, hfinds⟩ := h.lookup hreadable hfunction hfunction_text hname
  have hmissing : (HostError.missingArgument name).mapValues (reveal w') = .missingArgument name := by
    rw [HostError.mapValues, reveal_text hname]
  let missing : Except Failure (Option Value) := .error (.host (.missingArgument name))
  refine ⟨provided missing r, w', call', iterations, ?_, hreads.serving h.iterates, hreads.keeps,
    fun values hvalues => ?_⟩
  · simp only [Access.run, exec_map, Args.demand, exec_bind, hexec]
    cases r with
    | error f => rfl
    | ok v =>
      cases v with
      | null =>
        simp only [fail, exec_bind, exec_get, hmissing]
        rfl
      | _ => rfl
  · rw [View.reply, (hfinds values hvalues).provided]

theorem Serving.maybe {name : Value} (fallback : Value) (hname : name.isText) :
    Replies signature entries args base w call iterations (.maybe name fallback) := by
  obtain ⟨r, w', call', hexec, hreads, hfinds⟩ := h.lookup hreadable hfunction hfunction_text hname
  refine ⟨provided (.ok (some fallback)) r, w', call', iterations, ?_, hreads.serving h.iterates,
    hreads.keeps, fun values hvalues => ?_⟩
  · simp only [Access.run, exec_map, Args.maybe, exec_bind, hexec]
    cases r with
    | error f => rfl
    | ok v => cases v <;> rfl
  · rw [View.reply, (hfinds values hvalues).provided]

theorem Serving.replies (a : Access) (ha : a.Proper) :
    Replies signature entries args base w call iterations a := by
  cases a with
  | demand name => exact h.demand hreadable hfunction hfunction_text ha
  | maybe name fallback => exact h.maybe hreadable hfunction hfunction_text fallback ha
  | size => exact h.size
  | contains name => exact h.contains name
  | iterate => exact h.iterate
  | next k => exact h.next hreadable k

/-- By induction on the readings: each reply is the view's, whatever is read after it. -/
theorem Serving.replies_all (accesses : List Access) (hproper : ∀ a ∈ accesses, a.Proper) :
    ∃ rs w' call' iterations', Access.runAll base args accesses w = (rs, w') ∧
      Serving signature entries args base w' call' iterations' ∧ call.Extends call' ∧
      ∀ values, call'.Agrees values →
        View.replies ⟨signature, pairsOf entries values⟩ base iterations accesses = rs := by
  induction accesses generalizing w call iterations with
  | nil => exact ⟨[], w, call, iterations, rfl, h, .refl call, fun _ _ => rfl⟩
  | cons a rest ih =>
    obtain ⟨r, w₁, call₁, iterations₁, hexec, h₁, hkeeps₁, hreply⟩ :=
      h.replies hreadable hfunction hfunction_text a (hproper a List.mem_cons_self)
    obtain ⟨rs, w₂, call₂, iterations₂, hrun, h₂, hkeeps₂, hreplies⟩ :=
      ih h₁ fun b hb => hproper b (List.mem_cons_of_mem _ hb)
    refine ⟨r :: rs, w₂, call₂, iterations₂, ?_, h₂, hkeeps₁.trans hkeeps₂, fun values hvalues => ?_⟩
    · simp only [Access.runAll, hexec, hrun]
    · rw [View.replies, hreply values (hvalues.of_extends hkeeps₂), hreplies values hvalues]

end

/-- What has been read in the end is every entry, each as it shows. -/
theorem Attends.items (hreadable : ∀ entry ∈ entries, entry.Readable)
    (h : Attends signature entries args w call) :
    ∃ values w' call', exec (Args.items args) w =
        (.ok (.list ((pairsOf entries values).map fun g => .tuple [g.1, g.2])), w') ∧
      call.Extends call' ∧ call'.Agrees values ∧
      ∀ i entry, entries[i]? = some entry → Shows args w' entry (values i) := by
  obtain ⟨n, hn, hrole⟩ := h.node
  obtain ⟨vs, w', call', hexec, hreads, hread, hvs⟩ :=
    h.valuesAt hreadable (List.range entries.length) fun i hi => List.mem_range.mp hi
  let values := fun i => (call'.decoded.lookup i).getD .null
  have hvalues : call'.Agrees values := fun i v hv => by simp [values, hv]
  refine ⟨values, w', call', ?_, hreads.keeps, hvalues, ?_⟩
  · obtain rfl := hvs values hvalues
    simp only [Args.items, exec_bind, exec_liveCall hn hrole h.unreleased, h.same_entries, hexec, exec_pure]
    congr 3
    refine List.ext_getElem (by simp [pairsOf]) fun i hi _ => ?_
    have hlt : i < entries.length := by simpa using hi
    simp [pairsOf, List.getElem?_eq_getElem hlt]
  · intro i entry hentry
    obtain ⟨v, hv⟩ := hread i (List.mem_range.mpr (List.getElem?_eq_some_iff.mp hentry).1)
    obtain ⟨entry', hentry', hshows⟩ := hreads.shows i v hv
    obtain rfl := Option.some.inj (hentry.symm.trans hentry')
    rw [hvalues i v hv]
    exact hshows

end Serving

end EngineHost
