import Mathlib
import EngineHost.Proofs.Execution
import EngineHost.Proofs.Legibility
import EngineHost.Proofs.Lookup
import EngineHost.Proofs.Offences
import EngineHost.Proofs.Tenants

/-!
What becomes of any data that is read as the wire form of a type. The reading goes from left to right and ends at
the first flaw. Something that stands for no type is refused as such; the body of a record or of a callback that
cannot be taken apart is not, but fails as any access to a value of the wrong shape does.
-/
namespace EngineHost

open Host

/-- Numbers, texts, booleans and nothing, in lists and in mappings with texts as keys. -/
inductive Value.IsData : Value → Prop where
  | null : IsData .null
  | bool (b : Bool) : IsData (.bool b)
  | int (i : Int) : IsData (.int i)
  | float (x : Float) : IsData (.float x)
  | str (s : String) : IsData (.str s)
  | letters (text : List Text.Letter) : IsData (.letters text)
  | list {items : List Value} (h : ∀ v ∈ items, IsData v) : IsData (.list items)
  | mapping {kind : MappingKind} {entries : List (Value × Value)} (hkeys : ∀ e ∈ entries, e.1.isText)
      (h : ∀ e ∈ entries, IsData e.2) : IsData (.mapping kind entries)

theorem Value.isData_of_isText {v : Value} (h : v.isText) : v.IsData := by
  cases v with
  | str s => exact .str s
  | letters text => exact .letters text
  | _ => cases h

namespace Ty

/-- What a reading cannot go past. -/
inductive Flaw where
  /-- It stands for no type. -/
  | unknown (w : Value)
  /-- The body of a record or of a callback is not made of its parts. -/
  | misshapen (fault : ShapeFault)

def Flaw.failure : Flaw → Failure
  | .unknown w => .host (.unknownType w)
  | .misshapen fault => .shape fault

/-- Of the elements of a body, where a pair of a mark and of fields is due. -/
def recordFlaw (elements : Option (List Value)) : Flaw :=
  match elements with
  | none => .misshapen .wrongKind
  | some [_, _] => .misshapen .noSuchPart
  | some _ => .misshapen .badContent

/-- Of the elements of a body, where a pair of parameters and of a result is due. Two characters are a pair, but a
character stands for no type. -/
def blockFlaw (elements : Option (List Value)) : Flaw :=
  match elements with
  | none => .misshapen .wrongKind
  | some [c, _] => .unknown c
  | some _ => .misshapen .badContent

/-- Of the elements of what stands in the place of parameters. -/
def paramFlaws (elements : Option (List Value)) : List Flaw :=
  match elements with
  | none => [.misshapen .wrongKind]
  | some [] => []
  | some (c :: _) => [.unknown c]

mutual

/-- The flaws that a reading comes to, in its order, if nothing ends it. -/
def flaws : Value → List Flaw
  | .str tag => if (Primitive.ofTag? tag).isSome then [] else [.unknown (.str tag)]
  | .mapping _ [(.str "Var", _)] => []
  | .mapping _ [(.str "List", element)] => flaws element
  | .mapping _ [(.str "Record", body)] =>
    match body with
    | .list [_, .mapping _ fields] => flawsOfFields fields
    | body => [recordFlaw body.elements?]
  | .mapping _ [(.str "Block", body)] =>
    match body with
    | .list [params, returns] => flawsOfParams params ++ flaws returns
    | .mapping _ [(params, _), (returns, _)] => flawsOfParams params ++ flaws returns
    | body => [blockFlaw body.elements?]
  | w => [.unknown w]

/-- Parameters may also be the keys of a mapping. -/
def flawsOfParams : Value → List Flaw
  | .list params => flawsOfList params
  | .mapping _ entries => flawsOfKeys entries
  | params => paramFlaws params.elements?

def flawsOfList : List Value → List Flaw
  | [] => []
  | w :: rest => flaws w ++ flawsOfList rest

def flawsOfKeys : List (Value × Value) → List Flaw
  | [] => []
  | (k, _) :: rest => flaws k ++ flawsOfKeys rest

def flawsOfFields : List (Value × Value) → List Flaw
  | [] => []
  | (_, .mapping _ parts) :: rest => flawsOfOutput parts ++ flawsOfFields rest
  | (_, _) :: rest => .misshapen .wrongKind :: flawsOfFields rest

def flawsOfOutput : List (Value × Value) → List Flaw
  | [] => [.misshapen (.missingKey (.str "output"))]
  | (.str "output", w) :: _ => flaws w
  | _ :: rest => flawsOfOutput rest

end

/-- How something ends that reads a value with these flaws, if `raise` is what a failure becomes. -/
def Ends {α : Type} (good : α → Prop) (raise : Failure → Failure) (r : Except Failure α) : List Flaw → Prop
  | [] => ∃ a, r = .ok a ∧ good a
  | .unknown w :: _ =>
    r = .error (raise (.host (.unknownType w))) ∧ (raise (.host (.unknownType w))).family = "UnknownTypeError"
  | .misshapen fault :: _ => r = .error (.shape fault)

/-- A reading that comes to these flaws: it ends at the first, and otherwise gives something good. -/
structure Scanned {α : Type} (good : α → Prop) (xs : List Flaw) (c : Checked α) : Prop where
  stops : StopsAt (xs.map Flaw.failure) c
  good : ∀ a, c = .ok a → good a

namespace Scanned

variable {α β : Type} {good : α → Prop} {good' : β → Prop} {xs ys : List Flaw} {c : Checked α}

theorem pure {a : α} (h : good a) : Scanned good [] (.ok a) where
  stops := .pure a
  good := by
    intro b hb
    obtain rfl := Except.ok.inj hb
    exact h

theorem stop (x : Flaw) (rest : List Flaw) : Scanned good (x :: rest) (.error x.failure) where
  stops := rfl
  good := nofun

theorem bind {k : α → Checked β} (h : Scanned good xs c) (hk : ∀ a, good a → Scanned good' ys (k a)) :
    Scanned good' (xs ++ ys) (c >>= k) where
  stops := by
    rw [List.map_append]
    exact h.stops.bind_of_ok fun a ha => (hk a (h.good a ha)).stops
  good := by
    intro b hb
    obtain ⟨a, ha, hb⟩ := Checked.bind_eq_ok hb
    exact (hk a (h.good a ha)).good b hb

/-- What is read is only put into something else. -/
theorem wrap {k : α → Checked β} (h : Scanned good xs c) (hk : ∀ a, good a → Scanned good' [] (k a)) :
    Scanned good' xs (c >>= k) := by
  rw [← List.append_nil xs]
  exact h.bind hk

end Scanned

/-- Reading a value as a type comes to its flaws. -/
def Legal (w : Value) : Prop :=
  Scanned Regular (flaws w) (ofWire w)

theorem Legal.stop {w : Value} {x : Flaw} (hflaws : flaws w = [x]) (h : ofWire w = .error x.failure) :
    Legal w := by
  rw [Legal, hflaws, h]
  exact .stop x []

theorem scanned_list {ws : List Value} (h : ∀ w ∈ ws, Legal w) :
    Scanned RegularList (flawsOfList ws) (ofWireList ws) := by
  induction ws with
  | nil => exact .pure trivial
  | cons w rest ih =>
    have hrest := ih fun v hv => h v (List.mem_cons_of_mem _ hv)
    exact (h w List.mem_cons_self).bind fun t ht => hrest.wrap fun ts hts => .pure ⟨ht, hts⟩

theorem scanned_keys {entries : List (Value × Value)} (h : ∀ e ∈ entries, Legal e.1) :
    Scanned RegularList (flawsOfKeys entries) (ofWireKeys entries) := by
  induction entries with
  | nil => exact .pure trivial
  | cons e rest ih =>
    have hrest := ih fun v hv => h v (List.mem_cons_of_mem _ hv)
    exact (h e List.mem_cons_self).bind fun t ht => hrest.wrap fun ts hts => .pure ⟨ht, hts⟩

theorem scanned_output {parts : List (Value × Value)} (h : ∀ e ∈ parts, Legal e.2) :
    Scanned Regular (flawsOfOutput parts) (ofWireOutput parts) := by
  induction parts with
  | nil => exact .stop _ _
  | cons e rest ih =>
    have hrest := ih fun v hv => h v (List.mem_cons_of_mem _ hv)
    unfold flawsOfOutput
    split
    · contradiction
    · next w _ hcons =>
      obtain ⟨rfl, rfl⟩ := List.cons.inj hcons
      exact h _ List.mem_cons_self
    · next rest' hother hcons =>
      obtain ⟨rfl, rfl⟩ := List.cons.inj hcons
      rw [ofWireOutput]
      · exact hrest
      · exact hother

theorem scanned_fields {entries : List (Value × Value)} (hkeys : ∀ e ∈ entries, e.1.isText)
    (h : ∀ e ∈ entries, ∀ k parts, e.2 = .mapping k parts → ∀ p ∈ parts, Legal p.2) :
    Scanned RegularFields (flawsOfFields entries) (ofWireFields entries) := by
  induction entries with
  | nil => exact .pure trivial
  | cons e rest ih =>
    obtain ⟨name, v⟩ := e
    have hrest := ih (fun f hf => hkeys f (List.mem_cons_of_mem _ hf))
      fun f hf => h f (List.mem_cons_of_mem _ hf)
    cases v with
    | mapping k parts =>
      have hparts := scanned_output (h _ List.mem_cons_self k parts rfl)
      refine hparts.bind fun t ht => hrest.wrap fun fields hfields => ?_
      exact .pure ⟨hkeys _ List.mem_cons_self, ht, ⟨_, rfl⟩, hfields⟩
    | _ => exact .stop _ _

/-- Fields with texts as names can be put in order. -/
theorem scanned_ofFields {fields : List (Value × Field)} {b : Bool} (h : RegularFields fields) :
    Scanned Regular [] (ofFields fields (.bool b)) := by
  obtain ⟨sorted, hsorted, -⟩ := sortByKey?_text fields fun f hf => ((regularFields_iff fields).mp h f hf).1
  have hok : ofFields fields (.bool b) = .ok (.record sorted (.bool b)) := by
    rw [ofFields, hsorted]
    rfl
  rw [hok]
  exact .pure (regular_ofFields h hok)

/-- The elements of a text are its characters. -/
theorem elements?_str (s : String) : (Value.str s).elements? =
    some ((Text.Letter.ofChars s.toList).map fun c => Value.ofLetters [c]) := by
  simp [Value.elements?, Text.Letter.ofChars, Function.comp_def, Value.ofLetters, Text.Letter.chars?]

theorem scanned_params {params : Value} (hparams : params.IsData)
    (h : ∀ w : Value, w.IsData → sizeOf w < sizeOf params → Legal w) :
    Scanned RegularList (flawsOfParams params) (ofWireParams params) := by
  have hcharacters : ∀ s : List Text.Letter,
      Scanned RegularList (paramFlaws (some (s.map fun c => Value.ofLetters [c]))) (ofCharacters s) := by
    intro s
    cases s with
    | nil => exact .pure trivial
    | cons c rest => exact .stop _ _
  cases hparams with
  | list hitems =>
    refine scanned_list fun w hw => h w (hitems w hw) ?_
    exact (Value.Inside.list hw).smaller
  | mapping hkeys _ =>
    refine scanned_keys fun e he => h e.1 (Value.isData_of_isText (hkeys e he)) ?_
    exact (Value.Inside.key he).smaller
  | letters text => exact hcharacters text
  | str s =>
    rw [flawsOfParams, elements?_str]
    · exact hcharacters _
    all_goals exact nofun
  | _ => exact .stop _ _

theorem scanned_block {params returns : Value} (hparams : params.IsData) (hreturns : Legal returns)
    (h : ∀ w : Value, w.IsData → sizeOf w < sizeOf params → Legal w) :
    Scanned Regular (flawsOfParams params ++ flaws returns)
      (do return .block (← ofWireParams params) (← ofWire returns)) :=
  (scanned_params hparams h).bind fun _ hps => hreturns.wrap fun _ ht => .pure ⟨hps, ht⟩

/-- A text is no pair of parameters and a result, not even one of two characters. -/
theorem scanned_characterPair (s : List Text.Letter) :
    Scanned Regular [blockFlaw (some (s.map fun c => Value.ofLetters [c]))] (ofCharacterPair s) := by
  match s with
  | [c, d] => exact .stop _ _
  | [] | [_] | _ :: _ :: _ :: _ => exact .stop _ _

/-- Nor is it a pair of a mark and of fields. -/
theorem recordFlaw_characters (s : List Text.Letter) :
    recordFlaw (some (s.map fun c => Value.ofLetters [c])) =
      .misshapen (if s.length = 2 then .noSuchPart else .badContent) := by
  match s with
  | [] | [_] | [_, _] => rfl
  | _ :: _ :: _ :: _ => simp [recordFlaw]

theorem legal_record {kind : MappingKind} {body : Value} (hbody : body.IsData)
    (h : ∀ w : Value, w.IsData → sizeOf w < sizeOf body → Legal w) :
    Legal (.mapping kind [(.str "Record", body)]) := by
  cases hbody with
  | @list items hitems =>
    match items with
    | [] | [_] => exact .stop rfl rfl
    | [extensible, fields] =>
      cases hitems fields (by simp) with
      | @mapping k entries hkeys hentries =>
        refine (scanned_fields hkeys fun e he k' parts hparts p hp => ?_).wrap fun _ hfs => scanned_ofFields hfs
        have hfields : (Value.mapping k entries).Inside (.list [extensible, .mapping k entries]) := .list (by simp)
        have hvalue := (Value.Inside.value he).trans hfields
        have hdata := hentries e he
        rw [hparts] at hvalue hdata
        cases hdata with
        | mapping _ hall => exact h p.2 (hall p hp) ((Value.Inside.value (k := p.1) hp).trans hvalue).smaller
      | _ => exact .stop rfl rfl
    | _ :: second :: _ :: _ => cases second <;> exact .stop rfl rfl
  | @mapping k entries _ _ =>
    match entries with
    | [] | [_] | [(_, _), (_, _)] | _ :: _ :: _ :: _ => exact .stop rfl rfl
  | str s =>
    refine .stop rfl ?_
    rw [elements?_str, recordFlaw_characters]
    simp [ofWire, Text.Letter.ofChars]
    rfl
  | letters text =>
    refine .stop rfl ?_
    rw [Value.elements?, recordFlaw_characters]
    rfl
  | _ => exact .stop rfl rfl

theorem legal_block {kind : MappingKind} {body : Value} (hbody : body.IsData)
    (h : ∀ w : Value, w.IsData → sizeOf w < sizeOf body → Legal w) :
    Legal (.mapping kind [(.str "Block", body)]) := by
  cases hbody with
  | @list items hitems =>
    match items with
    | [] | [_] | _ :: _ :: _ :: _ => exact .stop rfl rfl
    | [params, returns] =>
      have hparams : params.Inside (.list [params, returns]) := .list (by simp)
      have hreturns : returns.Inside (.list [params, returns]) := .list (by simp)
      exact scanned_block (hitems params (by simp)) (h returns (hitems returns (by simp)) hreturns.smaller)
        fun w hw hsmaller => h w hw (hsmaller.trans hparams.smaller)
  | @mapping k entries hkeys _ =>
    match entries with
    | [] | [_] | _ :: _ :: _ :: _ => exact .stop rfl rfl
    | [(params, v), (returns, v')] =>
      have hparams : params.Inside (.mapping k [(params, v), (returns, v')]) := .key (v := v) (by simp)
      have hreturns : returns.Inside (.mapping k [(params, v), (returns, v')]) := .key (v := v') (by simp)
      have hdata := Value.isData_of_isText (hkeys (params, v) (by simp))
      have hdata' := Value.isData_of_isText (hkeys (returns, v') (by simp))
      exact scanned_block hdata (h returns hdata' hreturns.smaller)
        fun w hw hsmaller => h w hw (hsmaller.trans hparams.smaller)
  | str s =>
    have hpair := scanned_characterPair (Text.Letter.ofChars s.toList)
    rw [← elements?_str] at hpair
    exact hpair
  | letters text => exact scanned_characterPair text
  | _ => exact .stop rfl rfl

theorem legal_of_isData (w : Value) (hw : w.IsData) : Legal w := by
  have inner : ∀ {body : Value}, body.Inside w → ∀ v : Value, v.IsData → sizeOf v < sizeOf body → Legal v := by
    intro body hbody v hv hsmaller
    have := hsmaller.trans hbody.smaller
    exact legal_of_isData v hv
  have hwhole : ∀ {kind : MappingKind} {k body : Value}, w = .mapping kind [(k, body)] →
      body.Inside w ∧ body.IsData := by
    rintro kind k body rfl
    cases hw with
    | mapping _ h => exact ⟨.value List.mem_cons_self, h (k, body) List.mem_cons_self⟩
  -- A record and a callback have cases of their own; the rest is one step of the reading.
  by_cases hrecord : ∃ kind body, w = .mapping kind [(.str "Record", body)]
  · obtain ⟨kind, body, rfl⟩ := hrecord
    obtain ⟨hinside, hbody⟩ := hwhole rfl
    exact legal_record hbody (inner hinside)
  by_cases hblock : ∃ kind body, w = .mapping kind [(.str "Block", body)]
  · obtain ⟨kind, body, rfl⟩ := hblock
    obtain ⟨hinside, hbody⟩ := hwhole rfl
    exact legal_block hbody (inner hinside)
  unfold Legal flaws
  split
  · next tag =>
    rw [ofWire]
    cases hp : Primitive.ofTag? tag with
    | none => exact .stop (.unknown (.str tag)) []
    | some p => exact .pure (primitive_ofTag? hp)
  · next kind name => exact .pure (isText_asText name)
  · next kind element =>
    obtain ⟨hinside, helement⟩ := hwhole rfl
    have := hinside.smaller
    exact (legal_of_isData element helement).wrap fun _ ht => .pure ht
  · exact absurd ⟨_, _, rfl⟩ hrecord
  · exact absurd ⟨_, _, rfl⟩ hblock
  · rw [ofWire]
    · exact .stop (.unknown w) []
    all_goals assumption
termination_by sizeOf w

/-- What a computation that raises the failures of a reading comes to. -/
theorem Scanned.ends {α : Type} {good good' : α → Prop} {xs : List Flaw} {c : Checked α} {raise : Failure → Failure}
    {r : Except Failure α} (h : Scanned good xs c) (hgood : ∀ a, good a → good' a)
    (hr : r = c.mapError raise) (hhost : ∀ w, (raise (.host (.unknownType w))).family = "UnknownTypeError")
    (hshape : ∀ fault, raise (.shape fault) = .shape fault) : Ends good' raise r xs := by
  cases xs with
  | nil =>
    obtain ⟨a, rfl⟩ : ∃ a, c = .ok a := h.stops
    exact ⟨a, hr, hgood a (h.good a rfl)⟩
  | cons x rest =>
    obtain rfl : c = .error x.failure := h.stops
    cases x with
    | unknown w => exact ⟨hr, hhost w⟩
    | misshapen fault => exact hr.trans (congrArg Except.error (hshape fault))

end Ty

namespace TypeInfo

open Ty

/-- A payload that tells types and no errors; a null in the place of the output is no type. -/
def payload (inputs : List (Value × Value)) (output : Value) : Value :=
  .ofFields [("inputs", .mapping .plain inputs), ("errors", .list []), ("output", output)]

/-- A null in the place of the output has no flaw. -/
def flawsOfOutput : Value → List Flaw
  | .null => []
  | w => Ty.flaws w

/-- The flaws of the types of a payload, in the order in which they are read. -/
def flaws (inputs : List (Value × Value)) (output : Value) : List Flaw :=
  inputs.flatMap (fun e => Ty.flaws e.2) ++ flawsOfOutput output

def Regular (info : TypeInfo) : Prop :=
  (∀ e ∈ info.inputs, e.2.Regular) ∧ ∀ t, info.output = some t → t.Regular

/-- What is read after the inputs. -/
def ofWireOutput (inputs : List (Value × Ty)) : Value → Checked TypeInfo
  | .null => .ok ⟨inputs, [], none⟩
  | w => do return ⟨inputs, [], some (← Ty.ofWire w)⟩

theorem scanned_output {inputs : List (Value × Ty)} {output : Value} (hinputs : ∀ e ∈ inputs, e.2.Regular)
    (houtput : output.IsData) : Scanned Regular (flawsOfOutput output) (ofWireOutput inputs output) := by
  have hsome : Scanned Regular (Ty.flaws output) (do return ⟨inputs, [], some (← Ty.ofWire output)⟩) := by
    refine (legal_of_isData output houtput).wrap fun t ht => .pure ⟨hinputs, fun u hu => ?_⟩
    obtain rfl := Option.some.inj hu
    exact ht
  cases output with
  | null => exact .pure ⟨hinputs, nofun⟩
  | _ => exact hsome

end TypeInfo


namespace Host

variable {S : Embedding} {E : Engine S.State} {w : World S} {id : Nat} {n : Node} {handle envelope : Value}
  {state : S.State}

end Host

open Host

end EngineHost
