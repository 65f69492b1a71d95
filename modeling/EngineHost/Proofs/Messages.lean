import EngineHost.Proofs.Execution

/-!
Every failure of the library's own checks can be told to the engine: only a message of the engine itself
may be something else than a text.
-/
namespace EngineHost

variable {α β : Type}

/-- A check whose failure can be told. -/
def Tells (c : Checked α) : Prop :=
  ∀ f, c = .error f → f.Tellable

namespace Tells

theorem pure (a : α) : Tells (Pure.pure a : Checked α) := by
  intro f hf
  cases hf

theorem error {f : Failure} (h : f.message?.isSome = true) : Tells (.error f : Checked α) := by
  intro g hg
  obtain rfl := Except.error.inj hg
  exact h

/-- What is wrong with a shape can always be told. -/
theorem shape (fault : ShapeFault) : Tells (.error (.shape fault) : Checked α) :=
  .error (by cases fault <;> rfl)

theorem bind {c : Checked α} {k : α → Checked β} (hc : Tells c) (hk : ∀ a, Tells (k a)) :
    Tells (c >>= k) := by
  cases c with
  | error f =>
    intro g hg
    obtain rfl := Except.error.inj hg
    exact hc f rfl
  | ok a => exact hk a

theorem map {c : Checked α} (hc : Tells c) (k : α → β) : Tells (k <$> c) := by
  cases c with
  | error f =>
    intro g hg
    obtain rfl := Except.error.inj hg
    exact hc f rfl
  | ok a => exact pure _

theorem mapM {k : α → Checked β} (hk : ∀ a, Tells (k a)) (xs : List α) : Tells (xs.mapM k) := by
  induction xs with
  | nil => exact pure _
  | cons x rest ih =>
    rw [List.mapM_cons]
    exact (hk x).bind fun _ => ih.bind fun _ => pure _

end Tells

namespace Wire

mutual

theorem tells_encode (place : Place) : ∀ v, Tells (encode place v)
  | .bool _ | .int _ | .float _ | .str _ | .letters _ | .moment _ | .date _ => .pure _
  | .list items | .tuple items => (tells_encodeList place 0 items).bind fun _ => .pure _
  | .mapping _ entries => (tells_encodeEntries place entries).bind fun _ => .pure _
  | .data _ fields => (tells_encodeFields place fields).bind fun _ => .pure _
  | .type t => tells_encodeType place t
  | .listOf element => (tells_encode _ element).bind fun _ => .pure _
  | .variable name => (tells_encode _ name).bind fun _ => .pure _
  | .blockOf params returns =>
    (tells_encodeList _ 0 params).bind fun _ => (tells_encode _ returns).bind fun _ => .pure _
  | .fieldSpec expr _ => (tells_encode _ expr).bind fun _ => .pure _
  | .recordOf fields extensible =>
    (tells_encodePairs _ 0 fields).bind fun _ => (tells_encode _ extensible).bind fun _ => .pure _
  | .null | .foreign _ | .object _ => .error rfl

theorem tells_encodeList (place : Place) (index : Nat) : ∀ vs, Tells (encodeList place index vs)
  | [] => .pure _
  | v :: rest =>
    (tells_encode _ v).bind fun _ => (tells_encodeList place (index + 1) rest).bind fun _ => .pure _

theorem tells_encodeEntries (place : Place) : ∀ es, Tells (encodeEntries place es)
  | [] => .pure _
  | (key, v) :: rest => by
    rw [encodeEntries]
    split
    · exact (tells_encode _ v).bind fun _ => (tells_encodeEntries place rest).bind fun _ => .pure _
    · exact .error rfl

theorem tells_encodeFields (place : Place) : ∀ fs, Tells (encodeFields place fs)
  | [] => .pure _
  | (_, v) :: rest =>
    (tells_encode _ v).bind fun _ => (tells_encodeFields place rest).bind fun _ => .pure _

theorem tells_encodePairs (place : Place) (index : Nat) : ∀ es, Tells (encodePairs place index es)
  | [] => .pure _
  | (k, v) :: rest =>
    (tells_encode _ k).bind fun _ => (tells_encode _ v).bind fun _ =>
      (tells_encodePairs place (index + 1) rest).bind fun _ => .pure _

theorem tells_encodeType (place : Place) : ∀ t, Tells (encodeType place t)
  | .primitive _ => .pure _
  | .variable name => (tells_encode _ name).bind fun _ => .pure _
  | .list element => (tells_encodeType _ element).bind fun _ => .pure _
  | .record fields extensible =>
    (tells_encodeTypeFields _ 0 fields).bind fun _ => (tells_encode _ extensible).bind fun _ => .pure _
  | .block params returns =>
    (tells_encodeTypes _ 0 params).bind fun _ => (tells_encodeType _ returns).bind fun _ => .pure _

theorem tells_encodeTypes (place : Place) (index : Nat) : ∀ ts, Tells (encodeTypes place index ts)
  | [] => .pure _
  | t :: rest =>
    (tells_encodeType _ t).bind fun _ => (tells_encodeTypes place (index + 1) rest).bind fun _ => .pure _

theorem tells_encodeTypeFields (place : Place) (index : Nat) :
    ∀ fs, Tells (encodeTypeFields place index fs)
  | [] => .pure _
  | (k, .mk t isOptional) :: rest =>
    (tells_encode _ k).bind fun _ => (tells_encodeType _ t).bind fun _ =>
      (tells_encode _ isOptional).bind fun _ =>
        (tells_encodeTypeFields place (index + 1) rest).bind fun _ => .pure _

end

theorem tells_encodeInputs (inputs : Value) : Tells (encodeInputs inputs) := by
  unfold encodeInputs
  split
  · exact .pure _
  · split
    · exact tells_encodeEntries _ _
    · exact .error rfl

theorem tells_fromInstant (micros : Int) : Tells (momentOfMillis.fromInstant micros) := by
  unfold momentOfMillis.fromInstant
  split
  · exact .pure _
  · exact .error rfl

theorem tells_momentOfMillis (v : Value) : Tells (momentOfMillis v) := by
  unfold momentOfMillis
  split
  · exact tells_fromInstant _
  · exact tells_fromInstant _
  · split
    · exact .error rfl
    · exact .error rfl
    · exact tells_fromInstant _
  · exact .error rfl

theorem tells_decodeScalar (whole kind scalar : Value) : Tells (decodeScalar whole kind scalar) := by
  unfold decodeScalar
  split
  · exact tells_momentOfMillis scalar
  · exact .pure _
  · exact .pure _
  · exact .pure _
  · exact .error rfl

mutual

theorem tells_decode (v : Value) : Tells (decode v) := by
  unfold decode
  split
  · split
    · exact tells_decodeScalar _ _ _
    · exact .error rfl
  · split
    · exact (tells_decodeList _).bind fun _ => .pure _
    · exact (tells_decodeList _).bind fun _ => .pure _
    · exact .error rfl
  · split
    · exact (tells_decodeEntries _).bind fun _ => .pure _
    · exact .error rfl
  · exact .error rfl

theorem tells_decodeList : ∀ vs, Tells (decodeList vs)
  | [] => .pure _
  | v :: rest => (tells_decode v).bind fun _ => (tells_decodeList rest).bind fun _ => .pure _

theorem tells_decodeEntries : ∀ es, Tells (decodeEntries es)
  | [] => .pure _
  | (_, v) :: rest => (tells_decode v).bind fun _ => (tells_decodeEntries rest).bind fun _ => .pure _

end

end Wire

namespace Value

theorem tells_elements (v : Value) : Tells v.elements := by
  unfold elements
  split
  · exact .pure _
  · exact .error rfl

theorem tells_entries (v : Value) : Tells v.entries := by
  unfold entries
  split
  · exact .pure _
  · exact .error rfl

theorem tells_atKey (v : Value) (key : String) : Tells (v.atKey key) := by
  unfold atKey
  split
  · split
    · exact .pure _
    · exact .error rfl
  · exact .error rfl

theorem tells_atKeyOr (v : Value) (key : String) (default : Value) : Tells (v.atKeyOr key default) :=
  (tells_entries v).bind fun _ => .pure _

theorem tells_toInt (v : Value) : Tells v.toInt := by
  unfold toInt
  repeat' split
  all_goals first
    | exact .pure _
    | exact .error rfl

end Value

namespace Ty

theorem tells_ofFields (fields : List (Value × Field)) (extensible : Value) :
    Tells (ofFields fields extensible) := by
  unfold ofFields
  split
  · exact .pure _
  · exact .error rfl

theorem tells_ofCharacters (s : List Text.Letter) : Tells (ofCharacters s) := by
  unfold ofCharacters
  split
  · exact .pure _
  · exact .error rfl

theorem tells_ofCharacterPair (s : List Text.Letter) : Tells (ofCharacterPair s) := by
  unfold ofCharacterPair
  split
  · exact .error rfl
  · exact .error rfl

mutual

theorem tells_ofWire (v : Value) : Tells (ofWire v) := by
  unfold ofWire
  split
  · split
    · exact .pure _
    · exact .error rfl
  · exact .pure _
  · exact (tells_ofWire _).bind fun _ => .pure _
  · split
    · exact tells_ofWireRecord _ _
    · exact tells_ofWireRecord _ _
    all_goals exact .shape _
  · split
    · exact (tells_ofWireParams _).bind fun _ => (tells_ofWire _).bind fun _ => .pure _
    · exact (tells_ofWireParams _).bind fun _ => (tells_ofWire _).bind fun _ => .pure _
    · exact (tells_ofWireParams _).bind fun _ => (tells_ofWire _).bind fun _ => .pure _
    · exact tells_ofCharacterPair _
    · exact tells_ofCharacterPair _
    all_goals exact .error rfl
  · exact .error rfl

theorem tells_ofWireRecord (extensible : Value) (v : Value) : Tells (ofWireRecord extensible v) := by
  unfold ofWireRecord
  split
  · exact (tells_ofWireFields _).bind fun _ => tells_ofFields _ _
  · exact .error rfl

theorem tells_ofWireParams (v : Value) : Tells (ofWireParams v) := by
  unfold ofWireParams
  split
  · exact tells_ofWireList _
  · exact tells_ofWireList _
  · exact tells_ofWireKeys _
  · exact tells_ofCharacters _
  · exact tells_ofCharacters _
  · exact .error rfl

theorem tells_ofWireList : ∀ vs, Tells (ofWireList vs)
  | [] => .pure _
  | v :: rest => (tells_ofWire v).bind fun _ => (tells_ofWireList rest).bind fun _ => .pure _

theorem tells_ofWireKeys : ∀ es, Tells (ofWireKeys es)
  | [] => .pure _
  | (k, _) :: rest => (tells_ofWire k).bind fun _ => (tells_ofWireKeys rest).bind fun _ => .pure _

theorem tells_ofWireFields (es : List (Value × Value)) : Tells (ofWireFields es) := by
  unfold ofWireFields
  split
  · exact .pure _
  · exact (tells_ofWireOutput _).bind fun _ => (tells_ofWireFields _).bind fun _ => .pure _
  · exact .error rfl

theorem tells_ofWireOutput (es : List (Value × Value)) : Tells (ofWireOutput es) := by
  unfold ofWireOutput
  split
  · exact .error rfl
  · exact tells_ofWire _
  · exact tells_ofWireOutput _

end

end Ty

namespace Registry

theorem tells_resolveName (r : Registry) (name : Value) : Tells (r.resolveName name) := by
  unfold resolveName
  split
  · exact .pure _
  · exact .pure _
  · exact .error rfl

mutual

theorem tells_resolve (r : Registry) (v : Value) : Tells (r.resolve v) := by
  unfold resolve
  split
  · exact .pure _
  · exact tells_resolveName _ _
  · exact tells_resolveName _ _
  · exact (tells_resolve r _).bind fun _ => .pure _
  · exact .pure _
  · exact (tells_resolveList r _).bind fun _ => (tells_resolve r _).bind fun _ => .pure _
  · exact (tells_resolveFields r _).bind fun _ => Ty.tells_ofFields _ _
  · exact (tells_resolveFields r _).bind fun _ => Ty.tells_ofFields _ _
  · exact .error rfl

theorem tells_resolveList (r : Registry) : ∀ vs, Tells (r.resolveList vs)
  | [] => .pure _
  | v :: rest => (tells_resolve r v).bind fun _ => (tells_resolveList r rest).bind fun _ => .pure _

theorem tells_resolveFields (r : Registry) (es : List (Value × Value)) : Tells (r.resolveFields es) := by
  unfold resolveFields
  split
  · exact .pure _
  · split
    · exact (tells_resolve r _).bind fun _ => (tells_resolveFields r _).bind fun _ => .pure _
    · exact .error rfl
  · split
    · exact (tells_resolve r _).bind fun _ => (tells_resolveFields r _).bind fun _ => .pure _
    · exact .error rfl

end

theorem tells_define (r : Registry) (name expr : Value) : Tells (r.define name expr) := by
  unfold define
  split
  · exact .error rfl
  · split
    · exact .error rfl
    · exact (tells_resolve r expr).bind fun _ => .pure _

end Registry

namespace Builder

variable {β : Type}

theorem tells_step (r : Registry) (b : Builder β) (s : BuildStep β) : Tells (b.step r s) := by
  cases s with
  | declare name expr required variadic => exact (r.tells_resolve expr).bind fun _ => .pure _
  | setTotal total => exact .pure _
  | returns expr => exact (r.tells_resolve expr).bind fun _ => .pure _
  | implement callee => exact .pure _

theorem tells_firstRepeated? (seen : List Value) (args : List ArgSpec) :
    Tells (firstRepeated? seen args) := by
  induction args generalizing seen with
  | nil => exact .pure _
  | cons a rest ih =>
    unfold firstRepeated?
    split
    · exact .error rfl
    · split
      · exact .pure _
      · exact ih _

theorem tells_validate (b : Builder β) : Tells b.validate := by
  unfold validate
  split
  · exact .error rfl
  · refine (tells_firstRepeated? _ _).bind fun name => ?_
    split
    · exact .error rfl
    · exact .error rfl
    · exact .error rfl
    · split
      · exact .pure _
      · exact .error rfl

end Builder

theorem Signature.tells_name (s : Signature) : Tells s.name := by
  unfold Signature.name
  split
  · exact .pure _
  · exact .error rfl

namespace SymbolTable

theorem tells_checkKey (key : Value) : Tells (checkKey key) := by
  unfold checkKey
  split
  · exact .pure _
  · exact .error rfl

theorem tells_remember (t : SymbolTable) (name symbol : Value) : Tells (t.remember name symbol).1 := by
  have hname := tells_checkKey name
  have hsymbol := tells_checkKey symbol
  unfold remember
  split
  · rename_i f hf
    intro g hg
    obtain rfl := Except.error.inj hg
    exact hname f hf
  · rename_i f _ hf
    intro g hg
    obtain rfl := Except.error.inj hg
    exact hsymbol f hf
  · exact .pure _

end SymbolTable

theorem SourceLocation.tells_ofWire (wire : Value) : Tells (SourceLocation.ofWire wire) :=
  ((wire.tells_atKey _).bind Value.tells_toInt).bind fun _ =>
    ((wire.tells_atKey _).bind Value.tells_toInt).bind fun _ =>
      ((wire.tells_atKeyOr _ _).bind Value.tells_toInt).bind fun _ => .pure _

theorem SourceSpan.tells_ofWire (wire : Value) : Tells (SourceSpan.ofWire wire) :=
  ((wire.tells_atKey _).bind SourceLocation.tells_ofWire).bind fun _ =>
    ((wire.tells_atKey _).bind SourceLocation.tells_ofWire).bind fun _ => .pure _

theorem tells_sourceLine? (source : Value) (line : Int) : Tells (sourceLine? source line) := by
  unfold sourceLine?
  split
  · exact .pure _
  · exact .pure _
  · split
    · exact .error rfl
    · exact .pure _

theorem Diagnostic.tells_ofWire (source wire : Value) : Tells (Diagnostic.ofWire source wire) := by
  have hend : ∀ span line, Tells (do
      let kind ← wire.atKeyOr "kind" (.str "TypeError")
      let description ← wire.atKeyOr "description" (.str "")
      return ({
        code := kind.asText
        message := description.asText
        severity := .error
        span
        sourceLine := line
        hints := [] } : Diagnostic)) := fun span line =>
    (wire.tells_atKeyOr _ _).bind fun _ => (wire.tells_atKeyOr _ _).bind fun _ => .pure _
  refine (wire.tells_atKeyOr _ _).bind fun spanWire => ?_
  split
  · refine ((SourceSpan.tells_ofWire _).map _).bind fun span => ?_
    cases span with
    | some s => exact (tells_sourceLine? source s.start.line).bind (hend _)
    | none => exact hend _ _
  · exact hend _ _

namespace TypeInfo

theorem tells_ofWireInputs : ∀ es, Tells (ofWireInputs es)
  | [] => .pure _
  | (_, wire) :: rest =>
    (Ty.tells_ofWire wire).bind fun _ => (tells_ofWireInputs rest).bind fun _ => .pure _

theorem tells_ofWire (source payload : Value) : Tells (ofWire source payload) := by
  refine (((payload.tells_atKeyOr _ _).bind Value.tells_entries).bind tells_ofWireInputs).bind
    fun inputs => ?_
  refine ((payload.tells_atKeyOr _ _).bind Value.tells_elements).bind fun errors => ?_
  refine (Tells.mapM (Diagnostic.tells_ofWire source) errors).bind fun errors => ?_
  refine (payload.tells_atKeyOr _ _).bind fun output => ?_
  split
  · exact .pure _
  · exact (Ty.tells_ofWire _).bind fun _ => .pure _

end TypeInfo

end EngineHost
