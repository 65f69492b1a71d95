import EngineHost.Proofs.Aliases
import EngineHost.Signature.Draft

/-!
Declarations by the calls that made them. Whether a declaration is complete, and what it declares, depends on
the calls before alone: of arguments all that were declared count, in their order, and of everything else the
last. Types are those at the time of the call.
-/
namespace EngineHost.Draft

variable {β : Type} {r : Registry} {s : Draft β} {calls : List (Call β)} {c : Call β}

/-! ### What calls come to -/

namespace Call

/-- The argument that a call declares, if its type resolves in the registry that the call finds. -/
def declared? (r : Registry) : Call β → Option ArgSpec
  | .declare way name expr => (r.resolve? expr).map fun t => ⟨name, t, way.required, way.variadic⟩
  | _ => none

def returned? (r : Registry) : Call β → Option Ty
  | .returns expr => r.resolve? expr
  | _ => none

def implemented? : Call β → Option (Callee β)
  | .implement callee => some callee
  | _ => none

def total? : Call β → Option Bool
  | .canFail => some false
  | .neverFails => some true
  | _ => none

/-- The registry that the next call finds. -/
def registryAfter (r : Registry) : Call β → Registry
  | .define name expr =>
    match r.define name expr with
    | .ok (_, r') => r'
    | .error _ => r
  | _ => r

end Call

/-- Calls, each with the registry that it finds. -/
def timeline : Registry → List (Call β) → List (Registry × Call β)
  | _, [] => []
  | r, c :: rest => (r, c) :: timeline (c.registryAfter r) rest

def registryAfter (r : Registry) (calls : List (Call β)) : Registry :=
  calls.foldl Call.registryAfter r

def declaredArgs (r : Registry) (calls : List (Call β)) : List ArgSpec :=
  (timeline r calls).filterMap fun e => e.2.declared? e.1

def lastReturned (r : Registry) (calls : List (Call β)) : Option Ty :=
  ((timeline r calls).filterMap fun e => e.2.returned? e.1).getLast?

def lastImplemented (calls : List (Call β)) : Option (Callee β) :=
  (calls.filterMap Call.implemented?).getLast?

/-- Functions may fail unless the last word on it is that they never do. -/
def lastTotal (calls : List (Call β)) : Bool :=
  (calls.filterMap Call.total?).getLast?.getD false

theorem timeline_concat (r : Registry) (calls : List (Call β)) (c : Call β) :
    timeline r (calls ++ [c]) = timeline r calls ++ [(registryAfter r calls, c)] := by
  induction calls generalizing r with
  | nil => rfl
  | cons first rest ih => exact congrArg _ (ih (first.registryAfter r))

section

variable {α γ : Type} (f : α → Option γ) (xs : List α) (x : α)

theorem filterMap_concat : (xs ++ [x]).filterMap f = xs.filterMap f ++ (f x).toList := by
  rw [List.filterMap_append, List.filterMap_cons]
  cases f x <;> rfl

theorem getLast?_filterMap_concat :
    ((xs ++ [x]).filterMap f).getLast? = (f x).or (xs.filterMap f).getLast? := by
  rw [filterMap_concat, List.getLast?_append]
  cases f x <;> rfl

end

theorem declaredArgs_concat (r : Registry) (calls : List (Call β)) (c : Call β) :
    declaredArgs r (calls ++ [c]) = declaredArgs r calls ++ (c.declared? (registryAfter r calls)).toList := by
  rw [declaredArgs, timeline_concat, filterMap_concat, declaredArgs]

theorem lastReturned_concat (r : Registry) (calls : List (Call β)) (c : Call β) :
    lastReturned r (calls ++ [c]) = (c.returned? (registryAfter r calls)).or (lastReturned r calls) := by
  rw [lastReturned, timeline_concat, getLast?_filterMap_concat, lastReturned]

theorem lastImplemented_concat (calls : List (Call β)) (c : Call β) :
    lastImplemented (calls ++ [c]) = c.implemented?.or (lastImplemented calls) := by
  rw [lastImplemented, getLast?_filterMap_concat, lastImplemented]

theorem lastTotal_concat (calls : List (Call β)) (c : Call β) :
    lastTotal (calls ++ [c]) = c.total?.getD (lastTotal calls) := by
  rw [lastTotal, getLast?_filterMap_concat, lastTotal]
  cases c.total? <;> rfl

/-- The draft that calls come to, read off their list. -/
def assembled (r : Registry) (calls : List (Call β)) : Draft β :=
  ⟨registryAfter r calls, declaredArgs r calls, lastTotal calls, lastReturned r calls,
    (lastImplemented calls).bind Callee.given?⟩

/-! ### Calls one after the other -/

theorem call_error {f : Failure} (h : (s.call c).1 = .error f) : (s.call c).2 = s := by
  have hstep : ∀ step, (s.step step).1 = .error f → (s.step step).2 = s := by
    intro step h
    unfold Draft.step at h ⊢
    split at h
    · cases h
    · rfl
  cases c with
  | declare | canFail | neverFails | returns | implement => exact hstep _ h
  | validate => rfl
  | define name expr =>
    simp only [call] at h ⊢
    split at h
    · cases h
    · rfl

theorem registry_call : (s.call c).2.registry = c.registryAfter s.registry := by
  have hstep : ∀ step, (s.step step).2.registry = s.registry := by
    intro step
    unfold Draft.step
    split <;> rfl
  cases c with
  | declare | canFail | neverFails | returns | implement => exact hstep _
  | validate => rfl
  | define name expr =>
    simp only [call, Call.registryAfter]
    cases s.registry.define name expr <;> rfl

/-- A step on the builder that only needs a type. -/
theorem builder_step {step : BuildStep β} {expr : Value} {k : Ty → Builder β}
    (h : s.builder.step s.registry step = (s.registry.resolve expr >>= fun t => .ok (k t))) :
    (s.step step).2.builder = ((s.registry.resolve? expr).map k).getD s.builder := by
  unfold Draft.step
  rw [h, Registry.resolve?]
  cases s.registry.resolve expr <;> rfl

/-- One more call does to a draft what it does to the list. -/
theorem call_assembled (r : Registry) (calls : List (Call β)) (c : Call β) :
    ((assembled r calls).call c).2 = assembled r (calls ++ [c]) := by
  have hregistry : registryAfter r (calls ++ [c]) = c.registryAfter (registryAfter r calls) := List.foldl_concat ..
  have hbuilder : ((assembled r calls).call c).2.builder = (assembled r (calls ++ [c])).builder := by
    simp only [assembled, declaredArgs_concat, lastReturned_concat, lastImplemented_concat, lastTotal_concat]
    cases c with
    | declare way name expr =>
      refine (@builder_step β _ _ expr _ rfl).trans ?_
      simp only [Call.declared?, Call.returned?, Call.implemented?, Call.total?]
      cases (registryAfter r calls).resolve? expr <;> simp
    | returns expr =>
      refine (@builder_step β _ _ expr _ rfl).trans ?_
      simp only [Call.declared?, Call.returned?, Call.implemented?, Call.total?]
      cases (registryAfter r calls).resolve? expr <;> simp
    | canFail | neverFails | implement | validate =>
      simp only [Call.declared?, Call.returned?, Call.implemented?, Call.total?, Option.toList_none,
        List.append_nil, Option.none_or, Option.some_or, Option.getD_none, Option.getD_some]
      rfl
    | define name expr =>
      simp only [call]
      split <;> simp [Call.declared?, Call.returned?, Call.implemented?, Call.total?]
  have hafter : ((assembled r calls).call c).2.registry = (assembled r (calls ++ [c])).registry := by
    rw [registry_call]
    exact hregistry.symm
  exact congrArg₂ Draft.mk hafter hbuilder

theorem after_empty (r : Registry) (calls : List (Call β)) : (empty r).after calls = assembled r calls := by
  induction calls using List.reverseRecOn with
  | nil => rfl
  | append_singleton calls c ih =>
    rw [after, List.foldl_concat, ← after, ih]
    exact call_assembled r calls c

theorem getElem?_answers (s : Draft β) (before later : List (Call β)) (c : Call β) :
    (s.answers (before ++ c :: later))[before.length]? = some ((s.after before).call c).1 := by
  induction before generalizing s with
  | nil => rfl
  | cons first rest ih => exact ih (s.call first).2

/-! ### What a declaration lacks -/

/-- At least one argument, each name once, a type and something to call. -/
structure Complete (args : List ArgSpec) (returned : Option Ty) (implemented : Option (Callee β)) : Prop where
  declares : args ≠ []
  distinct : (args.map ArgSpec.name).Nodup
  returns : returned.isSome
  callable : ∃ callee, implemented = some callee ∧ callee.isCallable

/-- What keeps a declaration from being complete, in the order in which it is looked for. -/
inductive Lacks (args : List ArgSpec) (returned : Option Ty) (implemented : Option (Callee β)) :
    BuilderProblem → Prop where
  | arguments (h : args = []) : Lacks args returned implemented .noArguments
  /-- The first argument that repeats the name of an earlier one. -/
  | distinctness {front rest : List ArgSpec} {a : ArgSpec} (h : args = front ++ a :: rest)
    (hfront : (front.map ArgSpec.name).Nodup) (ha : a.name ∈ front.map ArgSpec.name) :
    Lacks args returned implemented (.declaredTwice a.name)
  | returnType (hdeclares : args ≠ []) (hdistinct : (args.map ArgSpec.name).Nodup) (h : returned = none) :
    Lacks args returned implemented .noReturnType
  | implementation (hdeclares : args ≠ []) (hdistinct : (args.map ArgSpec.name).Nodup)
    (hreturns : returned.isSome) (h : implemented.bind Callee.given? = none) :
    Lacks args returned implemented .noImplementation
  | callable {callee : Callee β} (hdeclares : args ≠ []) (hdistinct : (args.map ArgSpec.name).Nodup)
    (hreturns : returned.isSome) (hcallee : implemented = some callee) (h : callee.isCallable = false) :
    Lacks args returned implemented .notCallable

/-- The names before `rest` are those seen so far. -/
theorem firstRepeated?_spec (rest : List ArgSpec) : ∀ front : List ArgSpec,
    (∀ a ∈ front ++ rest, a.name.isText) → (front.map ArgSpec.name).Nodup →
      (Builder.firstRepeated? (front.map ArgSpec.name).reverse rest = .ok none ∧
        ((front ++ rest).map ArgSpec.name).Nodup) ∨
      ∃ before a later, front ++ rest = before ++ a :: later ∧ (before.map ArgSpec.name).Nodup ∧
        a.name ∈ before.map ArgSpec.name ∧
        Builder.firstRepeated? (front.map ArgSpec.name).reverse rest = .ok (some a.name) := by
  induction rest with
  | nil =>
    intro front _ hfront
    exact .inl ⟨rfl, by simpa using hfront⟩
  | cons a rest ih =>
    intro front htext hfront
    have ha : a.name.isText := htext a (by simp)
    have hseen : ((front.map ArgSpec.name).reverse.any fun n => n.equals a.name) = true ↔
        a.name ∈ front.map ArgSpec.name := by
      rw [List.any_eq_true]
      constructor
      · rintro ⟨n, hn, hequals⟩
        obtain ⟨b, hb, rfl⟩ := List.mem_map.mp (List.mem_reverse.mp hn)
        have hname := (equals_text (htext b (List.mem_append_left _ hb))).mp hequals
        exact hname ▸ List.mem_map_of_mem hb
      · intro hmem
        exact ⟨a.name, List.mem_reverse.mpr hmem, (equals_text ha).mpr rfl⟩
    have hkey := naming_text.hashable a.name ha
    by_cases hmem : a.name ∈ front.map ArgSpec.name
    · refine .inr ⟨front, a, rest, rfl, hfront, hmem, ?_⟩
      rw [Builder.firstRepeated?, hseen.mpr hmem, hkey]
      rfl
    · have hnew := Bool.eq_false_iff.mpr (mt hseen.mp hmem)
      have hnext : Builder.firstRepeated? (front.map ArgSpec.name).reverse (a :: rest) =
          Builder.firstRepeated? ((front ++ [a]).map ArgSpec.name).reverse rest := by
        rw [Builder.firstRepeated?, hnew, hkey, List.map_append, List.reverse_append]
        rfl
      have hfront' : ((front ++ [a]).map ArgSpec.name).Nodup := by
        rw [List.map_append, List.nodup_append]
        refine ⟨hfront, List.nodup_singleton _, fun n hn m hm => ?_⟩
        obtain rfl := List.mem_singleton.mp hm
        exact fun h => hmem (h ▸ hn)
      rw [hnext]
      simpa using ih (front ++ [a]) (by simpa using htext) hfront'

/-- Once the names of the arguments are known to be distinct. -/
theorem validate_distinct {b : Builder β} (hdeclares : b.args ≠ [])
    (hfirst : Builder.firstRepeated? [] b.args = .ok none) :
    b.validate =
      match b.returns?, b.implementation? with
      | none, _ => .error (.host (.builder b.functionName .noReturnType))
      | some _, none => .error (.host (.builder b.functionName .noImplementation))
      | some t, some callee =>
        if callee.isCallable then .ok ⟨⟨b.args, t, b.total⟩, callee⟩
        else .error (.host (.builder b.functionName .notCallable)) := by
  have hnonempty : b.args.isEmpty = false := by simpa using hdeclares
  simp only [Builder.validate, hnonempty, hfirst]
  cases b.returns? <;> cases b.implementation? <;> rfl

/-- A declaration is complete and is accepted as it stands, or it is refused for what it lacks. -/
theorem validate_spec {b : Builder β} {implemented : Option (Callee β)}
    (himplemented : b.implementation? = implemented.bind Callee.given?) (htext : ∀ a ∈ b.args, a.name.isText) :
    (∃ t callee, b.returns? = some t ∧ implemented = some callee ∧ Complete b.args b.returns? implemented ∧
      b.validate = .ok ⟨⟨b.args, t, b.total⟩, callee⟩) ∨
    ∃ p, Lacks b.args b.returns? implemented p ∧ b.validate = .error (.host (.builder b.functionName p)) := by
  by_cases hdeclares : b.args = []
  · refine .inr ⟨_, .arguments hdeclares, ?_⟩
    simp only [Builder.validate, hdeclares]
    rfl
  have hnames := firstRepeated?_spec b.args [] htext .nil
  simp only [List.map_nil, List.reverse_nil, List.nil_append] at hnames
  rcases hnames with ⟨hfirst, hdistinct⟩ | ⟨front, a, rest, hargs, hfront, ha, hfirst⟩
  swap
  · refine .inr ⟨_, .distinctness hargs hfront ha, ?_⟩
    have hnonempty : b.args.isEmpty = false := by simpa using hdeclares
    simp only [Builder.validate, hnonempty, hfirst]
    rfl
  rw [validate_distinct hdeclares hfirst]
  cases hreturns : b.returns? with
  | none => exact .inr ⟨_, .returnType hdeclares hdistinct rfl, rfl⟩
  | some t =>
    rw [himplemented]
    cases hgiven : implemented.bind Callee.given? with
    | none => exact .inr ⟨_, .implementation hdeclares hdistinct rfl hgiven, rfl⟩
    | some given =>
      obtain ⟨callee, hcallee, hsame⟩ := Option.bind_eq_some_iff.mp hgiven
      obtain rfl : callee = given := by
        unfold Callee.given? at hsame
        split at hsame
        · cases hsame
        · exact Option.some.inj hsame
      cases hcallable : callee.isCallable with
      | false =>
        refine .inr ⟨_, .callable hdeclares hdistinct rfl hcallee hcallable, ?_⟩
        simp [hcallable]
      | true =>
        refine .inl ⟨t, callee, rfl, hcallee, ⟨hdeclares, hdistinct, rfl, callee, hcallee, hcallable⟩, ?_⟩
        simp [hcallable]

/-- Nothing is lacking where a declaration is complete. -/
theorem Lacks.not_complete {args : List ArgSpec} {returned : Option Ty} {implemented : Option (Callee β)}
    {p : BuilderProblem} (h : Lacks args returned implemented p) : ¬ Complete args returned implemented := by
  rintro ⟨hdeclares, hdistinct, hreturns, callee, hcallee, hcallable⟩
  cases h with
  | arguments h => exact hdeclares h
  | distinctness h _ ha =>
    rw [h, List.map_append, List.nodup_append] at hdistinct
    exact hdistinct.2.2 _ ha _ (by simp) rfl
  | returnType _ _ h => simp [h] at hreturns
  | implementation _ _ _ h =>
    rw [hcallee, Option.bind_some] at h
    unfold Callee.given? at h
    split at h
    · cases hcallable
    · cases h
  | callable _ _ _ hcallee' h =>
    obtain rfl := Option.some.inj (hcallee.symm.trans hcallee')
    rw [h] at hcallable
    cases hcallable

/-! ### The answer to a call of `validate` -/

theorem declare_of_mem_declaredArgs {a : ArgSpec} (ha : a ∈ declaredArgs r calls) :
    ∃ way expr, Call.declare way a.name expr ∈ calls := by
  obtain ⟨⟨r', c⟩, hc, hdeclared⟩ := List.mem_filterMap.mp ha
  have hmem : c ∈ calls := by
    clear hdeclared ha
    induction calls generalizing r with
    | nil => cases hc
    | cons first rest ih =>
      rcases List.mem_cons.mp hc with heq | hc
      · obtain ⟨-, rfl⟩ := Prod.mk.inj heq
        exact List.mem_cons_self
      · exact List.mem_cons_of_mem _ (ih hc)
  cases c with
  | declare way name expr =>
    obtain ⟨t, -, rfl⟩ := Option.map_eq_some_iff.mp hdeclared
    exact ⟨way, expr, hmem⟩
  | _ => cases hdeclared

/-- The name that errors go by: the first argument's, or a stand-in. -/
def title (args : List ArgSpec) : Value :=
  (args.head?.map ArgSpec.name).getD (.str "<anonymous>")

theorem functionName_eq (b : Builder β) : b.functionName = title b.args := by
  unfold Builder.functionName title
  cases b.args <;> rfl

/-- Whatever is called, in whatever order: a declaration whose arguments are named by texts is found complete
exactly if the calls before declared an argument, no name twice, a type that it returns and, in the end, something
to call. What is then defined are the arguments in their order, each as it was declared and with its type at that
time, and the last of all else. If it is not complete the error goes by the first argument and says what is
lacking, of several names that come again the first. Calls that fail leave no trace, and later calls change no
answer. -/
theorem validate_by_calls (r : Registry) (before later : List (Call β))
    (htext : ∀ way name expr, .declare way name expr ∈ before → name.isText) :
    let args := declaredArgs r before
    let returned := lastReturned r before
    let implemented := lastImplemented before
    let verdict := ((empty r).answers (before ++ .validate :: later))[before.length]?
    (Complete args returned implemented → ∃ d : Definition β, verdict = some (.ok (.definition d)) ∧
      d.signature.args = args ∧ some d.signature.returns = returned ∧ d.signature.total = lastTotal before ∧
      some d.implementation = implemented) ∧
    (¬ Complete args returned implemented → ∃ p, Lacks args returned implemented p ∧
      verdict = some (.error (.host (.builder (title args) p)))) ∧
    (∀ (s : Draft β) (c : Call β) f, (s.call c).1 = .error f → (s.call c).2 = s) ∧
    ∀ name p, (HostError.builder name p).family = "BuilderError" ∧
      (HostError.builder name p).message = .str ("function '" ++ name.text ++ "': " ++ p.text) := by
  intro args returned implemented verdict
  have hverdict : verdict = some (.definition <$> (assembled r before).builder.validate) := by
    refine (getElem?_answers ..).trans ?_
    rw [after_empty]
    rfl
  have hargs : ∀ a ∈ (assembled r before).builder.args, a.name.isText := by
    intro a ha
    obtain ⟨way, expr, hmem⟩ := declare_of_mem_declaredArgs ha
    exact htext way a.name expr hmem
  have hspec := @validate_spec β (assembled r before).builder implemented rfl hargs
  refine ⟨fun hcomplete => ?_, fun hcomplete => ?_, fun _ _ _ => call_error, fun _ _ => ⟨rfl, rfl⟩⟩
  · rcases hspec with ⟨t, callee, hreturns, hcallee, -, hvalidate⟩ | ⟨p, hlacks, -⟩
    · exact ⟨_, by rw [hverdict, hvalidate]; rfl, rfl, hreturns.symm, rfl, hcallee.symm⟩
    · exact absurd hcomplete hlacks.not_complete
  · rcases hspec with ⟨t, callee, -, -, hcomplete', -⟩ | ⟨p, hlacks, hvalidate⟩
    · exact absurd hcomplete' hcomplete
    · refine ⟨p, hlacks, ?_⟩
      rw [hverdict, hvalidate, functionName_eq]
      rfl

/-- Two declarations that fail at first, one of them over an alias that is defined later, and an implementation
that is taken back and given again. -/
def ratioCalls : List (Call Unit) :=
  [.declare .requireArg (.str "scale") (.str "number"), .declare .allowArgRepeated (.str "by") (.str "Ratio"),
    .define (.str "Ratio") (.str "number"), .declare .allowArgRepeated (.str "by") (.listOf (.str "Ratio")),
    .returns (.str "Ratio"), .neverFails, .returns (.str "widget"), .implement (.value .null),
    .implement (.function ())]

theorem validate_by_calls_ratio :
    let args := declaredArgs .empty ratioCalls
    (∀ way name expr, .declare way name expr ∈ ratioCalls → name.isText) ∧
    Complete args (lastReturned .empty ratioCalls) (lastImplemented ratioCalls) ∧
    ∃ d : Definition Unit,
      ((empty .empty).answers (ratioCalls ++ .validate :: [.declare .requireArg (.str "by") (.str "time"),
        .canFail]))[ratioCalls.length]? = some (.ok (.definition d)) ∧
      d.signature.args = [⟨.str "scale", .primitive .number, true, false⟩,
        ⟨.str "by", .list (.primitive .number), false, true⟩] ∧ d.signature.total = true := by
  have hargs : declaredArgs .empty ratioCalls = [⟨.str "scale", .primitive .number, true, false⟩,
      ⟨.str "by", .list (.primitive .number), false, true⟩] := by cbv
  have hreturned : lastReturned .empty ratioCalls = some (.primitive .number) := by cbv
  have htext : ∀ way name expr, .declare way name expr ∈ ratioCalls → name.isText := by
    intro way name expr h
    simp only [ratioCalls, List.mem_cons, Call.declare.injEq, reduceCtorEq, List.not_mem_nil, or_false,
      false_or] at h
    rcases h with ⟨-, rfl, -⟩ | ⟨-, rfl, -⟩ | ⟨-, rfl, -⟩ <;> rfl
  have hcomplete : Complete (declaredArgs .empty ratioCalls) (lastReturned .empty ratioCalls)
      (lastImplemented ratioCalls) := by
    rw [hargs, hreturned]
    exact ⟨by simp, by simp, rfl, .function (), rfl, rfl⟩
  obtain ⟨d, hverdict, hd, -, htotal, -⟩ := (validate_by_calls .empty ratioCalls
    [.declare .requireArg (.str "by") (.str "time"), .canFail] htext).1 hcomplete
  exact ⟨htext, hcomplete, d, hverdict, hd.trans hargs, htotal⟩

end EngineHost.Draft
