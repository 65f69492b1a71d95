import Mathlib
import EngineHost.Engine.Catalog

/-!
How it ends to load an engine by its specification. The text is cut at its first colon: a module stands before it,
a factory of this module after it. A module that is missing, a factory that is missing and a product that is no engine
are refused as a matter of configuration. Two kinds of text are stopped in another way: those that start with
a dot, which name a module relative to nothing, and those that start with a colon, which name no module.
-/
namespace EngineHost.Catalog

variable {ε : Type} {catalog : Catalog ε} {spec module factory : String}

/-- `Names spec module factory`: the text `spec` stands for this factory of this module. -/
inductive Names : String → String → String → Prop
  | explicit {module : String} (factory : String) (h : ':' ∉ module.toList) :
    Names (module ++ ":" ++ factory) module factory
  | byDefault {module : String} (h : ':' ∉ module.toList) : Names module module "create_engine"

theorem all_ne_colon (h : ':' ∉ module.toList) : ∀ c ∈ module.toList, (c != ':') = true := by
  intro c hc
  have hne : c ≠ ':' := fun heq => h (heq ▸ hc)
  simpa using hne

/-- There is one way to cut a text. -/
theorem Names.splitSpec_eq (h : Names spec module factory) : splitSpec spec = (module, factory) := by
  cases h with
  | explicit factory h =>
    have hall := all_ne_colon h
    have hdrop : (module.toList ++ ':' :: factory.toList).dropWhile (· != ':') = ':' :: factory.toList := by
      simp [List.dropWhile_append_of_pos hall]
    have htake : (module.toList ++ ':' :: factory.toList).takeWhile (· != ':') = module.toList := by
      simp [List.takeWhile_append_of_pos hall]
    simp [splitSpec, hdrop, htake]
  | byDefault h =>
    have hdrop : spec.toList.dropWhile (· != ':') = [] := by
      simpa using all_ne_colon h
    simp [splitSpec, hdrop]

theorem names_splitSpec (spec : String) : Names spec (splitSpec spec).1 (splitSpec spec).2 := by
  have hbefore : ':' ∉ spec.toList.takeWhile (· != ':') := by
    intro hmem
    have hne := List.mem_takeWhile_imp hmem
    simp at hne
  have hcut := List.takeWhile_append_dropWhile (p := (· != ':')) (l := spec.toList)
  cases hdrop : spec.toList.dropWhile (· != ':') with
  | nil =>
    rw [hdrop, List.append_nil] at hcut
    rw [hcut] at hbefore
    simpa [splitSpec, hdrop] using Names.byDefault hbefore
  | cons c rest =>
    have hcolon : c = ':' := by
      have hhead := List.head?_dropWhile_not (· != ':') spec.toList
      simpa [hdrop] using hhead
    have hspec : spec = String.ofList (spec.toList.takeWhile (· != ':')) ++ ":" ++ String.ofList rest := by
      apply String.toList_inj.mp
      rw [hdrop, hcolon] at hcut
      simp [hcut]
    have hnames : Names (String.ofList (spec.toList.takeWhile (· != ':')) ++ ":" ++ String.ofList rest)
        (String.ofList (spec.toList.takeWhile (· != ':'))) (String.ofList rest) :=
      .explicit _ (by simpa using hbefore)
    rw [← hspec] at hnames
    simpa [splitSpec, hdrop] using hnames

theorem names_total (spec : String) : ∃ module factory, Names spec module factory :=
  ⟨_, _, names_splitSpec spec⟩

/-- The text and its module start alike, but for a text that starts with its colon. -/
theorem Names.startsWith_dot (h : Names spec module factory) : module.startsWith "." = spec.startsWith "." := by
  rw [Bool.eq_iff_iff, String.startsWith_string_iff, String.startsWith_string_iff]
  cases h with
  | byDefault h => rfl
  | explicit factory h => cases hm : module.toList <;> simp [hm]

theorem Names.startsWith_colon (h : Names spec module factory) (hspec : spec ≠ "") :
    spec.startsWith ":" ↔ module = "" := by
  rw [String.startsWith_string_iff, ← String.toList_eq_nil_iff]
  have hne : spec.toList ≠ [] := by simpa using hspec
  cases h with
  | byDefault h =>
    cases hm : spec.toList with
    | nil => exact absurd hm hne
    | cons c cs =>
      have hc : ':' ≠ c := by
        rintro rfl
        simp [hm] at h
      simp [hc]
  | explicit factory h =>
    cases hm : module.toList with
    | nil => simp [hm]
    | cons c cs =>
      have hc : ':' ≠ c := by
        rintro rfl
        simp [hm] at h
      simp [hm, hc]

/-- A name that is looked up as a whole. -/
structure Absolute (name : String) : Prop where
  startsWith_dot : name.startsWith "." = false
  ne_empty : name ≠ ""

theorem Absolute.importModule (h : Absolute module) :
    catalog.importModule module =
      match catalog.find? module with
      | some m => .ok m
      | none =>
        configurationError (.cannotImport module (catalog.missingReason module.length module)) := by
  have hempty : module.isEmpty = false := by simpa using h.ne_empty
  simp only [Catalog.importModule, h.startsWith_dot, hempty, Bool.false_eq_true, if_false]
  rfl

theorem load_eq_loadNamed (hspec : spec ≠ "") : catalog.load (.str spec) = catalog.loadNamed spec := by
  simp [load, Value.isTruthy, hspec, Value.isText, Value.text]

/-- An importable module is asked for the factory. -/
theorem loadNamed_of_found {m : Module ε} (names : Names spec module factory) (absolute : Absolute module)
    (found : catalog.find? module = some m) :
    catalog.loadNamed spec = (do
      match ← produce module factory (attribute? m factory) with
      | .engine className engine => pure ⟨className, engine⟩
      | .value v => configurationError (.notAnEngine spec v.className)) := by
  have himport : catalog.importModule module = .ok m := by
    rw [absolute.importModule, found]
  simp only [loadNamed, names.splitSpec_eq, himport]
  rfl

/-- A module that cannot be imported stops the loading. -/
theorem loadNamed_of_error {failure : Failure} (names : Names spec module factory)
    (h : catalog.importModule module = .error failure) : catalog.loadNamed spec = .error failure := by
  simp only [loadNamed, names.splitSpec_eq, h]
  rfl

/-- The engine that a text stands for. -/
inductive Produces (catalog : Catalog ε) : String → LoadedEngine ε → Prop
  | engine {spec module factory className : String} {m : Module ε} {engine : ε}
      (names : Names spec module factory) (absolute : Absolute module) (found : catalog.find? module = some m)
      (called : attribute? m factory = some (.factory (.engine className engine))) :
    Produces catalog spec ⟨className, engine⟩

/-- Why a text, or the absence of one, is refused. -/
inductive Refused (catalog : Catalog ε) : Option String → ConfigProblem → Prop
  | absent : Refused catalog none .noEngine
  | empty : Refused catalog (some "") .noEngine
  | missing {spec module factory : String} (names : Names spec module factory) (absolute : Absolute module)
      (notFound : catalog.find? module = none) :
    Refused catalog (some spec) (.cannotImport module (catalog.missingReason module.length module))
  | noFactory {spec module factory : String} {m : Module ε} (names : Names spec module factory)
      (absolute : Absolute module) (found : catalog.find? module = some m)
      (notCallable : ∀ product, attribute? m factory ≠ some (.factory product)) :
    Refused catalog (some spec) (.noFactory module factory)
  | notAnEngine {spec module factory : String} {m : Module ε} {v : Value} (names : Names spec module factory)
      (absolute : Absolute module) (found : catalog.find? module = some m)
      (called : attribute? m factory = some (.factory (.value v))) :
    Refused catalog (some spec) (.notAnEngine spec v.className)

/-- The texts that are stopped before anything is looked up, and by what. -/
inductive Stopped : Option String → Failure → Prop
  | relative {spec : String} (h : spec.startsWith ".") : Stopped (some spec) (.shape .wrongKind)
  | unnamed {spec : String} (h : spec.startsWith ":") : Stopped (some spec) (.shape .emptyName)

theorem Names.ne_empty (h : Names spec module factory) (hmodule : Absolute module) : spec ≠ "" := by
  rintro rfl
  have hnames := h.splitSpec_eq
  have hempty : splitSpec "" = ("", "create_engine") := by decide
  rw [hempty, Prod.mk.injEq] at hnames
  exact hmodule.ne_empty hnames.1.symm

theorem Produces.load {loaded : LoadedEngine ε} (h : catalog.Produces spec loaded) :
    catalog.load (.str spec) = .ok loaded := by
  cases h with
  | engine names absolute found called =>
    rw [load_eq_loadNamed (names.ne_empty absolute), loadNamed_of_found names absolute found, called]
    rfl

theorem Refused.load {named : Option String} {problem : ConfigProblem} (h : catalog.Refused named problem) :
    catalog.load (named.elim .null .str) = configurationError problem := by
  cases h with
  | absent => rfl
  | empty => rfl
  | missing names absolute notFound =>
    rw [Option.elim_some, load_eq_loadNamed (names.ne_empty absolute)]
    apply loadNamed_of_error names
    rw [absolute.importModule, notFound]
    rfl
  | @noFactory spec module factory m names absolute found notCallable =>
    have hproduce : produce module factory (attribute? m factory) =
        configurationError (.noFactory module factory) := by
      rw [produce]
      exact notCallable
    rw [Option.elim_some, load_eq_loadNamed (names.ne_empty absolute), loadNamed_of_found names absolute found,
      hproduce]
    rfl
  | notAnEngine names absolute found called =>
    rw [Option.elim_some, load_eq_loadNamed (names.ne_empty absolute), loadNamed_of_found names absolute found,
      called]
    rfl

theorem Stopped.ne_empty {failure : Failure} (h : Stopped (some spec) failure) : spec ≠ "" := by
  rintro rfl
  cases h with
  | relative h => simp at h
  | unnamed h => simp at h

theorem Stopped.load {named : Option String} {failure : Failure} (h : Stopped named failure) :
    catalog.load (named.elim .null .str) = .error failure := by
  cases named with
  | none => cases h
  | some spec =>
    have hspec := h.ne_empty
    obtain ⟨module, factory, names⟩ := names_total spec
    rw [Option.elim_some, load_eq_loadNamed hspec]
    apply loadNamed_of_error names
    cases h with
    | relative hdot =>
      rw [importModule, names.startsWith_dot, if_pos hdot]
      rfl
    | unnamed hcolon =>
      have hmodule : module = "" := (names.startsWith_colon hspec).mp hcolon
      simp [importModule, hmodule]
      rfl

/-- Nothing else can be the case. -/
theorem produces_or_refused_or_stopped (catalog : Catalog ε) (named : Option String) :
    (∃ spec loaded, named = some spec ∧ catalog.Produces spec loaded) ∨
      (∃ problem, catalog.Refused named problem) ∨ ∃ failure, Stopped named failure := by
  cases named with
  | none => exact .inr (.inl ⟨_, .absent⟩)
  | some spec =>
    obtain ⟨module, factory, names⟩ := names_total spec
    by_cases hspec : spec = ""
    · subst hspec
      exact .inr (.inl ⟨_, .empty⟩)
    by_cases hdot : spec.startsWith "."
    · exact .inr (.inr ⟨_, .relative hdot⟩)
    by_cases hcolon : spec.startsWith ":"
    · exact .inr (.inr ⟨_, .unnamed hcolon⟩)
    have absolute : Absolute module := by
      constructor
      · simpa [names.startsWith_dot] using hdot
      · exact fun h => hcolon ((names.startsWith_colon hspec).mpr h)
    cases found : catalog.find? module with
    | none => exact .inr (.inl ⟨_, .missing names absolute found⟩)
    | some m =>
      cases called : attribute? m factory with
      | none => exact .inr (.inl ⟨_, .noFactory names absolute found (by simp [called])⟩)
      | some a =>
        match a, called with
        | .value v, called => exact .inr (.inl ⟨_, .noFactory names absolute found (by simp [called])⟩)
        | .factory (.value v), called => exact .inr (.inl ⟨_, .notAnEngine names absolute found called⟩)
        | .factory (.engine className engine), called =>
          exact .inl ⟨spec, _, rfl, .engine names absolute found called⟩

/-- A specification loads the engine it stands for and nothing else. It fails with a problem of configuration, or
because its text starts with a dot or a colon. -/
theorem engine_specs (catalog : Catalog ε) (named : Option String) :
    (∀ loaded, catalog.load (named.elim .null .str) = .ok loaded ↔
      ∃ spec, named = some spec ∧ catalog.Produces spec loaded) ∧
    (∀ failure, catalog.load (named.elim .null .str) = .error failure ↔
      (∃ problem, failure = .host (.configuration problem) ∧ catalog.Refused named problem) ∨
        Stopped named failure) := by
  constructor
  · intro loaded
    constructor
    · intro h
      rcases catalog.produces_or_refused_or_stopped named with
        ⟨spec, other, rfl, hproduces⟩ | ⟨problem, hrefused⟩ | ⟨failure, hstopped⟩
      · rw [Option.elim_some, hproduces.load, Except.ok.injEq] at h
        exact ⟨spec, rfl, h ▸ hproduces⟩
      · rw [hrefused.load] at h
        cases h
      · rw [hstopped.load] at h
        cases h
    · rintro ⟨spec, rfl, hproduces⟩
      exact hproduces.load
  · intro failure
    constructor
    · intro h
      rcases catalog.produces_or_refused_or_stopped named with
        ⟨spec, other, rfl, hproduces⟩ | ⟨problem, hrefused⟩ | ⟨other, hstopped⟩
      · rw [Option.elim_some, hproduces.load] at h
        cases h
      · rw [hrefused.load] at h
        cases h
        exact .inl ⟨problem, rfl, hrefused⟩
      · rw [hstopped.load, Except.error.injEq] at h
        exact .inr (h ▸ hstopped)
    · rintro (⟨problem, rfl, hrefused⟩ | hstopped)
      · exact hrefused.load
      · exact hstopped.load

/-- A text that names a relative module is neither loaded nor refused as a matter of configuration. -/
theorem relative_not_refused :
    ¬ ∀ (catalog : Catalog Unit) (named : Option String),
      (∃ loaded, catalog.load (named.elim .null .str) = .ok loaded) ∨
        ∃ problem, catalog.load (named.elim .null .str) = configurationError problem := by
  intro h
  have hstopped : Stopped (some ".eng") (.shape .wrongKind) := .relative (by decide +kernel)
  have hload : load [(⟨"eng", [("create_engine", .factory (.engine "Engine" ()))]⟩ : Module Unit)] (.str ".eng") =
      .error (.shape .wrongKind) := hstopped.load
  rcases h [⟨"eng", [("create_engine", .factory (.engine "Engine" ()))]⟩] (some ".eng") with
    ⟨loaded, hloaded⟩ | ⟨problem, hproblem⟩
  · cases hload.symm.trans hloaded
  · cases hload.symm.trans hproblem

end EngineHost.Catalog
