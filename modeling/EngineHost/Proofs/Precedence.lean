import Mathlib
import EngineHost.CommandLine.Run
import EngineHost.Proofs.Types

/-!
Which file and which engine settings come from. There is one place where the file may stand: what is asked
for goes before what a variable names, and this before the user's own; only what stands at that place
matters. Among engines, one that is asked for goes before a variable, and this before the file.
-/
namespace EngineHost

open Text Yaml

namespace Path

theorem splitOnAux_slash (s : String) (b i : String.Pos.Raw) (r : List String) :
    s.splitOnAux "/" b i 0 r = s.splitAux (· == '/') b i r := by
  have hget : String.Pos.Raw.get "/" 0 = '/' := by decide +kernel
  have hnext : String.Pos.Raw.next "/" 0 = ⟨1⟩ := by decide +kernel
  have hend : String.Pos.Raw.atEnd "/" ⟨1⟩ = true := by decide +kernel
  fun_induction String.splitAux s (· == '/') b i r with
  | case1 b i r hdone => rw [String.splitOnAux, if_pos hdone]
  | case2 b i r hmore _ hslash i' ih =>
    have hback : i'.unoffsetBy ⟨1⟩ = i := by
      have hchar : String.Pos.Raw.get s i = '/' := eq_of_beq hslash
      simp only [i', String.Pos.Raw.next, hchar]
      rfl
    rw [String.splitOnAux, if_neg hmore, hget, if_pos hslash, hnext]
    dsimp only
    rw [if_pos hend, hback]
    exact ih
  | case3 b i r hmore _ hother ih =>
    rw [String.splitOnAux, if_neg hmore, hget, if_neg hother]
    exact ih

/-- The parts of a path are what stands between its slashes. -/
theorem ofText_eq (text : String) :
    ofText text =
      ⟨rootOf text.toList, ((text.toList.splitOnP (· == '/')).map String.ofList).filter isPart⟩ := by
  have hsplit : text.splitOn "/" = (text.toList.splitOnP (· == '/')).map String.ofList := by
    rw [← String.splitToList_of_valid, String.splitToList, ← splitOnAux_slash]
    rfl
  rw [ofText, hsplit]

end Path

namespace Settings

/-- The one place that the settings may be read from. -/
def place (s : Surroundings) (path : Option String) : Checked Path :=
  match path, s.setting? "CORVUS_CONFIG" with
  | some path, _ => s.expandHome (.ofText path)
  | none, some path => s.expandHome (.ofText path)
  | none, none => s.userConfigPath

/-- The file that is used. One that is asked for or named by a variable may be anything that is there; the
user's own has to be a regular file. -/
inductive Uses (s : Surroundings) : Option String → Option Path → Prop where
  | asked {path : String} {p : Path} (hp : s.expandHome (.ofText path) = .ok p) (h : s.contains p) :
    Uses s (some path) (some p)
  | named {path : String} {p : Path} (hvar : s.setting? "CORVUS_CONFIG" = some path)
    (hp : s.expandHome (.ofText path) = .ok p) (h : s.contains p) : Uses s none (some p)
  | own {p : Path} (hvar : s.setting? "CORVUS_CONFIG" = none) (hp : s.userConfigPath = .ok p)
    (h : s.isFile p) : Uses s none (some p)
  | nothing {p : Path} (hvar : s.setting? "CORVUS_CONFIG" = none) (hp : s.userConfigPath = .ok p)
    (h : s.isFile p = false) : Uses s none none

/-- A file that is asked for or named by a variable, and is not there. -/
inductive Missing (s : Surroundings) : Option String → ConfigProblem → Prop where
  | asked {path : String} {p : Path} (hp : s.expandHome (.ofText path) = .ok p) (h : s.contains p = false) :
    Missing s (some path) (.missingFile p.text)
  | named {path : String} {p : Path} (hvar : s.setting? "CORVUS_CONFIG" = some path)
    (hp : s.expandHome (.ofText path) = .ok p) (h : s.contains p = false) :
    Missing s none (.missingEnvironmentFile p.text)

/-- What the entry of a key in a document says: nothing if it is not there or null, or else its text. -/
inductive Says (d : Document) (key : String) (entries : List (Datum × Datum)) : Option Value → Prop where
  | absent (h : ∀ e ∈ entries, isNamed key e.1 = false) : Says d key entries none
  | null {known : Datum} (h : (entries.find? fun e => isNamed key e.1) = some (known, .null)) :
    Says d key entries none
  | text {known v : Datum} {t : Value} (h : (entries.find? fun e => isNamed key e.1) = some (known, v))
    (hv : v ≠ .null) (ht : d.text v = .ok t) : Says d key entries (some t)

/-- The engine and the level that a file gives, if there is one. -/
inductive Gives (s : Surroundings) : Option Path → Option Value → Option Value → Prop where
  | none : Gives s none none none
  | file {p : Path} {content : ByteArray} {d : Document} {entries : List (Datum × Datum)}
    {engine level : Option Value} (hfile : s.files p = some (.file content))
    (hd : readDocument p content = .ok d) (hentries : entriesOf p d = .ok entries)
    (hengine : Says d "engine" entries engine) (hlevel : Says d "log_level" entries level) :
    Gives s (some p) engine level

variable {s : Surroundings} {path : Option String}

/-! ### The file -/

theorem home_error {home? : Option String} {part : String} {f : Failure}
    (h : Path.home home? part = .error f) : f = .shape .noHome := by
  unfold Path.home at h
  split at h
  · split at h
    · cases h
    · exact (Except.error.inj h).symm
  · exact (Except.error.inj h).symm

theorem expandHome_error {p : Path} {f : Failure} (h : s.expandHome p = .error f) : f = .shape .noHome := by
  rw [Surroundings.expandHome] at h
  unfold Path.expandHome at h
  split at h
  · split at h
    · rename_i first rest _ _ _
      cases hhome : Path.home (s.valueOf? "HOME") first with
      | ok home =>
        rw [hhome] at h
        cases h
      | error g =>
        rw [hhome] at h
        obtain rfl := Except.error.inj h
        exact home_error hhome
    · cases h
  · cases h

theorem userConfigPath_error {f : Failure} (h : s.userConfigPath = .error f) : f = .shape .noHome := by
  have hdirectory : s.settingsDirectory = .error f := by
    rw [Surroundings.userConfigPath] at h
    cases hd : s.settingsDirectory with
    | ok p =>
      rw [hd] at h
      cases h
    | error g =>
      rw [hd] at h
      exact h
  unfold Surroundings.settingsDirectory at hdirectory
  split at hdirectory
  · exact expandHome_error hdirectory
  · cases hhome : s.expandHome (.ofText "~") with
    | ok p =>
      rw [hhome] at hdirectory
      cases hdirectory
    | error g =>
      rw [hhome] at hdirectory
      obtain rfl := Except.error.inj hdirectory
      exact expandHome_error hhome

/-- A place is missing only because nobody's home is known under its name. -/
theorem place_error {f : Failure} (h : place s path = .error f) : f = .shape .noHome := by
  unfold place at h
  split at h
  · exact expandHome_error h
  · exact expandHome_error h
  · exact userConfigPath_error h

/-- What is made of the place by what stands there. -/
def judge (path setting : Option String) (p : Path) (entry : Option FileEntry) : Checked (Option Path) :=
  match path, setting, entry with
  | some _, _, some _ => pure (some p)
  | some _, _, none => refuse (.missingFile p.text)
  | none, some _, some _ => pure (some p)
  | none, some _, none => refuse (.missingEnvironmentFile p.text)
  | none, none, some (.file _) => pure (some p)
  | none, none, _ => pure none

theorem findFile_eq (s : Surroundings) (path : Option String) :
    findFile s path = place s path >>= fun p => judge path (s.setting? "CORVUS_CONFIG") p (s.files p) := by
  cases path with
  | some path =>
    show (s.expandHome (.ofText path) >>= _) = (s.expandHome (.ofText path) >>= _)
    congr 1
    funext p
    cases hentry : s.files p <;> simp [judge, Surroundings.contains, hentry]
  | none =>
    cases hvar : s.setting? "CORVUS_CONFIG" with
    | some path =>
      simp only [findFile, place, hvar]
      congr 1
      funext p
      cases hentry : s.files p <;> simp [judge, Surroundings.contains, hentry]
    | none =>
      simp only [findFile, place, hvar]
      congr 1
      funext p
      cases hentry : s.files p with
      | none => simp [judge, Surroundings.isFile, hentry]
      | some entry => cases entry <;> simp [judge, Surroundings.isFile, hentry]

theorem findFile_of_place {p : Path} (h : place s path = .ok p) :
    findFile s path = judge path (s.setting? "CORVUS_CONFIG") p (s.files p) := by
  rw [findFile_eq, h]
  rfl

theorem place_asked (path : String) : place s (some path) = s.expandHome (.ofText path) :=
  rfl

theorem place_named {name : String} (hvar : s.setting? "CORVUS_CONFIG" = some name) :
    place s none = s.expandHome (.ofText name) := by
  simp only [place, hvar]

theorem place_own (hvar : s.setting? "CORVUS_CONFIG" = none) : place s none = s.userConfigPath := by
  simp only [place, hvar]

theorem contains_iff {p : Path} : s.contains p ↔ ∃ entry, s.files p = some entry :=
  Option.isSome_iff_exists

theorem contains_eq_false {p : Path} : s.contains p = false ↔ s.files p = none :=
  Option.isSome_eq_false_iff.trans Option.isNone_iff_eq_none

theorem isFile_iff {p : Path} : s.isFile p ↔ ∃ content, s.files p = some (.file content) := by
  rw [Surroundings.isFile]
  cases s.files p with
  | none => simp
  | some entry => cases entry <;> simp

/-- A file that is used is the one at the place. -/
theorem Uses.findFile {used : Option Path} (h : Uses s path used) : findFile s path = .ok used := by
  cases h with
  | asked hp h =>
    obtain ⟨entry, hentry⟩ := contains_iff.mp h
    rw [findFile_of_place ((place_asked _).trans hp), hentry]
    rfl
  | named hvar hp h =>
    obtain ⟨entry, hentry⟩ := contains_iff.mp h
    rw [findFile_of_place ((place_named hvar).trans hp), hvar, hentry]
    rfl
  | own hvar hp h =>
    obtain ⟨content, hcontent⟩ := isFile_iff.mp h
    rw [findFile_of_place ((place_own hvar).trans hp), hvar, hcontent]
    rfl
  | @nothing p hvar hp h =>
    rw [findFile_of_place ((place_own hvar).trans hp), hvar]
    cases hentry : s.files p with
    | none => rfl
    | some entry =>
      cases entry with
      | directory => rfl
      | file content => simp [Surroundings.isFile, hentry] at h

theorem Missing.findFile {problem : ConfigProblem} (h : Missing s path problem) :
    findFile s path = .error (.host (.configuration problem)) := by
  cases h with
  | asked hp h =>
    rw [findFile_of_place ((place_asked _).trans hp), contains_eq_false.mp h]
    rfl
  | named hvar hp h =>
    rw [findFile_of_place ((place_named hvar).trans hp), hvar, contains_eq_false.mp h]
    rfl

/-- If there is a place, then a file is used or none is needed, or a file that is named is missing. -/
theorem uses_or_missing {p : Path} (h : place s path = .ok p) :
    (∃ used, Uses s path used ∧ ∀ q, used = some q → q = p) ∨ ∃ problem, Missing s path problem := by
  cases path with
  | some path =>
    cases hthere : s.contains p with
    | true => exact .inl ⟨some p, .asked h hthere, fun q hq => (Option.some.inj hq).symm⟩
    | false => exact .inr ⟨_, .asked h hthere⟩
  | none =>
    cases hvar : s.setting? "CORVUS_CONFIG" with
    | some name =>
      rw [place_named hvar] at h
      cases hthere : s.contains p with
      | true => exact .inl ⟨some p, .named hvar h hthere, fun q hq => (Option.some.inj hq).symm⟩
      | false => exact .inr ⟨_, .named hvar h hthere⟩
    | none =>
      rw [place_own hvar] at h
      cases hfile : s.isFile p with
      | true => exact .inl ⟨some p, .own hvar h hfile, fun q hq => (Option.some.inj hq).symm⟩
      | false => exact .inl ⟨none, .nothing hvar h hfile, nofun⟩

theorem findFile_eq_ok {used : Option Path} (h : findFile s path = .ok used) :
    Uses s path used ∧ ∀ q, used = some q → place s path = .ok q := by
  have hfind := h
  rw [findFile_eq] at h
  obtain ⟨p, hplace, -⟩ := Checked.bind_eq_ok h
  rcases uses_or_missing hplace with ⟨used', huses, hat⟩ | ⟨problem, hmissing⟩
  · obtain rfl : used' = used := Except.ok.inj (huses.findFile.symm.trans hfind)
    refine ⟨huses, fun q hq => ?_⟩
    rw [hat q hq]
    exact hplace
  · cases hmissing.findFile.symm.trans hfind

theorem findFile_homeless {f : Failure} (h : place s path = .error f) : findFile s path = .error f := by
  rw [findFile_eq, h]
  rfl

/-! ### What the file says -/

theorem says_of_textAt? {d : Document} {key : String} {entries : List (Datum × Datum)} {said : Option Value}
    (h : textAt? d key entries = .ok said) : Says d key entries said := by
  unfold textAt? at h
  cases hfind : entries.find? fun e => isNamed key e.1 with
  | none =>
    rw [hfind] at h
    obtain rfl := Except.ok.inj h
    refine .absent fun e he => ?_
    exact Bool.eq_false_iff.mpr (List.find?_eq_none.mp hfind e he)
  | some e =>
    obtain ⟨known, v⟩ := e
    rw [hfind] at h
    by_cases hnull : v = .null
    · subst hnull
      obtain rfl := Except.ok.inj h
      exact .null hfind
    · have hshown : some <$> shown (d.text v) = .ok said := by
        cases v with
        | null => exact absurd rfl hnull
        | _ => exact h
      cases ht : d.text v with
      | ok t =>
        rw [ht] at hshown
        obtain rfl := Except.ok.inj hshown
        exact .text hfind hnull ht
      | error fault =>
        rw [ht] at hshown
        cases hshown

theorem levelOf_eq_ok {name : Option Value} {level : LogLevel} (h : levelOf name = .ok level) :
    (name = none → level = .warning) ∧ ∀ v, name = some v → upper v.text = level.text := by
  unfold levelOf at h
  cases name with
  | none =>
    obtain rfl := Except.ok.inj h
    exact ⟨fun _ => rfl, nofun⟩
  | some v =>
    refine ⟨nofun, fun u hu => ?_⟩
    obtain rfl := Option.some.inj hu
    simp only [Option.map_some] at h
    cases hlevel : LogLevel.ofText? (upper v.text) with
    | none =>
      rw [hlevel] at h
      cases h
    | some l =>
      rw [hlevel] at h
      obtain rfl := Except.ok.inj h
      have htext : (l.text == upper v.text) = true :=
        List.find?_some (p := fun known : LogLevel => known.text == upper v.text) hlevel
      exact (eq_of_beq htext).symm

theorem combine_eq_ok {source : Option Path} {engine level : Option Value} {settings : Settings}
    (h : combine s source engine level = .ok settings) : settings.source = source ∧
      settings.engine = ((s.setting? "CORVUS_ENGINE").map Value.str).or engine ∧
      levelOf level = .ok settings.level := by
  obtain ⟨l, hl, h⟩ := Checked.bind_eq_ok h
  obtain rfl := Except.ok.inj h
  exact ⟨rfl, rfl, hl⟩

/-- Settings come from the file that is used, and a variable goes before its engine. -/
theorem load_eq_ok {settings : Settings} (h : load s path = .ok settings) :
    Uses s path settings.source ∧ ∃ engine level, Gives s settings.source engine level ∧
      settings.engine = ((s.setting? "CORVUS_ENGINE").map Value.str).or engine ∧
      levelOf level = .ok settings.level := by
  obtain ⟨used, hused, h⟩ := Checked.bind_eq_ok h
  obtain ⟨huses, -⟩ := findFile_eq_ok hused
  cases used with
  | none =>
    obtain ⟨hsource, hengine, hlevel⟩ := combine_eq_ok h
    rw [hsource]
    exact ⟨huses, none, none, .none, hengine, hlevel⟩
  | some p =>
    obtain ⟨d, hd, h⟩ := Checked.bind_eq_ok h
    obtain ⟨content, hcontent, hd⟩ := Checked.bind_eq_ok hd
    obtain ⟨entries, hentries, h⟩ := Checked.bind_eq_ok h
    obtain ⟨engine, hengine, h⟩ := Checked.bind_eq_ok h
    obtain ⟨level, hlevel, h⟩ := Checked.bind_eq_ok h
    obtain ⟨hsource, hchosen, hchecked⟩ := combine_eq_ok h
    rw [hsource]
    have hfile : s.files p = some (.file content) := by
      unfold Surroundings.content at hcontent
      split at hcontent
      · next hfile =>
        rw [hfile, Except.ok.inj hcontent]
      · cases hcontent
      · cases hcontent
    exact ⟨huses, engine, level,
      .file hfile hd hentries (says_of_textAt? hengine) (says_of_textAt? hlevel), hchosen, hchecked⟩

theorem load_error {f : Failure} (h : findFile s path = .error f) : load s path = .error f := by
  rw [load, h]
  rfl

/-! ### What does not matter -/

/-- Surroundings that differ in their files, but not at the place, lead to the same settings or to the same
failure. -/
theorem load_congr {s' : Surroundings} (henvironment : s'.environment = s.environment)
    (hwindows : s'.isWindows = s.isWindows) (hfiles : ∀ p, place s path = .ok p → s'.files p = s.files p) :
    load s' path = load s path := by
  obtain ⟨files, environment, isWindows⟩ := s
  obtain ⟨files', environment', isWindows'⟩ := s'
  dsimp only at henvironment hwindows
  subst henvironment hwindows
  have hfind : findFile ⟨files', environment', isWindows'⟩ path =
      findFile ⟨files, environment', isWindows'⟩ path := by
    cases hplace : place ⟨files, environment', isWindows'⟩ path with
    | error f => rw [findFile_homeless hplace, findFile_homeless (s := ⟨files', environment', isWindows'⟩) hplace]
    | ok p =>
      rw [findFile_of_place hplace, findFile_of_place (s := ⟨files', environment', isWindows'⟩) hplace]
      exact congrArg _ (hfiles p hplace)
  rw [load, load, hfind]
  cases hfound : findFile ⟨files, environment', isWindows'⟩ path with
  | error f => rfl
  | ok used =>
    cases used with
    | none => rfl
    | some p =>
      have hat : files' p = files p := hfiles p ((findFile_eq_ok hfound).2 p rfl)
      have hcontent : (⟨files', environment', isWindows'⟩ : Surroundings).content p =
          (⟨files, environment', isWindows'⟩ : Surroundings).content p := by
        simp only [Surroundings.content, hat]
      show ((⟨files', environment', isWindows'⟩ : Surroundings).content p >>= readDocument p >>= _) =
        ((⟨files, environment', isWindows'⟩ : Surroundings).content p >>= readDocument p >>= _)
      rw [hcontent]
      rfl

end Settings

namespace CommandLine

variable {σ : Type} {s : Surroundings}

/-- The engine that a command line loads. -/
theorem prepare_of_load (catalog : Catalog σ) {r : Request} {settings : Settings}
    (h : Settings.load s r.config = .ok settings) :
    prepare catalog s r = do
      let loaded ← catalog.load (engineSpec r settings)
      return startWorld loaded.engine (levelOf r settings)
        (.loadedEngine loaded.className (engineSpec r settings).text) := by
  rw [prepare, h]
  rfl

theorem engineSpec_asked {r : Request} {name : String} (settings : Settings) (h : r.engine = some name)
    (hname : name ≠ "") : engineSpec r settings = .str name := by
  have hkept : r.engine.filter (!·.isEmpty) = some name := by
    rw [h, Option.filter_some_pos (by simpa using hname)]
  rw [engineSpec, hkept]
  rfl

theorem engineSpec_settings {r : Request} (settings : Settings) (h : r.engine = none ∨ r.engine = some "") :
    engineSpec r settings = settings.engine.getD .null := by
  have hkept : r.engine.filter (!·.isEmpty) = none := by
    rcases h with h | h
    · rw [h, Option.filter_none]
    · rw [h, Option.filter_some_neg (by simp)]
  rw [engineSpec, hkept]
  rfl

theorem carryOut_congr (E : Engine σ) (catalog : Catalog σ) {s' : Surroundings} {r : Request}
    (h : Settings.load s' r.config = Settings.load s r.config) :
    carryOut E catalog s' r = carryOut E catalog s r := by
  rw [carryOut, carryOut, prepare, prepare, h]

end CommandLine

namespace Settings

open CommandLine

/-- There is at most one place for the file, found in this order: the path that is asked for, the one that a
variable names, the user's own; only a place in the home of nobody known is none. A named file that is not
there is refused. Settings that are found name one of five levels, and their engine is the one of the variable
or else of the file; a command line loads the one that it names or else that one. What stands at any other
path matters neither for the settings nor for what the command line does. -/
theorem settings_precedence (s : Surroundings) (path : Option String) :
    (∀ used, findFile s path = .ok used ↔ Uses s path used) ∧
    (∀ problem, Missing s path problem → load s path = .error (.host (.configuration problem))) ∧
    ((∃ used, Uses s path used) ∨ (∃ problem, Missing s path problem) ∨
      (place s path = .error (.shape .noHome) ∧ load s path = .error (.shape .noHome))) ∧
    (∀ settings, load s path = .ok settings → Uses s path settings.source ∧
      settings.level.text ∈ ["DEBUG", "INFO", "WARNING", "ERROR", "CRITICAL"] ∧
      ∃ engine level, Gives s settings.source engine level ∧
        settings.engine = ((s.setting? "CORVUS_ENGINE").map Value.str).or engine ∧
        (level = none → settings.level = .warning) ∧
        ∀ v, level = some v → upper v.text = settings.level.text) ∧
    (∀ s' : Surroundings, s'.environment = s.environment → s'.isWindows = s.isWindows →
      (∀ p, place s path = .ok p → s'.files p = s.files p) → load s' path = load s path) ∧
    ∀ (σ : Type) (E : Engine σ) (catalog : Catalog σ) (r : Request), r.config = path →
      (∀ settings, load s path = .ok settings →
        (prepare catalog s r = do
          let loaded ← catalog.load (engineSpec r settings)
          return startWorld loaded.engine (CommandLine.levelOf r settings)
            (.loadedEngine loaded.className (engineSpec r settings).text)) ∧
        (∀ name, r.engine = some name → name ≠ "" → engineSpec r settings = .str name) ∧
        (r.engine = none ∨ r.engine = some "" → engineSpec r settings = settings.engine.getD .null)) ∧
      ∀ s' : Surroundings, s'.environment = s.environment → s'.isWindows = s.isWindows →
        (∀ p, place s path = .ok p → s'.files p = s.files p) →
          carryOut E catalog s' r = carryOut E catalog s r := by
  refine ⟨fun used => ⟨fun h => (findFile_eq_ok h).1, Uses.findFile⟩, fun _ h => load_error h.findFile, ?_, ?_,
    fun s' => load_congr, ?_⟩
  · cases hplace : place s path with
    | error f =>
      obtain rfl := place_error hplace
      exact .inr (.inr ⟨rfl, load_error (findFile_homeless hplace)⟩)
    | ok p =>
      rcases uses_or_missing hplace with ⟨used, huses, -⟩ | hmissing
      · exact .inl ⟨used, huses⟩
      · exact .inr (.inl hmissing)
  · intro settings h
    obtain ⟨huses, engine, level, hgives, hengine, hlevel⟩ := load_eq_ok h
    have hfive : settings.level.text ∈ ["DEBUG", "INFO", "WARNING", "ERROR", "CRITICAL"] := by
      cases settings.level <;> decide
    exact ⟨huses, hfive, engine, level, hgives, hengine, levelOf_eq_ok hlevel⟩
  · rintro σ E catalog r rfl
    refine ⟨fun settings h => ?_, fun s' henvironment hwindows hfiles => ?_⟩
    · exact ⟨prepare_of_load catalog h, fun _ => engineSpec_asked settings, engineSpec_settings settings⟩
    · exact carryOut_congr E catalog (load_congr henvironment hwindows hfiles)

/-- A file with an engine, a variable that names no file, and whatever stands at all other paths. -/
def etcSurroundings (elsewhere : Option FileEntry) : Surroundings where
  files p := if p = ⟨"/", ["etc", "corvus.yaml"]⟩ then some (.file "engine: e".toUTF8) else elsewhere
  environment := [("HOME", "/home"), ("CORVUS_CONFIG", "/missing.yaml")]
  isWindows := false

theorem settings_precedence_etc :
    let s := etcSurroundings none
    let s' := etcSurroundings (some .directory)
    let p : Path := ⟨"/", ["etc", "corvus.yaml"]⟩
    load s (some "/etc/corvus.yaml") = .ok ⟨some (.str "e"), .warning, some p⟩ ∧
    Uses s (some "/etc/corvus.yaml") (some p) ∧
    load s' (some "/etc/corvus.yaml") = load s (some "/etc/corvus.yaml") ∧
    load s none = .error (.host (.configuration (.missingEnvironmentFile "/missing.yaml"))) := by
  intro s s' p
  obtain ⟨-, -, -, hfound, hcongr, -⟩ := settings_precedence s (some "/etc/corvus.yaml")
  obtain ⟨-, hmissing, -⟩ := settings_precedence s none
  have hplace : place s (some "/etc/corvus.yaml") = .ok p := by
    rw [place_asked, Path.ofText_eq]
    rfl
  have hfile : s.files p = some (.file "engine: e".toUTF8) := by
    simp [s, etcSurroundings, p]
  have hcontent : s.content p = .ok "engine: e".toUTF8 := by
    rw [Surroundings.content, hfile]
    rfl
  have hread : readDocument p "engine: e".toUTF8 =
      .ok ⟨#[.mapping [(.ofString "engine", .ofString "e")]], .collection 0⟩ := by
    simp only [p]
    cbv
  have hload : load s (some "/etc/corvus.yaml") = .ok ⟨some (.str "e"), .warning, some p⟩ := by
    rw [load, findFile_of_place hplace, hfile]
    show (s.content p >>= readDocument p >>= _) = _
    rw [hcontent]
    show (readDocument p "engine: e".toUTF8 >>= _) = _
    rw [hread]
    simp only [p]
    cbv
  have hsame : ∀ q, place s (some "/etc/corvus.yaml") = .ok q → s'.files q = s.files q := by
    intro q hq
    obtain rfl : p = q := Except.ok.inj (hplace.symm.trans hq)
    rfl
  have hvar : s.setting? "CORVUS_CONFIG" = some "/missing.yaml" := by
    simp only [s]
    cbv
  have hnamed : s.expandHome (.ofText "/missing.yaml") = .ok ⟨"/", ["missing.yaml"]⟩ := by
    rw [Path.ofText_eq]
    rfl
  refine ⟨hload, (hfound _ hload).1, hcongr s' rfl rfl hsame, ?_⟩
  have htext : (⟨"/", ["missing.yaml"]⟩ : Path).text = "/missing.yaml" := by decide +kernel
  exact htext ▸ hmissing _ (.named hvar hnamed rfl)

/-- A path in the home of a user who is not known is no file that is there, and is not refused as missing. -/
theorem homeless_not_refused :
    let s : Surroundings := ⟨fun _ => none, [("HOME", "home")], false⟩
    load s (some "~no_such_user/c.yaml") = .error (.shape .noHome) ∧
    ∀ problem, load s (some "~no_such_user/c.yaml") ≠ .error (.host (.configuration problem)) := by
  intro s
  have hpath : Path.ofText "~no_such_user/c.yaml" = ⟨"", ["~no_such_user", "c.yaml"]⟩ := by
    rw [Path.ofText_eq]
    decide +kernel
  have hplace : place s (some "~no_such_user/c.yaml") = .error (.shape .noHome) := by
    rw [place_asked, hpath]
    have htilde : "~no_such_user".startsWith "~" = true := by decide +kernel
    show (if "~no_such_user".startsWith "~" = true then _ else _) = _
    rw [if_pos htilde]
    rfl
  have hload := load_error (findFile_homeless hplace)
  refine ⟨hload, fun problem h => ?_⟩
  rw [hload] at h
  cases h

end Settings

end EngineHost
