import Mathlib
import EngineHost.Proofs.Legibility
import EngineHost.Proofs.Precedence

/-!
How it ends to load settings. Most of what can be wrong with a configuration is refused as such. What is not: a
home that nobody knows, a directory in the place of the file, bytes and scalars that the reading of the document
breaks off at, unknown keys that cannot be put in order, and numbers too long to be written.
-/
namespace EngineHost

open Text Yaml

namespace Sorting

variable {α : Type} {precedes : Comparison α}

theorem runLength_isSome (wanted : Bool) (rest : List α) : ∀ previous,
    (∀ x ∈ previous :: rest, ∀ y ∈ previous :: rest, (precedes x y).isSome) →
      (runLength precedes wanted previous rest).isSome := by
  induction rest with
  | nil => exact fun _ _ => rfl
  | cons x rest ih =>
    intro previous h
    obtain ⟨answer, hanswer⟩ := Option.isSome_iff_exists.mp (h x (by simp) previous (by simp))
    obtain ⟨n, hn⟩ := Option.isSome_iff_exists.mp
      (ih x fun y hy z hz => h y (List.mem_cons_of_mem _ hy) z (List.mem_cons_of_mem _ hz))
    by_cases hwanted : answer = wanted <;> simp [runLength, hanswer, hwanted, hn]

theorem place_isSome {x : α} {sorted : List α} (h : ∀ y ∈ sorted, (precedes x y).isSome) (fuel : Nat) :
    ∀ low high, (place precedes x sorted fuel low high).isSome := by
  induction fuel with
  | zero => exact fun _ _ => rfl
  | succ fuel ih =>
    intro low high
    rw [place]
    split
    · dsimp only
      split
      · rfl
      · next y hy =>
        obtain ⟨answer, hanswer⟩ := Option.isSome_iff_exists.mp (h y (List.mem_of_getElem? hy))
        rw [hanswer]
        cases answer
        · exact ih _ _
        · exact ih _ _
    · rfl

theorem insertInto_isSome {x : α} {sorted : List α} (h : ∀ y ∈ sorted, (precedes x y).isSome) :
    (insertInto precedes sorted x).isSome := by
  obtain ⟨i, hi⟩ := Option.isSome_iff_exists.mp (place_isSome h (sorted.length + 1) 0 sorted.length)
  rw [insertInto, hi]
  rfl

theorem foldlM_insertInto_isSome (rest : List α) : ∀ sorted : List α,
    (∀ x ∈ sorted ++ rest, ∀ y ∈ sorted ++ rest, (precedes x y).isSome) →
      (rest.foldlM (insertInto precedes) sorted).isSome := by
  induction rest with
  | nil => exact fun _ _ => rfl
  | cons x rest ih =>
    intro sorted h
    obtain ⟨more, hmore⟩ := Option.isSome_iff_exists.mp
      (insertInto_isSome fun y hy => h x (by simp) y (List.mem_append_left _ hy))
    have hperm : (more ++ rest).Perm (sorted ++ x :: rest) :=
      ((insertInto_perm hmore).append_right rest).trans List.perm_middle.symm
    rw [List.foldlM_cons, hmore]
    exact ih more fun y hy z hz => h y (hperm.subset hy) z (hperm.subset hz)

/-- Only two elements that have no order keep a list from being sorted. -/
theorem sort?_isSome {xs : List α} (h : ∀ x ∈ xs, ∀ y ∈ xs, (precedes x y).isSome) :
    (sort? precedes xs).isSome := by
  match xs with
  | [] | [_] => rfl
  | x :: y :: rest =>
    obtain ⟨descending, hdescending⟩ := Option.isSome_iff_exists.mp (h y (by simp) x (by simp))
    obtain ⟨n, hn⟩ := Option.isSome_iff_exists.mp
      (runLength_isSome descending rest y fun a ha b hb =>
        h a (List.mem_cons_of_mem _ ha) b (List.mem_cons_of_mem _ hb))
    obtain ⟨⟨front, later⟩, hfront⟩ : ∃ parts, orderedFront precedes (x :: y :: rest) = some parts := by
      rw [orderedFront, hdescending, Option.bind_eq_bind, Option.bind_some, hn]
      exact ⟨_, rfl⟩
    have hperm := orderedFront_perm hfront
    rw [sort?, hfront]
    exact foldlM_insertInto_isSome later front fun a ha b hb => h a (hperm.subset ha) b (hperm.subset hb)

end Sorting

/-- What a reading breaks off with that is not refused as bad YAML. -/
def Yaml.ReadError.stray? : ReadError → Option Failure
  | .malformed | .unfinished => none
  | .scalar fault | .badNumber _ fault => some (.shape fault)
  | .tooDeep => some .tooDeep

/-- Bytes that are no text are never read to the end. -/
theorem Yaml.Source.read_broken {source : Source} (h : source.isBroken) (d : Document) : source.read ≠ .ok d := by
  intro hread
  rw [Source.read, h] at hread
  split at hread
  · cases hread
  · split at hread
    · split at hread <;> cases hread
    · split at hread <;> cases hread
    · split at hread <;> cases hread

theorem Yaml.Source.isBroken_ofBytes {content : ByteArray} (h : String.fromUTF8? content = none) :
    (Source.ofBytes content).isBroken := by
  rw [Source.ofBytes, h]

/-- What can be without a text: a number that is too long, and a collection that holds one. -/
def Yaml.Datum.IsUnwieldy (v : Datum) : Prop :=
  (∃ i, v = .int i ∧ Document.tooLong ≤ i.natAbs) ∨ ∃ id, v = .collection id

theorem Yaml.Document.unwieldy_of_display {d : Document} {v : Datum} {fault : ShapeFault}
    (h : d.display v = .error fault) : v.IsUnwieldy := by
  cases v with
  | int i =>
    have hshown : displayInt i = .error fault := h
    rw [displayInt] at hshown
    split at hshown
    · cases hshown
    · next hlong => exact .inl ⟨i, rfl, not_lt.mp hlong⟩
  | collection id => exact .inr ⟨id, rfl⟩
  | _ => cases h

theorem Yaml.Document.unwieldy_of_text {d : Document} {v : Datum} {fault : ShapeFault}
    (h : d.text v = .error fault) : v.IsUnwieldy := by
  cases hshown : d.display v with
  | error fault => exact unwieldy_of_display hshown
  | ok shown =>
    unfold Document.text at h
    split at h
    · cases h
    · cases h
    · cases h
    · rw [hshown] at h
      cases h

theorem Yaml.Document.isText_text {d : Document} {v : Datum} {t : Value} (h : d.text v = .ok t) : t.isText := by
  have hletters : ∀ letters : List Letter, (Value.ofLetters letters).isText := by
    intro letters
    unfold Value.ofLetters
    split <;> rfl
  unfold Document.text at h
  split at h
  · obtain rfl := Except.ok.inj h
    exact hletters _
  · obtain rfl := Except.ok.inj h
    rfl
  · obtain rfl := Except.ok.inj h
    rfl
  · cases hshown : d.display v with
    | error fault =>
      rw [hshown] at h
      cases h
    | ok shown =>
      rw [hshown] at h
      obtain rfl := Except.ok.inj h
      rfl

namespace Settings

/-- What settings are made of the document in a file. -/
def settle (s : Surroundings) (p : Path) (d : Document) : Checked Settings := do
  let entries ← entriesOf p d
  combine s (some p) (← textAt? d "engine" entries) (← textAt? d "log_level" entries)

/-- What settings have to be. -/
structure Sound (settings : Settings) : Prop where
  engine : ∀ v, settings.engine = some v → v.isText
  level : settings.level.text ∈ ["DEBUG", "INFO", "WARNING", "ERROR", "CRITICAL"]

/-- The entry of a key is there, but has no text. -/
inductive Untold (d : Document) (key : String) (entries : List (Datum × Datum)) : Failure → Prop where
  | found {known v : Datum} {fault : ShapeFault} (h : (entries.find? fun e => isNamed key e.1) = some (known, v))
    (hv : v ≠ .null) (ht : d.text v = .error fault) : Untold d key entries (.shape fault)

/-- What keeps a document from being made settings and is not refused. -/
inductive Unsettled (d : Document) : Failure → Prop where
  /-- There are unknown keys, and they have no order. -/
  | unordered {entries : List (Datum × Datum)} (h : d.entries? = some entries)
    (hsort : Sorting.sort? Datum.less? (unknownKeys entries) = none) : Unsettled d (.shape .wrongKind)
  /-- One of them has no text. -/
  | unlisted {entries : List (Datum × Datum)} {sorted : List Datum} {fault : ShapeFault}
    (h : d.entries? = some entries) (hsort : Sorting.sort? Datum.less? (unknownKeys entries) = some sorted)
    (ht : sorted.mapM d.display = .error fault) : Unsettled d (.shape fault)
  | engine {entries : List (Datum × Datum)} {f : Failure} (h : d.entries? = some entries)
    (hknown : unknownKeys entries = []) (ht : Untold d "engine" entries f) : Unsettled d f
  | level {entries : List (Datum × Datum)} {engine : Option Value} {f : Failure} (h : d.entries? = some entries)
    (hknown : unknownKeys entries = []) (hengine : Says d "engine" entries engine)
    (ht : Untold d "log_level" entries f) : Unsettled d f

/-- What keeps settings from being loaded and is not refused. -/
inductive Stray (s : Surroundings) (path : Option String) : Failure → Prop where
  /-- The file is in the home of nobody known. -/
  | homeless (h : place s path = .error (.shape .noHome)) : Stray s path (.shape .noHome)
  | directory {p : Path} (huses : Uses s path (some p)) (h : s.files p = some .directory) :
    Stray s path (.shape .isDirectory)
  | unread {p : Path} {content : ByteArray} {e : ReadError} {f : Failure} (huses : Uses s path (some p))
    (hfile : s.files p = some (.file content)) (hread : (Source.ofBytes content).read = .error e)
    (hstray : e.stray? = some f) : Stray s path f
  | unsettled {p : Path} {content : ByteArray} {d : Document} {f : Failure} (huses : Uses s path (some p))
    (hfile : s.files p = some (.file content)) (hread : (Source.ofBytes content).read = .ok d)
    (h : Unsettled d f) : Stray s path f

/-- Something good, a refusal, or one of the other failures. -/
def Ends {α : Type} (good : α → Prop) (stray : Failure → Prop) (c : Checked α) : Prop :=
  match c with
  | .ok a => good a
  | .error f => (∃ problem, f = .host (.configuration problem)) ∨ stray f

namespace Ends

variable {α β : Type} {good : α → Prop} {good' : β → Prop} {stray stray' : Failure → Prop} {c : Checked α}

theorem refuse (problem : ConfigProblem) : Ends good stray (Settings.refuse problem) :=
  .inl ⟨problem, rfl⟩

theorem weaken (h : Ends good stray c) (hstray : ∀ f, stray f → stray' f) : Ends good stray' c := by
  cases c with
  | ok a => exact h
  | error f => exact h.imp_right (hstray f)

theorem bind {k : α → Checked β} (h : Ends good stray c) (hk : ∀ a, good a → Ends good' stray (k a)) :
    Ends good' stray (c >>= k) := by
  cases c with
  | ok a => exact hk a h
  | error f => exact h

end Ends

variable {s : Surroundings} {path : Option String} {p : Path} {d : Document} {entries : List (Datum × Datum)}

/-! ### A document -/

theorem entriesOf_ends : Ends (fun entries => d.entries? = some entries ∧ unknownKeys entries = [])
    (Unsettled d) (entriesOf p d) := by
  unfold entriesOf
  split
  · exact .refuse _
  · next entries h =>
    split
    · next hknown => exact ⟨h, List.isEmpty_iff.mp hknown⟩
    · split
      · next sorted hsort =>
        cases ht : sorted.mapM d.display with
        | error fault => exact .inr (.unlisted h hsort ht)
        | ok keys => exact .refuse _
      · next hsort => exact .inr (.unordered h hsort)

theorem textAt?_found {key : String} {known v : Datum}
    (hfind : (entries.find? fun e => isNamed key e.1) = some (known, v)) (hv : v ≠ .null) :
    textAt? d key entries = some <$> shown (d.text v) := by
  rw [textAt?, hfind]
  cases v with
  | null => exact absurd rfl hv
  | _ => rfl

theorem textAt?_ends (key : String) : Ends (Says d key entries) (Untold d key entries) (textAt? d key entries) := by
  cases hsaid : textAt? d key entries with
  | ok said => exact says_of_textAt? hsaid
  | error f =>
    cases hfind : entries.find? fun e => isNamed key e.1 with
    | none =>
      rw [textAt?, hfind] at hsaid
      cases hsaid
    | some e =>
      obtain ⟨known, v⟩ := e
      by_cases hnull : v = .null
      · subst hnull
        rw [textAt?, hfind] at hsaid
        cases hsaid
      · rw [textAt?_found hfind hnull] at hsaid
        cases ht : d.text v with
        | ok t =>
          rw [ht] at hsaid
          cases hsaid
        | error fault =>
          rw [ht] at hsaid
          obtain rfl := Except.error.inj hsaid
          exact .inr (.found hfind hnull ht)

theorem text_mem_levels (level : LogLevel) : level.text ∈ ["DEBUG", "INFO", "WARNING", "ERROR", "CRITICAL"] := by
  cases level <;> decide

theorem levelOf_ends (name : Option Value) : Ends (fun _ => True) (fun _ => False) (levelOf name) := by
  unfold levelOf
  split
  · trivial
  · split
    · trivial
    · exact .refuse _

theorem Says.isText {key : String} {said : Option Value} (h : Says d key entries said) :
    ∀ v, said = some v → v.isText := by
  intro v hv
  cases h with
  | absent _ => cases hv
  | null _ => cases hv
  | text _ _ ht =>
    obtain rfl := Option.some.inj hv
    exact Document.isText_text ht

theorem combine_ends {source : Option Path} {engine level : Option Value}
    (hengine : ∀ v, engine = some v → v.isText) :
    Ends Sound (fun _ => False) (combine s source engine level) := by
  refine (levelOf_ends level).bind fun l _ => ⟨fun v hv => ?_, ?_⟩
  · rcases Option.or_eq_some_iff.mp hv with hvar | ⟨-, hfile⟩
    · obtain ⟨name, -, rfl⟩ := Option.map_eq_some_iff.mp hvar
      rfl
    · exact hengine v hfile
  · exact text_mem_levels l

/-- Whatever a document holds, it ends so. -/
theorem settle_ends : Ends Sound (Unsettled d) (settle s p d) := by
  refine entriesOf_ends.bind fun entries ⟨hentries, hknown⟩ => ?_
  refine ((textAt?_ends "engine").weaken fun f hf => .engine hentries hknown hf).bind fun engine hengine => ?_
  refine ((textAt?_ends "log_level").weaken fun f hf => .level hentries hknown hengine hf).bind fun level _ => ?_
  exact (combine_ends hengine.isText).weaken nofun

theorem Says.textAt?_eq {key : String} {said : Option Value} (h : Says d key entries said) :
    textAt? d key entries = .ok said := by
  cases h with
  | absent h =>
    have hfind : entries.find? (fun e => isNamed key e.1) = none :=
      List.find?_eq_none.mpr fun e he => by simp [h e he]
    rw [textAt?, hfind]
    rfl
  | null h =>
    rw [textAt?, h]
    rfl
  | text h hv ht =>
    rw [textAt?_found h hv, ht]
    rfl

theorem Untold.textAt?_eq {key : String} {f : Failure} (h : Untold d key entries f) :
    textAt? d key entries = .error f := by
  obtain ⟨hfind, hv, ht⟩ := h
  rw [textAt?_found hfind hv, ht]
  rfl

theorem entriesOf_known (h : d.entries? = some entries) (hknown : unknownKeys entries = []) :
    entriesOf p d = .ok entries := by
  rw [entriesOf, h]
  simp [hknown]
  rfl

theorem entriesOf_unordered (h : d.entries? = some entries)
    (hsort : Sorting.sort? Datum.less? (unknownKeys entries) = none) :
    entriesOf p d = .error (.shape .wrongKind) := by
  have hunknown : unknownKeys entries ≠ [] := by
    intro hnone
    rw [hnone] at hsort
    cases hsort
  rw [entriesOf, h]
  simp only [List.isEmpty_iff, hunknown, if_false, hsort]
  rfl

theorem entriesOf_unlisted {sorted : List Datum} {fault : ShapeFault} (h : d.entries? = some entries)
    (hsort : Sorting.sort? Datum.less? (unknownKeys entries) = some sorted)
    (ht : sorted.mapM d.display = .error fault) : entriesOf p d = .error (.shape fault) := by
  have hunknown : unknownKeys entries ≠ [] := by
    intro hnone
    rw [hnone] at hsort
    obtain rfl := Option.some.inj hsort
    cases ht
  rw [entriesOf, h]
  simp only [List.isEmpty_iff, hunknown, if_false, hsort, ht]
  rfl

theorem Unsettled.settle_eq {f : Failure} (h : Unsettled d f) : settle s p d = .error f := by
  cases h with
  | unordered h hsort =>
    rw [settle, entriesOf_unordered h hsort]
    rfl
  | unlisted h hsort ht =>
    rw [settle, entriesOf_unlisted h hsort ht]
    rfl
  | engine h hknown ht =>
    rw [settle, entriesOf_known h hknown]
    show (textAt? d "engine" _ >>= _) = _
    rw [ht.textAt?_eq]
    rfl
  | level h hknown hengine ht =>
    rw [settle, entriesOf_known h hknown]
    show (textAt? d "engine" _ >>= fun _ => textAt? d "log_level" _ >>= _) = _
    rw [hengine.textAt?_eq, ht.textAt?_eq]
    rfl

theorem mem_of_mem_unknownKeys {key : Datum} (h : key ∈ unknownKeys entries) : ∃ e ∈ entries, e.1 = key :=
  List.mem_map.mp (List.mem_filter.mp h).1

theorem Untold.unwieldy {key : String} {f : Failure} (h : Untold d key entries f) :
    (∃ fault, f = .shape fault) ∧ ∃ e ∈ entries, e.2.IsUnwieldy := by
  obtain ⟨hfind, -, ht⟩ := h
  exact ⟨⟨_, rfl⟩, _, List.mem_of_find?_eq_some hfind, Document.unwieldy_of_text ht⟩

theorem exists_error_of_mapM {α β ε : Type} {g : α → Except ε β} {xs : List α} {e : ε}
    (h : xs.mapM g = .error e) : ∃ x ∈ xs, g x = .error e := by
  induction xs with
  | nil => cases h
  | cons x rest ih =>
    rw [List.mapM_cons] at h
    cases hx : g x with
    | error e' =>
      rw [hx] at h
      obtain rfl := Except.error.inj h
      exact ⟨x, List.mem_cons_self, hx⟩
    | ok b =>
      rw [hx] at h
      cases hrest : rest.mapM g with
      | ok bs =>
        rw [hrest] at h
        cases h
      | error e' =>
        rw [hrest] at h
        obtain rfl := Except.error.inj h
        obtain ⟨y, hy, hfail⟩ := ih hrest
        exact ⟨y, List.mem_cons_of_mem _ hy, hfail⟩

/-- It takes two unknown keys without an order, or something without a text. -/
theorem Unsettled.cause {f : Failure} (h : Unsettled d f) :
    (∃ fault, f = .shape fault) ∧ ∃ entries, d.entries? = some entries ∧
      ((∃ x ∈ unknownKeys entries, ∃ y ∈ unknownKeys entries, x.less? y = none) ∨
        ∃ e ∈ entries, e.1.IsUnwieldy ∨ e.2.IsUnwieldy) := by
  cases h with
  | @unordered entries h hsort =>
    refine ⟨⟨_, rfl⟩, entries, h, .inl ?_⟩
    by_contra hnone
    push Not at hnone
    have hsome : (Sorting.sort? Datum.less? (unknownKeys entries)).isSome :=
      Sorting.sort?_isSome fun x hx y hy => Option.isSome_iff_ne_none.mpr (hnone x hx y hy)
    rw [hsort] at hsome
    cases hsome
  | unlisted h hsort ht =>
    obtain ⟨key, hkey, hfail⟩ := exists_error_of_mapM ht
    obtain ⟨e, he, rfl⟩ := mem_of_mem_unknownKeys ((Sorting.sort?_perm hsort).subset hkey)
    exact ⟨⟨_, rfl⟩, _, h, .inr ⟨e, he, .inl (Document.unwieldy_of_display hfail)⟩⟩
  | engine h _ ht =>
    obtain ⟨hshape, e, he, hlong⟩ := ht.unwieldy
    exact ⟨hshape, _, h, .inr ⟨e, he, .inr hlong⟩⟩
  | level h _ _ ht =>
    obtain ⟨hshape, e, he, hlong⟩ := ht.unwieldy
    exact ⟨hshape, _, h, .inr ⟨e, he, .inr hlong⟩⟩

/-! ### A file -/

theorem readDocument_ends {content : ByteArray} :
    Ends (fun d => (Source.ofBytes content).read = .ok d)
      (fun f => ∃ e : ReadError, (Source.ofBytes content).read = .error e ∧ e.stray? = some f)
      (readDocument p content) := by
  unfold readDocument
  cases hread : (Source.ofBytes content).read with
  | ok d => exact rfl
  | error e =>
    cases e with
    | malformed => exact .refuse _
    | unfinished => exact .refuse _
    | scalar fault => exact .inr ⟨_, rfl, rfl⟩
    | badNumber index fault => exact .inr ⟨_, rfl, rfl⟩
    | tooDeep => exact .inr ⟨_, rfl, rfl⟩

theorem readDocument_stray {content : ByteArray} {e : ReadError} {f : Failure}
    (hread : (Source.ofBytes content).read = .error e) (hstray : e.stray? = some f) :
    readDocument p content = .error f := by
  rw [readDocument, hread]
  cases e with
  | malformed => cases hstray
  | unfinished => cases hstray
  | _ =>
    obtain rfl := Option.some.inj hstray
    rfl

theorem load_of_uses {content : ByteArray} (huses : Uses s path (some p)) (hfile : s.files p = some (.file content)) :
    load s path = readDocument p content >>= settle s p := by
  have hcontent : s.content p = .ok content := by
    rw [Surroundings.content, hfile]
    rfl
  rw [load, huses.findFile]
  show (s.content p >>= readDocument p >>= _) = _
  rw [hcontent]
  rfl

theorem load_of_directory (huses : Uses s path (some p)) (h : s.files p = some .directory) :
    load s path = .error (.shape .isDirectory) := by
  have hcontent : s.content p = .error (.shape .isDirectory) := by
    rw [Surroundings.content, h]
    rfl
  rw [load, huses.findFile]
  show (s.content p >>= readDocument p >>= _) = _
  rw [hcontent]
  rfl

theorem load_of_nothing (huses : Uses s path none) : load s path = combine s none none none := by
  rw [load, huses.findFile]
  rfl

theorem Uses.there (huses : Uses s path (some p)) : s.contains p := by
  cases huses with
  | asked _ h => exact h
  | named _ _ h => exact h
  | own _ _ h =>
    obtain ⟨content, hcontent⟩ := isFile_iff.mp h
    exact contains_iff.mpr ⟨_, hcontent⟩

theorem load_ends_used (huses : Uses s path (some p)) : Ends Sound (Stray s path) (load s path) := by
  obtain ⟨entry, hentry⟩ := contains_iff.mp huses.there
  cases entry with
  | directory =>
    rw [load_of_directory huses hentry]
    exact .inr (.directory huses hentry)
  | file content =>
    rw [load_of_uses huses hentry]
    refine (readDocument_ends.weaken ?_).bind fun d hd =>
      settle_ends.weaken fun f hf => .unsettled huses hentry hd hf
    rintro f ⟨e, hread, hstray⟩
    exact .unread huses hentry hread hstray

/-- However it ends, it ends so. -/
theorem load_ends (s : Surroundings) (path : Option String) : Ends Sound (Stray s path) (load s path) := by
  cases hplace : place s path with
  | error f =>
    obtain rfl := place_error hplace
    rw [load_error (findFile_homeless hplace)]
    exact .inr (.homeless hplace)
  | ok p =>
    rcases uses_or_missing hplace with ⟨used, huses, -⟩ | ⟨problem, hmissing⟩
    · cases used with
      | none =>
        have hnothing : ∀ v, (none : Option Value) = some v → v.isText := nofun
        rw [load_of_nothing huses]
        exact (combine_ends hnothing).weaken nofun
      | some p => exact load_ends_used huses
    · rw [load_error hmissing.findFile]
      exact .refuse problem

theorem Stray.load_eq {f : Failure} (h : Stray s path f) : load s path = .error f := by
  cases h with
  | homeless h => exact load_error (findFile_homeless h)
  | directory huses h => exact load_of_directory huses h
  | unread huses hfile hread hstray =>
    rw [load_of_uses huses hfile, readDocument_stray hread hstray]
    rfl
  | unsettled huses hfile hread h =>
    rw [load_of_uses huses hfile, readDocument, hread]
    exact h.settle_eq

theorem Stray.family_ne {f : Failure} (h : Stray s path f) : f.family ≠ "ConfigurationError" := by
  have hshape : ∀ fault : ShapeFault, (Failure.shape fault).family ≠ "ConfigurationError" := by
    intro fault
    cases fault <;> simp [Failure.family, ShapeFault.family]
  cases h with
  | homeless _ => exact hshape _
  | directory _ _ => exact hshape _
  | @unread _ _ e f _ _ _ hstray =>
    cases e with
    | malformed => cases hstray
    | unfinished => cases hstray
    | tooDeep =>
      obtain rfl := Option.some.inj hstray
      simp [Failure.family]
    | _ =>
      obtain rfl := Option.some.inj hstray
      exact hshape _
  | unsettled _ _ _ h =>
    obtain ⟨⟨fault, rfl⟩, -⟩ := h.cause
    exact hshape fault

/-- How it ends to load settings: an engine that is a text, if there is one, and one of five levels; or the
configuration is refused; or else it is one of a few other failures, and each of them is no refusal. A file that
holds bytes that are no text never gives settings. Of a document, whatever it holds, all is made settings or
refused but for unknown keys without an order and for what has no text. -/
theorem configuration_outcomes (s : Surroundings) (path : Option String) :
    (∀ settings, load s path = .ok settings → settings.Sound) ∧
    (∀ f, load s path = .error f → (∃ problem, f = .host (.configuration problem)) ∨ Stray s path f) ∧
    (∀ f, Stray s path f → load s path = .error f ∧ f.family ≠ "ConfigurationError") ∧
    (∀ p content, Uses s path (some p) → s.files p = some (.file content) →
      load s path = readDocument p content >>= settle s p ∧
        (String.fromUTF8? content = none → ∀ settings, load s path ≠ .ok settings)) ∧
    ∀ p d, (∀ settings, settle s p d = .ok settings → settings.Sound) ∧
      (∀ f, settle s p d = .error f → (∃ problem, f = .host (.configuration problem)) ∨ Unsettled d f) ∧
      ∀ f, Unsettled d f → settle s p d = .error f ∧ ∃ entries, d.entries? = some entries ∧
        ((∃ x ∈ unknownKeys entries, ∃ y ∈ unknownKeys entries, x.less? y = none) ∨
          ∃ e ∈ entries, e.1.IsUnwieldy ∨ e.2.IsUnwieldy) := by
  have hload := load_ends s path
  refine ⟨?_, ?_, fun f h => ⟨h.load_eq, h.family_ne⟩, ?_, ?_⟩
  · intro settings h
    rw [h] at hload
    exact hload
  · intro f h
    rw [h] at hload
    exact hload
  · intro p content huses hfile
    refine ⟨load_of_uses huses hfile, fun hbroken settings h => ?_⟩
    rw [load_of_uses huses hfile] at h
    obtain ⟨d, hd, -⟩ := Checked.bind_eq_ok h
    have hread : Ends (fun d => (Source.ofBytes content).read = .ok d) _ (readDocument p content) :=
      readDocument_ends
    rw [hd] at hread
    exact Source.read_broken (Source.isBroken_ofBytes hbroken) d hread
  · intro p d
    have hsettle : Ends Sound (Unsettled d) (settle s p d) := settle_ends
    refine ⟨fun settings h => ?_, fun f h => ?_, fun f h => ⟨h.settle_eq, h.cause.2⟩⟩
    · rw [h] at hsettle
      exact hsettle
    · rw [h] at hsettle
      exact hsettle

/-- The same stands at every path. -/
def uniform (entry : Option FileEntry) : Surroundings where
  files _ := entry
  environment := [("HOME", "/home"), ("CORVUS_ENGINE", "e")]
  isWindows := false

theorem uniform_place (entry : Option FileEntry) :
    (uniform entry).expandHome (.ofText "/d") = .ok ⟨"/", ["d"]⟩ := by
  rw [Path.ofText_eq]
  rfl

theorem uniform_uses (entry : FileEntry) : Uses (uniform (some entry)) (some "/d") (some ⟨"/", ["d"]⟩) :=
  .asked (uniform_place _) rfl

/-- A document with a number and a text as keys. -/
def mixedKeys : Document :=
  ⟨#[.mapping [(.int 1, .null), (.ofString "x", .null)]], .collection 0⟩

/-- An empty file, none, a directory, bytes that are no text, and keys without an order. -/
theorem configuration_outcomes_uniform :
    (∃ settings, load (uniform (some (.file ⟨#[]⟩))) (some "/d") = .ok settings ∧ settings.Sound) ∧
    (∃ f, load (uniform none) (some "/d") = .error f ∧
      ((∃ problem, f = .host (.configuration problem)) ∨ Stray (uniform none) (some "/d") f)) ∧
    load (uniform (some .directory)) (some "/d") = .error (.shape .isDirectory) ∧
    (∀ settings, load (uniform (some (.file ⟨#[255]⟩))) (some "/d") ≠ .ok settings) ∧
    settle (uniform none) ⟨"/", ["d"]⟩ mixedKeys = .error (.shape .wrongKind) := by
  have hempty : load (uniform (some (.file ⟨#[]⟩))) (some "/d") =
      .ok ⟨some (.str "e"), .warning, some ⟨"/", ["d"]⟩⟩ := by
    have hread : readDocument ⟨"/", ["d"]⟩ ⟨#[]⟩ = .ok ⟨#[], .null⟩ := by cbv
    rw [load_of_uses (uniform_uses _) rfl, hread]
    cbv
  have hmissing : load (uniform none) (some "/d") =
      .error (.host (.configuration (.missingFile (Path.text ⟨"/", ["d"]⟩)))) :=
    load_error (Missing.findFile (.asked (uniform_place none) rfl))
  have hmixed : Unsettled mixedKeys (.shape .wrongKind) := .unordered rfl (by cbv)
  have hbytes : String.fromUTF8? ⟨#[255]⟩ = none := by cbv
  exact ⟨⟨_, hempty, (configuration_outcomes _ _).1 _ hempty⟩,
    ⟨_, hmissing, (configuration_outcomes _ _).2.1 _ hmissing⟩,
    ((configuration_outcomes _ _).2.2.1 _ (.directory (uniform_uses _) rfl)).1,
    ((configuration_outcomes _ _).2.2.2.1 _ _ (uniform_uses _) rfl).2 hbytes,
    (((configuration_outcomes (uniform none) none).2.2.2.2 _ _).2.2 _ hmixed).1⟩

/-- A directory in the place of the file is neither made settings nor refused. -/
theorem directory_not_refused :
    ¬ ∀ (s : Surroundings) (path : Option String),
      (∃ settings, load s path = .ok settings ∧ settings.Sound) ∨
        ∃ problem, load s path = .error (.host (.configuration problem)) := by
  intro h
  have hload : load (uniform (some .directory)) (some "/d") = .error (.shape .isDirectory) :=
    load_of_directory (uniform_uses _) rfl
  rcases h (uniform (some .directory)) (some "/d") with ⟨settings, hsettings, -⟩ | ⟨problem, hproblem⟩
  · rw [hload] at hsettings
    cases hsettings
  · rw [hload] at hproblem
    cases hproblem

end Settings

end EngineHost
