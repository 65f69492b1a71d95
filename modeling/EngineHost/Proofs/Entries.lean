import EngineHost.Proofs.Names

/-!
Mappings whose keys are told apart by equality. A key that is written again keeps its place, so a mapping has its
keys in the order in which they were first written, each with what was written last.
-/
namespace EngineHost

variable {key value : Value} {entries : List (Value × Value)}

theorem lookup?_eq_some (hkeys : ∀ e ∈ entries, e.1.equals key ↔ e.1 = key)
    (honce : (entries.map Prod.fst).Nodup) :
    Value.lookup? key entries = some value ↔ (key, value) ∈ entries := by
  induction entries with
  | nil => simp [Value.lookup?]
  | cons e rest ih =>
    obtain ⟨k, v⟩ := e
    obtain ⟨hfresh, honce⟩ := List.nodup_cons.mp honce
    have hrest := ih (fun e he => hkeys e (List.mem_cons_of_mem _ he)) honce
    by_cases hk : k = key
    · subst hk
      have hfound : k.equals k = true := (hkeys (k, v) List.mem_cons_self).mpr rfl
      have hnot : (k, value) ∉ rest := fun hmem => hfresh (List.mem_map.mpr ⟨(k, value), hmem, rfl⟩)
      simp [Value.lookup?, hfound, hnot, eq_comm]
    · have hother : k.equals key ≠ true := fun h => hk ((hkeys (k, v) List.mem_cons_self).mp h)
      simp [Value.lookup?, hother, hrest, Ne.symm hk]

theorem lookup?_eq_none (hkeys : ∀ e ∈ entries, e.1.equals key ↔ e.1 = key)
    (hfresh : ∀ e ∈ entries, e.1 ≠ key) : Value.lookup? key entries = none := by
  induction entries with
  | nil => rfl
  | cons e rest ih =>
    obtain ⟨k, v⟩ := e
    have hother : k.equals key ≠ true := fun h =>
      hfresh (k, v) List.mem_cons_self ((hkeys (k, v) List.mem_cons_self).mp h)
    simp only [Value.lookup?, hother, if_false, Bool.false_eq_true]
    exact ih (fun e he => hkeys e (List.mem_cons_of_mem _ he))
      fun e he => hfresh e (List.mem_cons_of_mem _ he)

theorem insertEntry_fresh (value : Value) (hkeys : ∀ e ∈ entries, e.1.equals key ↔ e.1 = key)
    (hfresh : ∀ e ∈ entries, e.1 ≠ key) :
    Value.insertEntry key value entries = entries ++ [(key, value)] := by
  induction entries with
  | nil => rfl
  | cons e rest ih =>
    obtain ⟨k, v⟩ := e
    have hother : k.equals key ≠ true := fun h =>
      hfresh (k, v) List.mem_cons_self ((hkeys (k, v) List.mem_cons_self).mp h)
    simp only [Value.insertEntry, hother, if_false, Bool.false_eq_true, List.cons_append]
    rw [ih (fun e he => hkeys e (List.mem_cons_of_mem _ he))
      fun e he => hfresh e (List.mem_cons_of_mem _ he)]

theorem keys_once_concat (honce : (entries.map Prod.fst).Nodup) (hfresh : ∀ e ∈ entries, e.1 ≠ key) :
    ((entries ++ [(key, value)]).map Prod.fst).Nodup := by
  rw [List.map_append, List.map_singleton]
  refine List.nodup_append.mpr ⟨honce, by simp, ?_⟩
  intro k hk k' hk'
  obtain ⟨e, he, rfl⟩ := List.mem_map.mp hk
  obtain rfl := List.mem_singleton.mp hk'
  exact hfresh e he

/-- A key that is there keeps its place. -/
theorem keys_insertEntry_old (value : Value) (hkeys : ∀ e ∈ entries, e.1.equals key ↔ e.1 = key)
    (hold : key ∈ entries.map Prod.fst) :
    (Value.insertEntry key value entries).map Prod.fst = entries.map Prod.fst := by
  induction entries with
  | nil => cases hold
  | cons e rest ih =>
    obtain ⟨k, v⟩ := e
    obtain ⟨hfirst, hrest⟩ := List.forall_mem_cons.mp hkeys
    rw [Value.insertEntry]
    split
    · rfl
    · next hne =>
      have hother : key ≠ k := fun h => hne (hfirst.mpr h.symm)
      rw [List.map_cons, List.map_cons, ih hrest ((List.mem_cons.mp hold).resolve_left hother)]

/-- Every other key has the value that it had. -/
theorem mem_insertEntry {e : Value × Value} (hkeys : ∀ e ∈ entries, e.1.equals key ↔ e.1 = key)
    (honce : (entries.map Prod.fst).Nodup) (he : e ∈ Value.insertEntry key value entries) :
    e = (key, value) ∨ e.1 ≠ key ∧ e ∈ entries := by
  induction entries with
  | nil => exact .inl (List.mem_singleton.mp he)
  | cons first rest ih =>
    obtain ⟨k, v⟩ := first
    obtain ⟨hfirst, hrest⟩ := List.forall_mem_cons.mp hkeys
    obtain ⟨hfresh, honce⟩ := List.nodup_cons.mp honce
    rw [Value.insertEntry] at he
    split at he
    · next heq =>
      obtain rfl := hfirst.mp heq
      rcases List.mem_cons.mp he with rfl | he
      · exact .inl rfl
      · exact .inr ⟨fun h => hfresh (h ▸ List.mem_map_of_mem he), List.mem_cons_of_mem _ he⟩
    · next hne =>
      rcases List.mem_cons.mp he with rfl | he
      · exact .inr ⟨fun h => hne (hfirst.mpr h), List.mem_cons_self⟩
      · exact (ih hrest honce he).imp_right fun h => ⟨h.1, List.mem_cons_of_mem _ h.2⟩

/-! ### The entries of a mapping by how it was written -/

/-- The entries of a mapping that was written to in this order. -/
structure Latest (writes entries : List (Value × Value)) : Prop where
  /-- There is one under each key that was written. -/
  keys : ∀ key, key ∈ entries.map Prod.fst ↔ key ∈ writes.map Prod.fst
  /-- Of two keys, the first had been written before the second ever was. -/
  order : (entries.map Prod.fst).Pairwise fun a b =>
    ∃ before after, writes.map Prod.fst = before ++ a :: after ∧ b ∉ before ++ [a]
  /-- The key was not written again. -/
  values : ∀ key value, (key, value) ∈ entries →
    ∃ before after, writes = before ++ (key, value) :: after ∧ key ∉ after.map Prod.fst

namespace Latest

variable {writes : List (Value × Value)}

theorem nil : Latest [] [] :=
  ⟨fun _ => .rfl, .nil, nofun⟩

theorem once (h : Latest writes entries) : (entries.map Prod.fst).Nodup := by
  refine h.order.imp ?_
  rintro a b ⟨before, after, -, hb⟩ rfl
  exact hb (List.mem_append_right _ (List.mem_singleton_self a))

theorem mem_writes (h : Latest writes entries) {e : Value × Value} (he : e ∈ entries) : e ∈ writes := by
  obtain ⟨before, after, hsplit, -⟩ := h.values e.1 e.2 he
  exact hsplit ▸ List.mem_append_right _ List.mem_cons_self

/-- The next key to be written is told from those that were. -/
theorem write (h : Latest writes entries) (hkeys : ∀ e ∈ writes, e.1.equals key ↔ e.1 = key) (value : Value) :
    Latest (writes ++ [(key, value)]) (Value.insertEntry key value entries) := by
  have hkeys' : ∀ e ∈ entries, e.1.equals key ↔ e.1 = key := fun e he => hkeys e (h.mem_writes he)
  have hvalues : ∀ k v, (k, v) ∈ Value.insertEntry key value entries → ∃ before after,
      writes ++ [(key, value)] = before ++ (k, v) :: after ∧ k ∉ after.map Prod.fst := by
    intro k v hmem
    rcases mem_insertEntry hkeys' h.once hmem with heq | ⟨hne, hmem⟩
    · exact ⟨writes, [], by rw [heq], by simp⟩
    · obtain ⟨before, after, rfl, hlast⟩ := h.values k v hmem
      refine ⟨before, after ++ [(key, value)], by simp, ?_⟩
      simpa using ⟨by simpa using hlast, hne⟩
  have horder : (entries.map Prod.fst).Pairwise fun a b => ∃ before after,
      (writes ++ [(key, value)]).map Prod.fst = before ++ a :: after ∧ b ∉ before ++ [a] := by
    refine h.order.imp ?_
    rintro a b ⟨before, after, hsplit, hb⟩
    exact ⟨before, after ++ [key], by simp [hsplit], hb⟩
  by_cases hold : key ∈ entries.map Prod.fst
  · have hsame := keys_insertEntry_old value hkeys' hold
    refine ⟨fun k => ?_, hsame ▸ horder, hvalues⟩
    rw [hsame, h.keys k, List.map_append, List.mem_append]
    refine ⟨.inl, ?_⟩
    rintro (hk | hk)
    · exact hk
    · obtain rfl := List.mem_singleton.mp hk
      exact (h.keys k).mp hold
  · have hfresh : ∀ e ∈ entries, e.1 ≠ key := fun e he heq => hold (heq ▸ List.mem_map_of_mem he)
    have hlast := insertEntry_fresh value hkeys' hfresh
    refine ⟨fun k => ?_, ?_, hvalues⟩
    · simp only [hlast, List.map_append, List.mem_append, h.keys k]
    · have hbehind : (entries ++ [(key, value)]).map Prod.fst = entries.map Prod.fst ++ [key] := by simp
      rw [hlast, hbehind]
      refine List.pairwise_append.mpr ⟨horder, List.pairwise_singleton _ _, ?_⟩
      intro a ha b hb
      obtain rfl := List.mem_singleton.mp hb
      -- The new key was never written, so the first time that the other was comes before it.
      obtain ⟨before, after, hsplit⟩ := List.append_of_mem ((h.keys a).mp ha)
      refine ⟨before, after ++ [b], by simp [hsplit], fun hb => hold ((h.keys b).mpr ?_)⟩
      rw [hsplit, ← List.singleton_append, ← List.append_assoc]
      exact List.mem_append_left _ hb

end Latest

/-- Under texts, a mapping has what was written last. -/
theorem latest_collectEntries (writes : List (Value × Value)) (htexts : ∀ e ∈ writes, e.1.isText) :
    Latest writes (Value.collectEntries writes) := by
  induction writes using List.reverseRecOn with
  | nil => exact .nil
  | append_singleton writes last ih =>
    obtain ⟨key, value⟩ := last
    have hbefore : ∀ e ∈ writes, e.1.isText := fun e he => htexts e (List.mem_append_left _ he)
    have hcollect : Value.collectEntries (writes ++ [(key, value)]) =
        Value.insertEntry key value (Value.collectEntries writes) := by
      simp [Value.collectEntries]
    rw [hcollect]
    exact (ih hbefore).write (fun e he => equals_text (hbefore e he)) value

end EngineHost
