/-
  Finite maps that remember the order in which their keys first arrived.

  `Table κ ν` is the list of its entries, oldest key first, together with the fact that no key
  occurs twice.  Everything that is looked up by name in this library (signals, devices, warnings,
  frequency series, running phases) sits in such a table, so that a listing of the table is
  determined by the history that built it.

  1. **Program** — `alter k f` changes the value at `k`, or appends `k` when it is new; `insert`
     and `collect` (a list read as a map, the last entry of a key wins) are instances of it.

  2. **View** — `get?` for the contents and `keys` for the order.  One equation per operation and
     view: `get?_alter`, `keys_alter`, `get?_mapValues`, `keys_mapValues`, `get?_collect`.  The two
     views say all that there is to say of a table (`eq_of_get?`).
-/

namespace PulseTimeline

/-- What an element at the end adds. -/
theorem filterMap_concat {α β : Type} (f : α → Option β) (l : List α) (a : α) :
    (l ++ [a]).filterMap f = l.filterMap f ++ (f a).toList := by
  rw [List.filterMap_append]
  cases h : f a <;> simp [h]

/-- An element at the end is kept if it has not occurred before. -/
theorem eraseDups_concat {α : Type} [DecidableEq α] (l : List α) (a : α) :
    (l ++ [a]).eraseDups = if a ∈ l.eraseDups then l.eraseDups else l.eraseDups ++ [a] := by
  rw [List.eraseDups_append]
  by_cases h : a ∈ l <;> simp [List.removeAll, List.eraseDups_cons, h]

/-- A finite map as the list of its entries, oldest key first; no key occurs twice. -/
structure Table (κ ν : Type) where
  entries : List (κ × ν)
  nodup : (entries.map Prod.fst).Nodup

namespace Table

variable {κ ν : Type} [DecidableEq κ]

/-! ## Changing one entry of a list -/

/-- Change the value at `k` by `f`, in place; a new key goes to the end with the value `f none`. -/
def alterEntries (k : κ) (f : Option ν → ν) : List (κ × ν) → List (κ × ν)
  | [] => [(k, f none)]
  | (k', v) :: rest =>
      if k' = k then (k', f (some v)) :: rest else (k', v) :: alterEntries k f rest

/-- The keys stay in the order in which they came up. -/
theorem map_fst_alterEntries (k : κ) (f : Option ν → ν) (l : List (κ × ν)) :
    (alterEntries k f l).map Prod.fst =
      if k ∈ l.map Prod.fst then l.map Prod.fst else l.map Prod.fst ++ [k] := by
  induction l with
  | nil => simp [alterEntries]
  | cons e rest ih =>
      obtain ⟨k', v⟩ := e
      by_cases h : k' = k
      · simp [alterEntries, h]
      · have h' : ¬ k = k' := fun hk => h hk.symm
        simp only [alterEntries, h, if_false, List.map_cons, ih, List.mem_cons, h', false_or]
        split <;> rfl

theorem nodup_alterEntries (k : κ) (f : Option ν → ν) {l : List (κ × ν)}
    (h : (l.map Prod.fst).Nodup) : ((alterEntries k f l).map Prod.fst).Nodup := by
  rw [map_fst_alterEntries]
  split
  · exact h
  · rename_i hk
    rw [List.nodup_append]
    refine ⟨h, by simp, fun a ha b hb => ?_⟩
    rw [List.mem_singleton] at hb
    subst hb
    exact fun hab => hk (hab ▸ ha)

/-- Only the value of the key is altered. -/
theorem lookup_alterEntries (k q : κ) (f : Option ν → ν) (l : List (κ × ν)) :
    (alterEntries k f l).lookup q = if q = k then some (f (l.lookup k)) else l.lookup q := by
  induction l with
  | nil =>
      by_cases h : q = k
      · simp [alterEntries, h]
      · have : (q == k) = false := by simpa using h
        simp [alterEntries, List.lookup_cons, h, this]
  | cons e rest ih =>
      obtain ⟨k', v⟩ := e
      by_cases hk : k' = k
      · subst hk
        by_cases hq : q = k'
        · simp [alterEntries, hq]
        · have : (q == k') = false := by simpa using hq
          simp [alterEntries, List.lookup_cons, hq, this]
      · have hk' : (k == k') = false := by simpa using fun h : k = k' => hk h.symm
        simp only [alterEntries, hk, if_false, List.lookup_cons, ih, hk']
        by_cases hq : q = k'
        · subst hq
          simp [hk]
        · have : (q == k') = false := by simpa using hq
          simp [this]

theorem lookup_map_snd (f : ν → ν) (k : κ) (l : List (κ × ν)) :
    (l.map fun e => (e.1, f e.2)).lookup k = (l.lookup k).map f := by
  induction l with
  | nil => rfl
  | cons e rest ih =>
      obtain ⟨k', v⟩ := e
      simp only [List.map_cons, List.lookup_cons, ih]
      cases k == k' <;> rfl

/-! ## Tables -/

/-- The table without entries. -/
def empty : Table κ ν := ⟨[], List.nodup_nil⟩

/-- The value at `k`, if the key is present. -/
def get? (t : Table κ ν) (k : κ) : Option ν := t.entries.lookup k

/-- The keys, in the order in which they first arrived. -/
def keys (t : Table κ ν) : List κ := t.entries.map Prod.fst

/-- The values, in the order of their keys. -/
def values (t : Table κ ν) : List ν := t.entries.map Prod.snd

/-- The number of keys. -/
def size (t : Table κ ν) : Nat := t.entries.length

/-- Change the value at `k` by `f`; a new key goes to the end with the value `f none`. -/
def alter (t : Table κ ν) (k : κ) (f : Option ν → ν) : Table κ ν :=
  ⟨alterEntries k f t.entries, nodup_alterEntries k f t.nodup⟩

/-- Set the value at `k`; a key that is present keeps its place. -/
def insert (t : Table κ ν) (k : κ) (v : ν) : Table κ ν := t.alter k fun _ => v

/-- Apply `f` to every value. -/
def mapValues (f : ν → ν) (t : Table κ ν) : Table κ ν :=
  ⟨t.entries.map fun e => (e.1, f e.2), by simpa [List.map_map, Function.comp_def] using t.nodup⟩

/-- Read a list as a map from `key x` to `value x`; of several entries for a key the last wins. -/
def collect {α : Type} (key : α → κ) (value : α → ν) (xs : List α) : Table κ ν :=
  xs.foldl (fun t x => t.insert (key x) (value x)) empty

/-! ## What each operation does to the contents and to the order -/

@[simp] theorem get?_empty (k : κ) : (empty : Table κ ν).get? k = none := rfl

omit [DecidableEq κ] in
@[simp] theorem keys_empty : (empty : Table κ ν).keys = [] := rfl

theorem get?_alter (t : Table κ ν) (k q : κ) (f : Option ν → ν) :
    (t.alter k f).get? q = if q = k then some (f (t.get? k)) else t.get? q :=
  lookup_alterEntries k q f t.entries

theorem keys_alter (t : Table κ ν) (k : κ) (f : Option ν → ν) :
    (t.alter k f).keys = if k ∈ t.keys then t.keys else t.keys ++ [k] :=
  map_fst_alterEntries k f t.entries

theorem get?_insert (t : Table κ ν) (k q : κ) (v : ν) :
    (t.insert k v).get? q = if q = k then some v else t.get? q :=
  get?_alter t k q _

theorem keys_insert (t : Table κ ν) (k : κ) (v : ν) :
    (t.insert k v).keys = if k ∈ t.keys then t.keys else t.keys ++ [k] :=
  keys_alter t k _

theorem get?_mapValues (f : ν → ν) (t : Table κ ν) (k : κ) :
    (t.mapValues f).get? k = (t.get? k).map f :=
  lookup_map_snd f k t.entries

omit [DecidableEq κ] in
@[simp] theorem keys_mapValues (f : ν → ν) (t : Table κ ν) : (t.mapValues f).keys = t.keys := by
  simp [keys, mapValues, Function.comp_def]

/-! ## Entries -/

/-- A key has a value if and only if it is among the keys. -/
theorem isSome_get? {t : Table κ ν} {k : κ} : (t.get? k).isSome = true ↔ k ∈ t.keys := by
  rw [get?, keys, List.lookup_isSome_iff, List.mem_map]
  constructor
  · rintro ⟨e, he, hk⟩
    exact ⟨e, he, (beq_iff_eq.mp hk).symm⟩
  · rintro ⟨e, he, hk⟩
    exact ⟨e, he, beq_iff_eq.mpr hk.symm⟩

theorem get?_of_mem {t : Table κ ν} {e : κ × ν} (h : e ∈ t.entries) : t.get? e.1 = some e.2 := by
  obtain ⟨front, back, hsplit⟩ := List.append_of_mem h
  refine List.lookup_eq_some_iff.mpr ⟨front, back, hsplit, fun p hp => ?_⟩
  -- Another entry in front of this one has another key.
  have hnodup := t.nodup
  rw [hsplit, List.map_append, List.nodup_append] at hnodup
  have hne : p.1 ≠ e.1 :=
    hnodup.2.2 p.1 (List.mem_map_of_mem hp) e.1 (List.mem_map_of_mem List.mem_cons_self)
  simpa using hne.symm

/-- The values are what the keys lead to, in the same order. -/
theorem map_some_values (t : Table κ ν) : t.values.map some = t.keys.map t.get? := by
  rw [values, keys, List.map_map, List.map_map]
  exact List.map_congr_left fun e he => (get?_of_mem he).symm

omit [DecidableEq κ] in
/-- Keys and values side by side are the entries. -/
theorem zip_keys_values (t : Table κ ν) : t.keys.zip t.values = t.entries := by
  rw [keys, values, ← List.unzip_fst, ← List.unzip_snd, List.zip_unzip]

/-- A table is determined by its keys and by what they lead to. -/
theorem eq_of_get? {t t' : Table κ ν} (hkeys : t.keys = t'.keys)
    (h : ∀ k, t.get? k = t'.get? k) : t = t' := by
  have hsome : t.values.map some = t'.values.map some := by
    rw [map_some_values, map_some_values, hkeys, funext h]
  have hvalues : t.values = t'.values :=
    (List.map_inj_right fun _ _ hab => Option.some.inj hab).mp hsome
  have hentries : t.entries = t'.entries := by
    rw [← zip_keys_values, ← zip_keys_values, hkeys, hvalues]
  obtain ⟨entries, hnodup⟩ := t
  obtain ⟨entries', hnodup'⟩ := t'
  cases hentries
  rfl

/-! ## Collected lists -/

/-- Of several values inserted with the same key, the last one is found. -/
theorem get?_foldl_insert {α : Type} (key : α → κ) (value : α → ν) (q : κ) (xs : List α) :
    ∀ t : Table κ ν, (xs.foldl (fun t x => t.insert (key x) (value x)) t).get? q =
      (((xs.filter fun x => decide (key x = q)).getLast?.map value).or (t.get? q)) := by
  induction xs with
  | nil => intro t; simp
  | cons x xs ih =>
      intro t
      rw [List.foldl_cons, ih, get?_insert]
      by_cases h : key x = q
      · subst h
        rw [List.filter_cons_of_pos (by simp), List.getLast?_cons]
        cases (xs.filter fun y => decide (key y = key x)).getLast? <;> simp
      · have h' : ¬ q = key x := fun hq => h hq.symm
        rw [List.filter_cons_of_neg (by simpa using h), if_neg h']

/-- A collected list answers with the last of the entries for a key. -/
theorem get?_collect {α : Type} (key : α → κ) (value : α → ν) (xs : List α) (q : κ) :
    (collect key value xs).get? q =
      (xs.filter fun x => decide (key x = q)).getLast?.map value := by
  rw [collect, get?_foldl_insert]
  simp

end Table

end PulseTimeline
