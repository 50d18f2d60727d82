/-!
# Tables in insertion order

A table holds one value for each of its keys and remembers the order in which the keys came in.

## Main definitions

* `Table` - the entries, with distinct keys.
* `Table.find?`, `Table.contains`, `Table.keys`, `Table.size` - looking things up.
* `Table.insert`, `Table.erase` - bind a key, which keeps its place if it is bound already; take one
  out.
-/

namespace ScriptRunner

/-- Entries with distinct keys, in the order in which the keys were first bound. -/
structure Table (κ α : Type) where
  entries : List (κ × α)
  distinct : (entries.map Prod.fst).Nodup

namespace Table

variable {κ α : Type}

def empty : Table κ α := ⟨[], List.nodup_nil⟩

instance : Inhabited (Table κ α) := ⟨empty⟩

/-- The keys in the order in which they were first bound. -/
def keys (t : Table κ α) : List κ := t.entries.map Prod.fst

def values (t : Table κ α) : List α := t.entries.map Prod.snd

def size (t : Table κ α) : Nat := t.entries.length

variable [DecidableEq κ]

/-- The value of the first entry with a key. -/
def lookup (key : κ) : List (κ × α) → Option α
  | [] => none
  | (k, a) :: rest => if k = key then some a else lookup key rest

def find? (t : Table κ α) (key : κ) : Option α := lookup key t.entries

def contains (t : Table κ α) (key : κ) : Bool := (t.find? key).isSome

/-- Replace the value of the entry with a key, or add an entry at the end. -/
def put (key : κ) (value : α) : List (κ × α) → List (κ × α)
  | [] => [(key, value)]
  | (k, a) :: rest => if k = key then (k, value) :: rest else (k, a) :: put key value rest

theorem mem_keys_put {key k : κ} {value : α} {entries : List (κ × α)} :
    k ∈ (put key value entries).map Prod.fst ↔ k = key ∨ k ∈ entries.map Prod.fst := by
  induction entries with
  | nil => simp [put]
  | cons entry rest ih =>
    obtain ⟨k', a⟩ := entry
    by_cases h : k' = key
    · subst h; simp [put]
    · simp only [put, h, if_false, List.map_cons, List.mem_cons, ih]
      exact or_left_comm

theorem nodup_put {key : κ} {value : α} {entries : List (κ × α)}
    (h : (entries.map Prod.fst).Nodup) : ((put key value entries).map Prod.fst).Nodup := by
  induction entries with
  | nil => simp [put]
  | cons entry rest ih =>
    obtain ⟨k, a⟩ := entry
    rw [List.map_cons, List.nodup_cons] at h
    by_cases hk : k = key
    · simpa [put, hk] using h
    · rw [put, if_neg hk, List.map_cons, List.nodup_cons, mem_keys_put]
      exact ⟨fun hmem => hmem.elim hk h.1, ih h.2⟩

/-- Bind a key to a value. A key that is bound already keeps its place and gets the new value. -/
def insert (t : Table κ α) (key : κ) (value : α) : Table κ α :=
  ⟨put key value t.entries, nodup_put t.distinct⟩

def erase (t : Table κ α) (key : κ) : Table κ α :=
  ⟨t.entries.filter (·.1 ≠ key), t.distinct.sublist (List.filter_sublist.map Prod.fst)⟩

/-- The table that binds the keys of a list one after the other. -/
def ofList (entries : List (κ × α)) : Table κ α :=
  entries.foldl (fun t entry => t.insert entry.1 entry.2) empty

theorem lookup_put (key k : κ) (value : α) (entries : List (κ × α)) :
    lookup k (put key value entries) = if key = k then some value else lookup k entries := by
  induction entries with
  | nil => by_cases h : key = k <;> simp [put, lookup, h]
  | cons entry rest ih =>
    obtain ⟨k', a⟩ := entry
    by_cases hk : k' = key
    · subst hk
      by_cases h : k' = k <;> simp [put, lookup, h]
    · by_cases h : key = k
      · subst h; simp [put, lookup, hk, ih]
      · simp [put, lookup, hk, h, ih]

@[simp] theorem find?_empty (key : κ) : (empty : Table κ α).find? key = none := rfl

theorem find?_insert (t : Table κ α) (key k : κ) (value : α) :
    (t.insert key value).find? k = if key = k then some value else t.find? k :=
  lookup_put key k value t.entries

@[simp] theorem find?_insert_self (t : Table κ α) (key : κ) (value : α) :
    (t.insert key value).find? key = some value := by
  simp [find?_insert]

theorem find?_insert_of_ne (t : Table κ α) {key k : κ} (value : α) (h : key ≠ k) :
    (t.insert key value).find? k = t.find? k := by
  simp [find?_insert, h]

theorem mem_keys_insert (t : Table κ α) (key k : κ) (value : α) :
    k ∈ (t.insert key value).keys ↔ k = key ∨ k ∈ t.keys :=
  mem_keys_put

theorem isSome_lookup_iff (key : κ) (entries : List (κ × α)) :
    (lookup key entries).isSome = true ↔ key ∈ entries.map Prod.fst := by
  induction entries with
  | nil => simp [lookup]
  | cons entry rest ih =>
    obtain ⟨k, a⟩ := entry
    by_cases h : k = key
    · simp [lookup, h]
    · rw [lookup, if_neg h, ih, List.map_cons, List.mem_cons]
      simp [Ne.symm h]

theorem contains_iff_mem_keys (t : Table κ α) (key : κ) :
    t.contains key = true ↔ key ∈ t.keys :=
  isSome_lookup_iff key t.entries

theorem lookup_eq_some_iff {entries : List (κ × α)} (hd : (entries.map Prod.fst).Nodup) (key : κ)
    (a : α) : lookup key entries = some a ↔ (key, a) ∈ entries := by
  induction entries with
  | nil => simp [lookup]
  | cons entry rest ih =>
    obtain ⟨k, b⟩ := entry
    rw [List.map_cons, List.nodup_cons] at hd
    by_cases h : k = key
    · subst h
      have hrest : (k, a) ∉ rest := fun hmem => hd.1 (List.mem_map.2 ⟨_, hmem, rfl⟩)
      simp [lookup, hrest, eq_comm]
    · simp [lookup, h, Ne.symm h, ih hd.2]

/-- Looking a key up finds exactly the entries. -/
theorem find?_eq_some_iff (t : Table κ α) (key : κ) (a : α) :
    t.find? key = some a ↔ (key, a) ∈ t.entries :=
  lookup_eq_some_iff t.distinct key a

theorem mem_keys_of_find? {t : Table κ α} {key : κ} {a : α} (h : t.find? key = some a) :
    key ∈ t.keys :=
  List.mem_map_of_mem ((t.find?_eq_some_iff key a).1 h)

theorem exists_find?_of_mem_keys {t : Table κ α} {key : κ} (h : key ∈ t.keys) :
    ∃ a, t.find? key = some a :=
  Option.isSome_iff_exists.1 ((t.contains_iff_mem_keys key).2 h)

theorem find?_eq_none_iff (t : Table κ α) (key : κ) : t.find? key = none ↔ key ∉ t.keys := by
  rw [← contains_iff_mem_keys, contains, Option.not_isSome_iff_eq_none]

theorem put_of_not_mem {key : κ} (value : α) {entries : List (κ × α)}
    (h : key ∉ entries.map Prod.fst) : put key value entries = entries ++ [(key, value)] := by
  induction entries with
  | nil => rfl
  | cons entry rest ih =>
    rw [List.map_cons, List.mem_cons, not_or] at h
    rw [put, if_neg (Ne.symm h.1), ih h.2, List.cons_append]

theorem put_of_mem {key : κ} (value : α) {entries : List (κ × α)}
    (hd : (entries.map Prod.fst).Nodup) (h : key ∈ entries.map Prod.fst) :
    put key value entries =
      entries.map fun entry => if entry.1 = key then (key, value) else entry := by
  induction entries with
  | nil => simp at h
  | cons entry rest ih =>
    rw [List.map_cons, List.nodup_cons] at hd
    by_cases hk : entry.1 = key
    · have hrest : ∀ e ∈ rest, e.1 ≠ key := fun e he heq =>
        hd.1 (List.mem_map.2 ⟨e, he, heq.trans hk.symm⟩)
      have hsame : rest.map (fun e => if e.1 = key then (key, value) else e) = rest :=
        (List.map_congr_left fun e he => if_neg (hrest e he)).trans (List.map_id _)
      simp [put, hk, hsame]
    · have hmem : key ∈ rest.map Prod.fst := by simpa [Ne.symm hk] using h
      simp [put, hk, ih hd.2 hmem]

/-- A new key goes to the end. -/
theorem entries_insert_of_not_mem {t : Table κ α} {key : κ} (value : α) (h : key ∉ t.keys) :
    (t.insert key value).entries = t.entries ++ [(key, value)] :=
  put_of_not_mem value h

/-- A key that is bound keeps its place. -/
theorem entries_insert_of_mem {t : Table κ α} {key : κ} (value : α) (h : key ∈ t.keys) :
    (t.insert key value).entries =
      t.entries.map fun entry => if entry.1 = key then (key, value) else entry :=
  put_of_mem value t.distinct h

theorem keys_insert_of_not_mem {t : Table κ α} {key : κ} (value : α) (h : key ∉ t.keys) :
    (t.insert key value).keys = t.keys ++ [key] := by
  simp [keys, entries_insert_of_not_mem value h]

theorem keys_insert_of_mem {t : Table κ α} {key : κ} (value : α) (h : key ∈ t.keys) :
    (t.insert key value).keys = t.keys := by
  rw [keys, entries_insert_of_mem value h, List.map_map]
  refine List.map_congr_left fun entry _ => ?_
  by_cases hk : entry.1 = key <;> simp [hk]

/-- Binding distinct new keys one after the other adds their entries at the end. -/
theorem entries_foldl_insert (entries : List (κ × α)) {t : Table κ α}
    (hd : (entries.map Prod.fst).Nodup) (hnew : ∀ k ∈ entries.map Prod.fst, k ∉ t.keys) :
    (entries.foldl (fun t entry => t.insert entry.1 entry.2) t).entries = t.entries ++ entries := by
  induction entries generalizing t with
  | nil => simp
  | cons entry rest ih =>
    rw [List.map_cons, List.nodup_cons] at hd
    have hentry : entry.1 ∉ t.keys := hnew entry.1 List.mem_cons_self
    have hrest : ∀ k ∈ rest.map Prod.fst, k ∉ (t.insert entry.1 entry.2).keys := by
      intro k hk
      rw [keys_insert_of_not_mem _ hentry, List.mem_append, List.mem_singleton]
      rintro (hmem | rfl)
      · exact hnew k (List.mem_cons_of_mem _ hk) hmem
      · exact hd.1 hk
    rw [List.foldl_cons, ih hd.2 hrest, entries_insert_of_not_mem _ hentry, List.append_assoc,
      List.singleton_append]

theorem entries_ofList {entries : List (κ × α)} (hd : (entries.map Prod.fst).Nodup) :
    (ofList entries).entries = entries :=
  entries_foldl_insert entries hd fun _ _ => List.not_mem_nil

theorem mem_or_find?_of_foldl_insert (entries : List (κ × α)) {t : Table κ α} {key : κ} {a : α}
    (h : (entries.foldl (fun t entry => t.insert entry.1 entry.2) t).find? key = some a) :
    (key, a) ∈ entries ∨ t.find? key = some a := by
  induction entries generalizing t with
  | nil => exact .inr h
  | cons entry rest ih =>
    rcases ih h with hmem | hfind
    · exact .inl (List.mem_cons_of_mem _ hmem)
    · rw [find?_insert] at hfind
      split at hfind
      next hkey =>
        obtain rfl := Option.some.inj hfind
        exact .inl (hkey ▸ List.mem_cons_self)
      next => exact .inr hfind

/-- What a list binds is one of its entries. -/
theorem mem_of_find?_ofList {entries : List (κ × α)} {key : κ} {a : α}
    (h : (ofList entries).find? key = some a) : (key, a) ∈ entries := by
  refine (mem_or_find?_of_foldl_insert entries h).resolve_right ?_
  rw [find?_empty]
  exact nofun

end Table

end ScriptRunner
