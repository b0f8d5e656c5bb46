import Mathlib.Data.List.Nodup
import Mathlib.Tactic

/-!
A dictionary that remembers insertion order: assigning to a present key keeps
its place, assigning to a new key appends it. The keys are distinct by
construction, so no later proof has to rule out a shadowed entry. Counters
are dictionaries of naturals in which a missing key counts zero.
-/

structure OrderedDict (κ ν : Type) where
  entries : List (κ × ν)
  nodup : (entries.map Prod.fst).Nodup
  deriving DecidableEq

namespace OrderedDict

variable {κ ν : Type}

def empty : OrderedDict κ ν := ⟨[], by simp⟩

def keys (d : OrderedDict κ ν) : List κ := d.entries.map Prod.fst

def values (d : OrderedDict κ ν) : List ν := d.entries.map Prod.snd

theorem keys_nodup (d : OrderedDict κ ν) : d.keys.Nodup := d.nodup

/-- The entries whose key passes. -/
def filterKeys (d : OrderedDict κ ν) (keep : κ → Bool) : OrderedDict κ ν where
  entries := d.entries.filter (fun entry => keep entry.1)
  nodup := d.nodup.sublist (List.filter_sublist.map Prod.fst)

/-- The values changed in place. -/
def mapValues (d : OrderedDict κ ν) (f : ν → ν) : OrderedDict κ ν where
  entries := d.entries.map (fun entry => (entry.1, f entry.2))
  nodup := by
    rw [List.map_map]
    exact d.nodup

@[simp] theorem keys_mapValues (d : OrderedDict κ ν) (f : ν → ν) :
    (d.mapValues f).keys = d.keys := by
  rw [keys, mapValues, List.map_map]
  rfl

variable [DecidableEq κ]

def findEntry (key : κ) : List (κ × ν) → Option ν
  | [] => none
  | (k, v) :: rest => if k = key then some v else findEntry key rest

/-- Overwrite the entry of `key` where it stands, or append one. -/
def putEntry (key : κ) (value : ν) : List (κ × ν) → List (κ × ν)
  | [] => [(key, value)]
  | (k, v) :: rest =>
      if k = key then (key, value) :: rest else (k, v) :: putEntry key value rest

theorem keys_putEntry (key : κ) (value : ν) (entries : List (κ × ν)) :
    (putEntry key value entries).map Prod.fst =
      if key ∈ entries.map Prod.fst then entries.map Prod.fst
      else entries.map Prod.fst ++ [key] := by
  induction entries with
  | nil => simp [putEntry]
  | cons entry rest ih =>
      obtain ⟨k, v⟩ := entry
      by_cases hk : k = key
      · simp [putEntry, hk]
      · have hne : key ≠ k := fun h => hk h.symm
        simp only [putEntry, if_neg hk, List.map_cons, ih, List.mem_cons, hne, false_or]
        split <;> simp

theorem findEntry_putEntry_self (key : κ) (value : ν) (entries : List (κ × ν)) :
    findEntry key (putEntry key value entries) = some value := by
  induction entries with
  | nil => simp [putEntry, findEntry]
  | cons entry rest ih =>
      obtain ⟨k, v⟩ := entry
      by_cases hk : k = key
      · simp [putEntry, findEntry, hk]
      · simp [putEntry, findEntry, hk, ih]

theorem findEntry_putEntry_ne {key other : κ} (h : other ≠ key) (value : ν)
    (entries : List (κ × ν)) :
    findEntry other (putEntry key value entries) = findEntry other entries := by
  induction entries with
  | nil => simp [putEntry, findEntry, Ne.symm h]
  | cons entry rest ih =>
      obtain ⟨k, v⟩ := entry
      by_cases hk : k = key
      · subst hk
        simp [putEntry, findEntry, Ne.symm h]
      · simp [putEntry, findEntry, hk, ih]

/-- `d.get(key)`. -/
def get? (d : OrderedDict κ ν) (key : κ) : Option ν := findEntry key d.entries

/-- `key in d`. -/
def contains (d : OrderedDict κ ν) (key : κ) : Bool := (d.get? key).isSome

/-- `d[key] = value`. -/
def set (d : OrderedDict κ ν) (key : κ) (value : ν) : OrderedDict κ ν where
  entries := putEntry key value d.entries
  nodup := by
    rw [keys_putEntry]
    split
    · exact d.nodup
    · rename_i h
      exact List.nodup_append.mpr ⟨d.nodup, by simp, by
        rintro a ha b hb rfl
        exact h (List.mem_singleton.mp hb ▸ ha)⟩

/-- `d.pop(key, None)`. -/
def erase (d : OrderedDict κ ν) (key : κ) : OrderedDict κ ν := d.filterKeys (· ≠ key)

@[simp] theorem get?_empty (key : κ) : (empty : OrderedDict κ ν).get? key = none := rfl

@[simp] theorem get?_set_self (d : OrderedDict κ ν) (key : κ) (value : ν) :
    (d.set key value).get? key = some value :=
  findEntry_putEntry_self key value d.entries

theorem get?_set_ne (d : OrderedDict κ ν) {key other : κ} (h : other ≠ key)
    (value : ν) : (d.set key value).get? other = d.get? other :=
  findEntry_putEntry_ne h value d.entries

theorem get?_set (d : OrderedDict κ ν) (key other : κ) (value : ν) :
    (d.set key value).get? other = if other = key then some value else d.get? other := by
  split
  · rename_i h
    rw [h, get?_set_self]
  · rename_i h
    exact get?_set_ne d h value

theorem keys_set (d : OrderedDict κ ν) (key : κ) (value : ν) :
    (d.set key value).keys = if key ∈ d.keys then d.keys else d.keys ++ [key] :=
  keys_putEntry key value d.entries

theorem mem_keys_set (d : OrderedDict κ ν) (key other : κ) (value : ν) :
    other ∈ (d.set key value).keys ↔ other = key ∨ other ∈ d.keys := by
  rw [keys_set]
  split
  · rename_i h
    constructor
    · exact Or.inr
    · rintro (rfl | hmem)
      · exact h
      · exact hmem
  · simp [or_comm]

theorem findEntry_map (key : κ) (f : ν → ν) (entries : List (κ × ν)) :
    findEntry key (entries.map (fun entry => (entry.1, f entry.2))) =
      (findEntry key entries).map f := by
  induction entries with
  | nil => rfl
  | cons entry rest ih =>
      obtain ⟨k, v⟩ := entry
      by_cases hk : k = key
      · simp [findEntry, hk]
      · simp [findEntry, hk, ih]

theorem findEntry_filter (key : κ) (keep : κ → Bool) (entries : List (κ × ν)) :
    findEntry key (entries.filter (fun entry => keep entry.1)) =
      if keep key then findEntry key entries else none := by
  induction entries with
  | nil => simp [findEntry]
  | cons entry rest ih =>
      obtain ⟨k, v⟩ := entry
      by_cases hk : k = key
      · subst hk
        cases hkeep : keep k with
        | false => simpa [hkeep] using ih
        | true => simp [findEntry, hkeep]
      · cases hkeep : keep k with
        | false => simpa [findEntry, hk, hkeep] using ih
        | true => simpa [findEntry, hk, hkeep] using ih

theorem findEntry_eq_none_iff {key : κ} {entries : List (κ × ν)} :
    findEntry key entries = none ↔ key ∉ entries.map Prod.fst := by
  induction entries with
  | nil => simp [findEntry]
  | cons entry rest ih =>
      obtain ⟨k, v⟩ := entry
      by_cases hk : k = key
      · simp [findEntry, hk]
      · have hne : key ≠ k := fun h => hk h.symm
        simp [findEntry, hk, hne, ih]

@[simp] theorem get?_mapValues (d : OrderedDict κ ν) (f : ν → ν) (key : κ) :
    (d.mapValues f).get? key = (d.get? key).map f :=
  findEntry_map key f d.entries

theorem mapValues_set (d : OrderedDict κ ν) (f : ν → ν) (key : κ) (value : ν) :
    (d.set key value).mapValues f = (d.mapValues f).set key (f value) := by
  have hput : ∀ entries : List (κ × ν),
      (putEntry key value entries).map (fun entry => (entry.1, f entry.2)) =
        putEntry key (f value) (entries.map (fun entry => (entry.1, f entry.2))) := by
    intro entries
    induction entries with
    | nil => rfl
    | cons entry rest ih =>
        obtain ⟨k, v⟩ := entry
        by_cases hk : k = key
        · simp [putEntry, hk]
        · simp [putEntry, hk, ih]
  simp only [mapValues, set, hput]

theorem get?_filterKeys (d : OrderedDict κ ν) (keep : κ → Bool) (key : κ) :
    (d.filterKeys keep).get? key = if keep key then d.get? key else none :=
  findEntry_filter key keep d.entries

theorem get?_erase (d : OrderedDict κ ν) (key other : κ) :
    (d.erase key).get? other = if other = key then none else d.get? other := by
  rw [erase, get?_filterKeys]
  by_cases h : other = key <;> simp [h]

theorem get?_eq_none_iff {d : OrderedDict κ ν} {key : κ} : d.get? key = none ↔ key ∉ d.keys :=
  findEntry_eq_none_iff

theorem mem_keys_iff {d : OrderedDict κ ν} {key : κ} :
    key ∈ d.keys ↔ ∃ value, d.get? key = some value := by
  rw [← Option.ne_none_iff_exists', ne_eq, get?_eq_none_iff, not_not]

theorem findEntry_eq_some_iff {key : κ} {value : ν} {entries : List (κ × ν)}
    (hnodup : (entries.map Prod.fst).Nodup) :
    findEntry key entries = some value ↔ (key, value) ∈ entries := by
  induction entries with
  | nil => simp [findEntry]
  | cons entry rest ih =>
      obtain ⟨k, v⟩ := entry
      rw [List.map_cons, List.nodup_cons] at hnodup
      rw [findEntry, List.mem_cons]
      rcases eq_or_ne k key with rfl | hne
      · have habsent : (k, value) ∉ rest := fun hmem =>
          hnodup.1 (List.mem_map.mpr ⟨_, hmem, rfl⟩)
        simp [habsent, eq_comm]
      · simp [hne, hne.symm, ih hnodup.2]

theorem mem_entries_iff {d : OrderedDict κ ν} {key : κ} {value : ν} :
    (key, value) ∈ d.entries ↔ d.get? key = some value :=
  (findEntry_eq_some_iff d.nodup).symm

/-- An assignment puts the new value in the place of the old one, which counted
nothing if there was none. -/
theorem sum_values_set {M : Type*} [AddCommMonoid M] (d : OrderedDict κ ν) (f : ν → M) (key : κ)
    (value : ν) :
    ((d.set key value).values.map f).sum + ((d.get? key).map f).getD 0 =
      (d.values.map f).sum + f value := by
  have hput : ∀ entries : List (κ × ν),
      (((putEntry key value entries).map Prod.snd).map f).sum +
          ((findEntry key entries).map f).getD 0 =
        ((entries.map Prod.snd).map f).sum + f value := by
    intro entries
    induction entries with
    | nil => simp [putEntry, findEntry]
    | cons entry rest ih =>
        obtain ⟨k, v⟩ := entry
        by_cases hk : k = key
        · simp only [putEntry, findEntry, if_pos hk, List.map_cons, List.sum_cons,
            Option.map_some, Option.getD_some]
          abel
        · simp only [putEntry, findEntry, if_neg hk, List.map_cons, List.sum_cons]
          rw [add_assoc, ih, add_assoc]
  exact hput d.entries

end OrderedDict

/-- `Counter`: how often each key was counted. -/
abbrev Counter (κ : Type) := OrderedDict κ ℕ

namespace Counter

variable {κ : Type}

/-- `sum(counter.values())`. -/
def total (c : Counter κ) : ℕ := c.values.sum

variable [DecidableEq κ]

/-- `counter[key]`, zero for a key never counted. -/
def count (c : Counter κ) (key : κ) : ℕ := (c.get? key).getD 0

/-- `counter[key] += 1`. -/
def incr (c : Counter κ) (key : κ) : Counter κ := c.set key (count c key + 1)

theorem count_incr (c : Counter κ) (key other : κ) :
    count (incr c key) other = count c other + if other = key then 1 else 0 := by
  unfold count incr
  rw [OrderedDict.get?_set]
  split
  · rename_i h
    simp [count, h]
  · simp

@[simp] theorem count_incr_self (c : Counter κ) (key : κ) :
    count (incr c key) key = count c key + 1 := by
  simp [count_incr]

theorem count_incr_ne (c : Counter κ) {key other : κ} (h : other ≠ key) :
    count (incr c key) other = count c other := by
  simp [count_incr, h]

/-- `for key in keys: counter[key] += 1`. -/
def tally (c : Counter κ) (keys : List κ) : Counter κ := keys.foldl incr c

@[simp] theorem tally_nil (c : Counter κ) : tally c [] = c := rfl

@[simp] theorem tally_cons (c : Counter κ) (key : κ) (keys : List κ) :
    tally c (key :: keys) = tally (incr c key) keys := rfl

theorem tally_append (c : Counter κ) (keys keys' : List κ) :
    tally c (keys ++ keys') = tally (tally c keys) keys' := List.foldl_append

theorem get?_tally (c : Counter κ) (keys : List κ) (key : κ) :
    (tally c keys).get? key =
      if key ∈ keys then some (count c key + keys.count key) else c.get? key := by
  induction keys generalizing c with
  | nil => simp
  | cons first rest ih =>
      rw [tally_cons, ih]
      rcases eq_or_ne first key with rfl | hne
      · by_cases hmem : first ∈ rest
        · simp only [hmem, if_true, List.mem_cons_self, count_incr_self, List.count_cons_self]
          congr 1
          omega
        · simp [hmem, incr, List.count_eq_zero_of_not_mem hmem]
      · simp [incr, OrderedDict.get?_set_ne _ hne.symm, count, List.count_cons_of_ne hne,
          hne.symm]

/-- A key that was counted stays counted, at least as often. -/
theorem le_of_get?_tally {c : Counter κ} {key : κ} {n : ℕ} (h : c.get? key = some n)
    (keys : List κ) : ∃ n', (tally c keys).get? key = some n' ∧ n ≤ n' := by
  rw [get?_tally, count, h, Option.getD_some]
  split
  · exact ⟨_, rfl, Nat.le_add_right _ _⟩
  · exact ⟨_, rfl, le_rfl⟩

/-- What a tally says of a key depends on what was said of it before and on how
often it is counted, not on the order or on the other keys. -/
theorem get?_tally_congr {c c' : Counter κ} {keys keys' : List κ} {key : κ}
    (hget : c.get? key = c'.get? key) (hcount : keys.count key = keys'.count key) :
    (tally c keys).get? key = (tally c' keys').get? key := by
  have hmem : key ∈ keys ↔ key ∈ keys' := by
    rw [← List.count_pos_iff, ← List.count_pos_iff, hcount]
  simp only [get?_tally, hmem, hcount, hget, count]

@[simp] theorem total_incr (c : Counter κ) (key : κ) :
    total (incr c key) = total c + 1 := by
  have hsum := OrderedDict.sum_values_set c id key (count c key + 1)
  simp only [List.map_id, Option.map_id, id_eq] at hsum
  change total (incr c key) + count c key = total c + (count c key + 1) at hsum
  omega

theorem total_tally (c : Counter κ) (keys : List κ) :
    total (tally c keys) = total c + keys.length := by
  induction keys generalizing c with
  | nil => rfl
  | cons key rest ih =>
      rw [tally_cons, ih, total_incr, List.length_cons]
      omega

/-- Counting one of several distinct keys adds one to their joint count. -/
theorem sum_count_incr (c : Counter κ) {key : κ} {keys : List κ} (hmem : key ∈ keys)
    (hnodup : keys.Nodup) :
    (keys.map (count (incr c key))).sum = (keys.map (count c)).sum + 1 := by
  induction keys with
  | nil => simp at hmem
  | cons k rest ih =>
      obtain ⟨hk, hrest⟩ := List.nodup_cons.mp hnodup
      by_cases heq : key = k
      · subst heq
        have hsame : rest.map (count (incr c key)) = rest.map (count c) := by
          apply List.map_congr_left
          intro other hother
          exact count_incr_ne c (fun h => hk (h ▸ hother))
        simp only [List.map_cons, List.sum_cons, count_incr_self, hsame]
        omega
      · have hin : key ∈ rest := by
          rcases List.mem_cons.mp hmem with h | h
          · exact absurd h heq
          · exact h
        simp only [List.map_cons, List.sum_cons, count_incr_ne c (Ne.symm heq), ih hin hrest]
        omega

/-- Counting a key outside a list leaves the list's joint count alone. -/
theorem sum_count_incr_of_notMem (c : Counter κ) {key : κ} {keys : List κ}
    (h : key ∉ keys) :
    (keys.map (count (incr c key))).sum = (keys.map (count c)).sum := by
  congr 1
  apply List.map_congr_left
  intro other hother
  exact count_incr_ne c (fun heq => h (heq ▸ hother))

end Counter
