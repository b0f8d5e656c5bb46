import Mathlib.Tactic

/-!
Grouping by key, two ways. `collect` is what a group-by means: something for
each key and the values found under it, in no order. `runs` is how a reader
with one group in hand computes it: it closes a group when the key changes. The
two agree on a stream whose equal keys stand together, and `collect` may be
computed from the parts of any partition by key.
-/

namespace GroupBy

variable {κ ν β ι : Type*} [DecidableEq κ]

/-- The values under a key, in the order of the stream. -/
def valuesOf (key : κ) (items : List (κ × ν)) : List ν :=
  (items.filter (fun item => item.1 = key)).map Prod.snd

theorem valuesOf_cons_self (key : κ) (value : ν) (rest : List (κ × ν)) :
    valuesOf key ((key, value) :: rest) = value :: valuesOf key rest := by
  simp [valuesOf]

theorem valuesOf_cons_ne {key other : κ} (h : other ≠ key) (value : ν) (rest : List (κ × ν)) :
    valuesOf key ((other, value) :: rest) = valuesOf key rest := by
  simp [valuesOf, h]

theorem valuesOf_eq_nil {key : κ} {items : List (κ × ν)} (h : key ∉ items.map Prod.fst) :
    valuesOf key items = [] := by
  rw [valuesOf, List.map_eq_nil_iff, List.filter_eq_nil_iff]
  intro item hitem heq
  exact h (List.mem_map.mpr ⟨item, hitem, of_decide_eq_true heq⟩)

theorem valuesOf_perm {items items' : List (κ × ν)} (h : items.Perm items') (key : κ) :
    (valuesOf key items).Perm (valuesOf key items') := (h.filter _).map _

theorem valuesOf_filter (keep : κ → Bool) {key : κ} (hkey : keep key = true)
    (items : List (κ × ν)) :
    valuesOf key (items.filter (fun item => keep item.1)) = valuesOf key items := by
  unfold valuesOf
  rw [List.filter_filter]
  congr 1
  apply List.filter_congr
  intro item _
  by_cases heq : item.1 = key <;> simp [heq, hkey]

section Contiguous

/-- Equal keys stand together. -/
def Contiguous (keys : List κ) : Prop :=
  ∀ before between after key, keys = before ++ key :: (between ++ key :: after) →
    ∀ other ∈ between, other = key

omit [DecidableEq κ] in
theorem Contiguous.tail {key : κ} {rest : List κ} (h : Contiguous (key :: rest)) :
    Contiguous rest := by
  intro before between after key' heq
  exact h (key :: before) between after key' (by rw [heq, List.cons_append])

omit [DecidableEq κ] in
/-- A key that comes back is the next one. -/
theorem Contiguous.next {key next : κ} {rest : List κ} (h : Contiguous (key :: next :: rest))
    (hmem : key ∈ next :: rest) : next = key := by
  rcases List.mem_cons.mp hmem with heq | hrest
  · exact heq.symm
  · obtain ⟨between, after, rfl⟩ := List.append_of_mem hrest
    exact h [] (next :: between) after key rfl next List.mem_cons_self

omit [DecidableEq κ] in
theorem exists_split_of_cons_sublist {key : κ} {keys rest : List κ}
    (h : (key :: rest).Sublist keys) :
    ∃ before after, keys = before ++ key :: after ∧ rest.Sublist after := by
  obtain ⟨first, second, rfl, hmem, hrest⟩ := List.cons_sublist_iff.mp h
  obtain ⟨before, after, rfl⟩ := List.append_of_mem hmem
  exact ⟨before, after ++ second, by simp, hrest.trans (List.sublist_append_right _ _)⟩

omit [DecidableEq κ] in
/-- Leaving some entries out does not part the others. -/
theorem Contiguous.sublist {keys keys' : List κ} (h : Contiguous keys)
    (hsub : keys'.Sublist keys) : Contiguous keys' := by
  rintro before between after key rfl other hother
  obtain ⟨first, second, rfl, _, hsecond⟩ := List.append_sublist_iff.mp hsub
  obtain ⟨skipped, later, rfl, hlater⟩ := exists_split_of_cons_sublist hsecond
  obtain ⟨middle, last, rfl, hmiddle, hlast⟩ := List.append_sublist_iff.mp hlater
  obtain ⟨gap, rest, rfl, _⟩ := exists_split_of_cons_sublist hlast
  exact h (first ++ skipped) (middle ++ gap) rest key (by simp) other
    (List.mem_append_left gap (hmiddle.subset hother))

omit [DecidableEq κ] in
/-- Sorting brings equal keys together when nothing with another key lies
between two entries of one key. -/
theorem Contiguous.of_convex {α : Type*} {le : α → α → Prop} {key : α → κ} {items : List α}
    (h : items.Pairwise le)
    (hconvex : ∀ x ∈ items, ∀ y ∈ items, ∀ z ∈ items, le x y → le y z → key x = key z →
      key y = key x) : Contiguous (items.map key) := by
  intro before between after k heq other hother
  obtain ⟨first, later, rfl, _, hlater⟩ := List.map_eq_append_iff.mp heq
  obtain ⟨x, rest, rfl, hx, hrest⟩ := List.map_eq_cons_iff.mp hlater
  obtain ⟨middle, last, rfl, hmiddle, hlast⟩ := List.map_eq_append_iff.mp hrest
  obtain ⟨z, tail, rfl, hz, _⟩ := List.map_eq_cons_iff.mp hlast
  rw [← hmiddle] at hother
  obtain ⟨y, hy, rfl⟩ := List.mem_map.mp hother
  obtain ⟨hafter, hbetween⟩ := List.pairwise_cons.mp (List.pairwise_append.mp h).2.1
  have hyz := (List.pairwise_append.mp hbetween).2.2 y hy z List.mem_cons_self
  rw [← hx]
  exact hconvex x (by simp) y (by simp [hy]) z (by simp) (hafter y (List.mem_append_left _ hy)) hyz
    (hx.trans hz.symm)

end Contiguous

section Runs

/-- The group in hand before those that follow: it takes in the next one when
the key is the same. -/
def extend (key : κ) (values : List ν) : List (κ × List ν) → List (κ × List ν)
  | [] => [(key, values)]
  | (next, more) :: rest =>
      if next = key then (key, values ++ more) :: rest else (key, values) :: (next, more) :: rest

/-- Consecutive entries of one key, as one group each. -/
def runs : List (κ × ν) → List (κ × List ν)
  | [] => []
  | (key, value) :: rest => extend key [value] (runs rest)

theorem extend_snoc (key : κ) (values : List ν) (value : ν) (groups : List (κ × List ν)) :
    extend key (values ++ [value]) groups = extend key values (extend key [value] groups) := by
  cases groups with
  | nil => simp [extend]
  | cons group rest =>
      obtain ⟨next, more⟩ := group
      by_cases h : next = key <;> simp [extend, h]

theorem extend_of_ne {key next : κ} (h : next ≠ key) (values more : List ν)
    (groups : List (κ × List ν)) :
    extend key values (extend next more groups) = (key, values) :: extend next more groups := by
  cases groups with
  | nil => simp [extend, h]
  | cons group rest =>
      obtain ⟨other, others⟩ := group
      by_cases hother : other = next <;> simp [extend, hother, h]

/-- The first group is the one of the first entry. -/
theorem runs_head (key : κ) (value : ν) (rest : List (κ × ν)) :
    ∃ values groups, runs ((key, value) :: rest) = (key, values) :: groups := by
  unfold runs
  cases runs rest with
  | nil => exact ⟨_, _, rfl⟩
  | cons group groups =>
      obtain ⟨next, more⟩ := group
      by_cases h : next = key <;> simp [extend, h]

theorem mem_keys_runs (items : List (κ × ν)) (key : κ) :
    key ∈ (runs items).map Prod.fst ↔ key ∈ items.map Prod.fst := by
  induction items with
  | nil => rfl
  | cons item rest ih =>
      obtain ⟨first, value⟩ := item
      rw [List.map_cons, List.mem_cons, ← ih, runs]
      cases runs rest with
      | nil => simp [extend]
      | cons group groups =>
          obtain ⟨next, more⟩ := group
          by_cases h : next = first <;> simp [extend, h]

/-- Where equal keys stand together every key has one group, of all its values. -/
theorem runs_of_contiguous {items : List (κ × ν)} (h : Contiguous (items.map Prod.fst)) :
    ((runs items).map Prod.fst).Nodup ∧ ∀ group ∈ runs items, group.2 = valuesOf group.1 items := by
  induction items with
  | nil => simp [runs]
  | cons item rest ih =>
      obtain ⟨key, value⟩ := item
      obtain ⟨hnodup, hvalues⟩ := ih h.tail
      rcases rest with _ | ⟨⟨next, value'⟩, rest⟩
      · simp [runs, extend, valuesOf]
      · obtain ⟨more, groups, hruns⟩ := runs_head next value' rest
        rw [runs]
        rw [hruns] at hnodup hvalues ⊢
        obtain ⟨hnext, hgroups⟩ := List.forall_mem_cons.mp hvalues
        obtain ⟨hfresh, _⟩ := List.nodup_cons.mp hnodup
        by_cases heq : next = key
        · subst heq
          simp only [extend, if_true, List.singleton_append]
          refine ⟨hnodup, List.forall_mem_cons.mpr ⟨?_, ?_⟩⟩
          · rw [valuesOf_cons_self]
            exact congrArg _ hnext
          · intro group hgroup
            have hne : next ≠ group.1 := fun heq =>
              hfresh (List.mem_map.mpr ⟨group, hgroup, heq.symm⟩)
            rw [valuesOf_cons_ne hne]
            exact hgroups group hgroup
        · have habsent : key ∉ ((next, value') :: rest).map Prod.fst := by
            intro hmem
            exact heq (Contiguous.next h hmem)
          have hnew : key ∉ ((next, more) :: groups).map Prod.fst := by
            rw [← hruns, mem_keys_runs]
            exact habsent
          simp only [extend, if_neg heq]
          refine ⟨List.nodup_cons.mpr ⟨hnew, hnodup⟩, List.forall_mem_cons.mpr ⟨?_, ?_⟩⟩
          · rw [valuesOf_cons_self, valuesOf_eq_nil habsent]
          · intro group hgroup
            have hne : key ≠ group.1 := fun heq =>
              hnew (List.mem_map.mpr ⟨group, hgroup, heq.symm⟩)
            rw [valuesOf_cons_ne hne]
            exact hvalues group hgroup

theorem extend_extend (key : κ) (values more : List ν) (groups : List (κ × List ν)) :
    extend key values (extend key more groups) = extend key (values ++ more) groups := by
  cases groups with
  | nil => simp [extend]
  | cons group rest =>
      obtain ⟨next, others⟩ := group
      by_cases h : next = key <;> simp [extend, h]

/-- Reading ahead: the group of the first entry goes as far as its key does. -/
theorem runs_cons (key : κ) (value : ν) (rest : List (κ × ν)) :
    runs ((key, value) :: rest) =
      (key, value :: (rest.takeWhile (·.1 = key)).map Prod.snd) ::
        runs (rest.dropWhile (·.1 = key)) := by
  induction rest generalizing value with
  | nil => rfl
  | cons item rest ih =>
      obtain ⟨next, value'⟩ := item
      by_cases h : next = key
      · subst h
        rw [runs, ih]
        simp [extend]
      · rw [runs, runs, extend_of_ne h, ← runs]
        simp [h]

theorem runs_append (key : κ) {values : List ν} (h : values ≠ []) (rest : List (κ × ν)) :
    runs (values.map (key, ·) ++ rest) = extend key values (runs rest) := by
  induction values with
  | nil => exact absurd rfl h
  | cons value values ih =>
      rw [List.map_cons, List.cons_append, runs]
      cases values with
      | nil => rfl
      | cons next values =>
          rw [ih (List.cons_ne_nil _ _), extend_extend]
          rfl

/-- A division into groups that cannot be made coarser: the groups give the
stream back, none is empty and neighbours have different keys. -/
structure Maximal (items : List (κ × ν)) (groups : List (κ × List ν)) : Prop where
  cover : groups.flatMap (fun group => group.2.map (group.1, ·)) = items
  nonempty : ∀ group ∈ groups, group.2 ≠ []
  changes : groups.IsChain (fun group next => group.1 ≠ next.1)

theorem runs_maximal (items : List (κ × ν)) : Maximal items (runs items) := by
  induction items with
  | nil => exact ⟨rfl, by simp [runs], by simp [runs]⟩
  | cons item rest ih =>
      obtain ⟨key, value⟩ := item
      obtain ⟨hcover, hnonempty, hchanges⟩ := ih
      rw [runs]
      cases hruns : runs rest with
      | nil =>
          rw [hruns] at hcover
          exact ⟨by simp [extend, ← hcover], by simp [extend], by simp [extend]⟩
      | cons group groups =>
          obtain ⟨next, more⟩ := group
          rw [hruns] at hcover hnonempty hchanges
          by_cases h : next = key
          · subst h
            simp only [extend, if_true, List.singleton_append]
            refine ⟨by simpa using hcover, ?_, ?_⟩
            · simpa using (List.forall_mem_cons.mp hnonempty).2
            · cases groups with
              | nil => simp
              | cons second groups => simpa using hchanges
          · simp only [extend, if_neg h]
            exact ⟨by simpa using hcover, by simpa using hnonempty,
              List.IsChain.cons_cons (Ne.symm h) hchanges⟩

/-- There is one such division. -/
theorem Maximal.eq_runs {items : List (κ × ν)} {groups : List (κ × List ν)}
    (h : Maximal items groups) : groups = runs items := by
  induction groups generalizing items with
  | nil =>
      rw [← h.cover]
      rfl
  | cons group groups ih =>
      obtain ⟨key, values⟩ := group
      obtain ⟨hcover, hnonempty, hchanges⟩ := h
      obtain ⟨hvalues, hrest⟩ := List.forall_mem_cons.mp hnonempty
      have hgroups := ih ⟨rfl, hrest, hchanges.tail⟩
      rw [← hcover, List.flatMap_cons, runs_append key hvalues, ← hgroups]
      cases groups with
      | nil => rfl
      | cons next groups =>
          obtain ⟨other, more⟩ := next
          have hne : other ≠ key := Ne.symm (List.isChain_cons_cons.mp hchanges).1
          simp [extend, hne]

theorem maximal_iff {items : List (κ × ν)} {groups : List (κ × List ν)} :
    Maximal items groups ↔ groups = runs items := by
  constructor
  · exact Maximal.eq_runs
  · rintro rfl
    exact runs_maximal items

/-- Groups whose neighbours share a key become one in the runs of their entries. -/
theorem runs_flatMap {groups : List (κ × List ν)} (h : ∀ group ∈ groups, group.2 ≠ []) :
    runs (groups.flatMap (fun group => group.2.map (group.1, ·))) =
      (runs groups).map (fun group => (group.1, group.2.flatten)) := by
  induction groups with
  | nil => rfl
  | cons group groups ih =>
      obtain ⟨key, values⟩ := group
      obtain ⟨hvalues, hrest⟩ := List.forall_mem_cons.mp h
      rw [List.flatMap_cons, runs_append key hvalues, ih hrest, runs]
      cases runs groups with
      | nil => simp [extend]
      | cons next rest =>
          obtain ⟨other, more⟩ := next
          by_cases heq : other = key <;> simp [extend, heq]

end Runs

section Collect

omit [DecidableEq κ] in
theorem coe_flatMap (f : κ → List β) (keys : List κ) :
    ((keys.flatMap f : List β) : Multiset β) =
      (keys.map (fun key => (f key : Multiset β))).sum := by
  induction keys with
  | nil => rfl
  | cons key rest ih =>
      rw [List.flatMap_cons, ← Multiset.coe_add, ih, List.map_cons, List.sum_cons]

variable (emit : κ → List ν → Multiset β)

/-- What each key gives with the values found under it, altogether. -/
def collect (items : List (κ × ν)) : Multiset β :=
  ∑ key ∈ (items.map Prod.fst).toFinset, emit key (valuesOf key items)

/-- Closing groups as the key changes collects, where equal keys stand together. -/
theorem sum_runs {items : List (κ × ν)} (h : Contiguous (items.map Prod.fst)) :
    ((runs items).map (fun group => emit group.1 group.2)).sum = collect emit items := by
  obtain ⟨hnodup, hvalues⟩ := runs_of_contiguous h
  have hkeys : (items.map Prod.fst).toFinset = ((runs items).map Prod.fst).toFinset := by
    ext key
    rw [List.mem_toFinset, List.mem_toFinset, mem_keys_runs]
  rw [collect, hkeys, List.sum_toFinset _ hnodup, List.map_map]
  congr 1
  apply List.map_congr_left
  intro group hgroup
  rw [Function.comp_apply, ← hvalues group hgroup]

/-- A stream of one entry over and over. -/
theorem collect_replicate {n : ℕ} (hn : n ≠ 0) (key : κ) (value : ν) :
    collect emit (List.replicate n (key, value)) = emit key (List.replicate n value) := by
  unfold collect valuesOf
  rw [List.map_replicate, List.toFinset_replicate_of_ne_zero hn, Finset.sum_singleton]
  simp

variable {emit} (hperm : ∀ key values values', List.Perm values values' →
  emit key values = emit key values')

include hperm in
theorem collect_perm {items items' : List (κ × ν)} (h : items.Perm items') :
    collect emit items = collect emit items' := by
  unfold collect
  rw [List.toFinset_eq_of_perm _ _ (h.map Prod.fst)]
  apply Finset.sum_congr rfl
  intro key _
  exact hperm key _ _ (valuesOf_perm h key)

include hperm in
/-- The parts of a partition by key collect what the whole collects. -/
theorem sum_collect [Fintype ι] [DecidableEq ι] (assign : κ → ι) {items : List (κ × ν)}
    {parts : ι → List (κ × ν)}
    (h : ∀ j, (parts j).Perm (items.filter (fun item => assign item.1 = j))) :
    ∑ j, collect emit (parts j) = collect emit items := by
  rw [collect, ← Finset.sum_fiberwise _ assign]
  apply Finset.sum_congr rfl
  intro j _
  rw [collect_perm hperm (h j), collect]
  have hkeys : ((items.filter (fun item => assign item.1 = j)).map Prod.fst).toFinset =
      (items.map Prod.fst).toFinset.filter (fun key => assign key = j) := by
    ext key
    simp only [List.mem_toFinset, List.mem_map, List.mem_filter, Finset.mem_filter,
      decide_eq_true_eq]
    constructor
    · rintro ⟨item, ⟨hitem, hj⟩, rfl⟩
      exact ⟨⟨item, hitem, rfl⟩, hj⟩
    · rintro ⟨⟨item, hitem, rfl⟩, hj⟩
      exact ⟨item, ⟨hitem, hj⟩, rfl⟩
  rw [hkeys]
  apply Finset.sum_congr rfl
  intro key hkey
  rw [valuesOf_filter (fun key => assign key = j) (decide_eq_true (Finset.mem_filter.mp hkey).2)]

end Collect

end GroupBy
