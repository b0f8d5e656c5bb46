import TradeWatch.Lib.Buckets

/-!
How much a dictionary holds. Its footprint counts an entry and the size of its value.
A dictionary whose keys all come from a known stock and whose values all fit a bound has
a footprint that the stock and the bound decide, however often it was written to.
-/

namespace OrderedDict

variable {κ ν : Type}

/-- The entries, each with the size of its value. -/
def footprint (d : OrderedDict κ ν) (size : ν → ℕ) : ℕ :=
  (d.values.map (fun value => 1 + size value)).sum

/-- Every key is allowed and every value fits. -/
def Within (d : OrderedDict κ ν) (allowed : κ → Prop) (fits : ν → Prop) : Prop :=
  ∀ entry ∈ d.entries, allowed entry.1 ∧ fits entry.2

section Bound

variable {d : OrderedDict κ ν} {allowed allowed' : κ → Prop} {fits fits' : ν → Prop}

theorem within_empty : (empty : OrderedDict κ ν).Within allowed fits := by
  intro entry hentry
  cases hentry

theorem Within.mono (h : d.Within allowed fits) (hallowed : ∀ key, allowed key → allowed' key)
    (hfits : ∀ value, fits value → fits' value) : d.Within allowed' fits' :=
  fun entry hentry => ⟨hallowed _ (h entry hentry).1, hfits _ (h entry hentry).2⟩

theorem Within.allow (h : d.Within allowed fits) (hallowed : ∀ key, allowed key → allowed' key) :
    d.Within allowed' fits := h.mono hallowed fun _ hfits => hfits

theorem Within.filterKeys (h : d.Within allowed fits) (keep : κ → Bool) :
    (d.filterKeys keep).Within (fun key => allowed key ∧ keep key = true) fits := by
  intro entry hentry
  obtain ⟨hmem, hkeep⟩ := List.mem_filter.mp hentry
  obtain ⟨hallowed, hfits⟩ := h entry hmem
  exact ⟨⟨hallowed, hkeep⟩, hfits⟩

theorem Within.mapValues (h : d.Within allowed fits) {f : ν → ν}
    (hf : ∀ value, fits value → fits (f value)) : (d.mapValues f).Within allowed fits := by
  intro entry hentry
  obtain ⟨entry', hmem, rfl⟩ := List.mem_map.mp hentry
  obtain ⟨hallowed, hfits⟩ := h entry' hmem
  exact ⟨hallowed, hf _ hfits⟩

/-- Keys and values within their bounds bound the footprint. -/
theorem Within.footprint_le [DecidableEq κ] {stock : Finset κ} {bound : ℕ} {size : ν → ℕ}
    (h : d.Within (· ∈ stock) (size · ≤ bound)) : d.footprint size ≤ stock.card * (1 + bound) := by
  have hkeys : d.entries.length ≤ stock.card := by
    have hsub : d.keys.toFinset ⊆ stock := by
      intro key hkey
      obtain ⟨entry, hentry, rfl⟩ := List.mem_map.mp (List.mem_toFinset.mp hkey)
      exact (h entry hentry).1
    have hcard := Finset.card_le_card hsub
    rwa [List.toFinset_card_of_nodup d.keys_nodup, keys, List.length_map] at hcard
  have hvalues : ∀ n ∈ d.values.map (fun value => 1 + size value), n ≤ 1 + bound := by
    intro n hn
    obtain ⟨value, hvalue, rfl⟩ := List.mem_map.mp hn
    obtain ⟨entry, hentry, rfl⟩ := List.mem_map.mp hvalue
    have hfits := (h entry hentry).2
    omega
  have hsum := List.sum_le_card_nsmul _ _ hvalues
  rw [List.length_map, values, List.length_map, smul_eq_mul] at hsum
  exact hsum.trans (Nat.mul_le_mul_right _ hkeys)

/-- A dictionary's own keys are stock enough. -/
theorem footprint_le_keys [DecidableEq κ] {bound : ℕ} {size : ν → ℕ}
    (h : d.Within allowed (size · ≤ bound)) :
    d.footprint size ≤ d.keys.length * (1 + bound) := by
  have hown : d.Within (· ∈ d.keys.toFinset) (size · ≤ bound) := fun entry hentry =>
    ⟨List.mem_toFinset.mpr (List.mem_map_of_mem hentry), (h entry hentry).2⟩
  have hle := hown.footprint_le
  rwa [List.toFinset_card_of_nodup d.keys_nodup] at hle

end Bound

section Assign

variable [DecidableEq κ] {d : OrderedDict κ ν} {allowed : κ → Prop} {fits : ν → Prop}

theorem Within.get? (h : d.Within allowed fits) {key : κ} {value : ν}
    (hget : d.get? key = some value) : allowed key ∧ fits value :=
  h _ (mem_entries_iff.mpr hget)

theorem Within.set (h : d.Within allowed fits) {key : κ} {value : ν} (hkey : allowed key)
    (hvalue : fits value) : (d.set key value).Within allowed fits := by
  rintro ⟨other, held⟩ hentry
  have hget := mem_entries_iff.mp hentry
  rw [get?_set] at hget
  split at hget
  · rename_i hsame
    rw [hsame, ← Option.some.inj hget]
    exact ⟨hkey, hvalue⟩
  · exact h.get? hget

end Assign

end OrderedDict

namespace Counter

variable {κ : Type} [DecidableEq κ] {allowed : κ → Prop} {fits : ℕ → Prop}

theorem within_tally {c : Counter κ} (h : c.Within allowed fits) (hfits : ∀ n, fits n)
    {keys : List κ} (hkeys : ∀ key ∈ keys, allowed key) :
    (tally c keys).Within allowed fits := by
  induction keys generalizing c with
  | nil => exact h
  | cons key rest ih =>
      obtain ⟨hkey, hrest⟩ := List.forall_mem_cons.mp hkeys
      exact ih (h.set hkey (hfits _)) hrest

end Counter

namespace Buckets

open OrderedDict

/-- The second is in the window that ends with the last one. -/
def Recent (last span second : ℤ) : Prop := last - span ≤ second ∧ second ≤ last

/-- A bucket map that was last trimmed in `last` reaches no further back after `now`. -/
theorem within_advance {ν : Type} {fits : ν → Prop} {d : OrderedDict ℤ ν} {last span now : ℤ}
    (h : d.Within (Recent last span) fits) (hspan : 0 ≤ span) (hlast : last ≤ now)
    {new : Option ν} (hnew : ∀ v ∈ new, fits v) {trim : Bool} (htrim : trim = false → now = last) :
    (advance d span now new trim).Within (Recent now span) fits := by
  have hold : d.Within (fun second => last - span ≤ second ∧ second ≤ now) fits :=
    h.allow fun second hsecond => ⟨hsecond.1, hsecond.2.trans hlast⟩
  have hnow : last - span ≤ now ∧ now ≤ now := by omega
  -- trimmed or not, nothing too old stays
  have hkept : ∀ next : OrderedDict ℤ ν,
      next.Within (fun second => last - span ≤ second ∧ second ≤ now) fits →
        (if trim then next.filterKeys (fun k => now - span ≤ k) else next).Within
          (Recent now span) fits := by
    intro next hnext
    cases trim with
    | true =>
        refine (hnext.filterKeys (fun k => now - span ≤ k)).allow ?_
        rintro second ⟨hsecond, hyoung⟩
        exact ⟨of_decide_eq_true hyoung, hsecond.2⟩
    | false =>
        refine hnext.allow ?_
        intro second hsecond
        have hsame := htrim rfl
        exact ⟨by omega, hsecond.2⟩
  cases new with
  | none => exact hkept d hold
  | some v => exact hkept _ (hold.set hnow (hnew v rfl))

end Buckets
