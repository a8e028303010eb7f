import FleetHealth.Index
import Mathlib.Data.List.Basic

/-!
# Lookups in ordered indexes

An altered index holds the new value under the altered key and what it held before under every other
key.
-/
namespace FleetHealth.Index

variable {κ α : Type} [Ord κ]

/-- The value under a key among some entries. -/
def lookup (key : κ) (l : List (κ × α)) : Option α :=
  (l.find? fun e => compare e.1 key == .eq).map (·.2)

@[simp]
theorem lookup_nil (key : κ) : lookup key ([] : List (κ × α)) = none := rfl

theorem lookup_cons (key : κ) (e : κ × α) (l : List (κ × α)) :
    lookup key (e :: l) = if compare e.1 key = .eq then some e.2 else lookup key l := by
  unfold lookup
  by_cases h : compare e.1 key = .eq <;> simp [h]

theorem lookup_eq_none {key : κ} {l : List (κ × α)} (h : ∀ e ∈ l, compare e.1 key ≠ .eq) :
    lookup key l = none := by
  unfold lookup
  rw [Option.map_eq_none_iff, List.find?_eq_none]
  intro e he
  simpa using h e he

@[simp]
theorem get?_empty (key : κ) : (empty : Index κ α).get? key = none := rfl

theorem keys_ascending (i : Index κ α) : i.keys.Pairwise fun a b => compare a b = .lt :=
  List.pairwise_map.2 i.ascending

theorem mem_keys_iff [Std.LawfulEqOrd κ] (i : Index κ α) (key : κ) :
    key ∈ i.keys ↔ (i.get? key).isSome := by
  unfold keys get?
  simp only [List.mem_map, Option.isSome_map, List.find?_isSome, beq_iff_eq,
    Std.LawfulEqOrd.compare_eq_iff_eq]

theorem isEmpty_iff [Std.LawfulEqOrd κ] (i : Index κ α) :
    i.isEmpty = true ↔ ∀ key, i.get? key = none := by
  rw [isEmpty, List.isEmpty_iff]
  constructor
  · intro h key
    rw [get?, h, List.find?_nil, Option.map_none]
  · intro h
    refine List.eq_nil_iff_forall_not_mem.2 fun e he => ?_
    have hsome := (i.mem_keys_iff e.1).1 (List.mem_map_of_mem he)
    rw [h] at hsome
    cases hsome

theorem get?_eq_some_iff [Std.LawfulEqOrd κ] (i : Index κ α) (key : κ) (v : α) :
    i.get? key = some v ↔ (key, v) ∈ i.entries := by
  have hlookup {l : List (κ × α)} (h : l.Pairwise fun a b => compare a.1 b.1 = .lt) :
      lookup key l = some v ↔ (key, v) ∈ l := by
    induction l with
    | nil => simp
    | cons e rest ih =>
      obtain ⟨he, hr⟩ := List.pairwise_cons.1 h
      rw [lookup_cons, List.mem_cons]
      split
      next hk =>
        obtain rfl := Std.LawfulEqOrd.eq_of_compare hk
        -- no later entry has the key of the first
        have hrest : (e.1, v) ∉ rest := fun hm => by
          have hlt := he _ hm
          rw [Std.compare_self] at hlt
          cases hlt
        simp [hrest, Prod.ext_iff, eq_comm]
      next hk =>
        rw [ih hr]
        refine ⟨.inr, fun hm => hm.resolve_left ?_⟩
        rintro rfl
        exact hk Std.compare_self
  exact hlookup i.ascending

/-- Altering one key twice is altering it once by both. -/
theorem alter_alter [Std.TransOrd κ] (i : Index κ α) (key : κ) (f g : Option α → α) :
    (i.alter key f).alter key g = i.alter key fun v => g (some (f v)) := by
  have hplace (l : List (κ × α)) :
      place key g (place key f l) = place key (fun v => g (some (f v))) l := by
    induction l with
    | nil => simp [place, Std.compare_self]
    | cons e rest ih =>
      obtain ⟨k, v⟩ := e
      rcases hc : compare key k with _ | _ | _ <;>
        simp [place, hc, ih, Std.compare_self]
  unfold alter
  congr 1
  exact hplace i.entries

variable [Std.TransOrd κ] [Std.LawfulEqOrd κ] [DecidableEq κ]

theorem lookup_place {key : κ} (f : Option α → α) (key' : κ) {l : List (κ × α)}
    (h : l.Pairwise fun a b => compare a.1 b.1 = .lt) :
    lookup key' (place key f l) =
      if key = key' then some (f (lookup key l)) else lookup key' l := by
  induction l with
  | nil => simp [place, lookup_cons]
  | cons e rest ih =>
    obtain ⟨k, v⟩ := e
    obtain ⟨hk, hr⟩ := List.pairwise_cons.1 h
    unfold place
    split
    next hlt =>
      -- the key stands below all entries, so none of them is its own
      have hnone : lookup key ((k, v) :: rest) = none := by
        refine lookup_eq_none fun e he hc => ?_
        have hlt' : compare key e.1 = .lt := by
          rcases List.mem_cons.1 he with rfl | he
          · exact hlt
          · exact Std.TransCmp.lt_trans hlt (hk e he)
        rw [Std.OrientedOrd.eq_swap, hlt'] at hc
        cases hc
      rw [hnone, lookup_cons]
      simp only [Std.LawfulEqOrd.compare_eq_iff_eq]
    next heq =>
      obtain rfl := Std.LawfulEqOrd.eq_of_compare heq
      simp only [lookup_cons, Std.LawfulEqOrd.compare_eq_iff_eq, if_true]
      split <;> rfl
    next hgt =>
      have hne : k ≠ key := by
        rintro rfl
        rw [Std.compare_self] at hgt
        cases hgt
      rw [lookup_cons, ih hr]
      simp only [lookup_cons, Std.LawfulEqOrd.compare_eq_iff_eq, if_neg hne]
      by_cases hkey : key = key'
      · subst hkey
        simp [hne]
      · simp [hkey]

theorem get?_alter (i : Index κ α) (key key' : κ) (f : Option α → α) :
    (i.alter key f).get? key' = if key = key' then some (f (i.get? key)) else i.get? key' :=
  lookup_place f key' i.ascending

@[simp]
theorem mem_keys_alter (i : Index κ α) (key key' : κ) (f : Option α → α) :
    key' ∈ (i.alter key f).keys ↔ key = key' ∨ key' ∈ i.keys := by
  rw [mem_keys_iff, mem_keys_iff, get?_alter]
  by_cases h : key = key' <;> simp [h]

end FleetHealth.Index
