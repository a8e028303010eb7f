import FleetHealth.Proofs.Index
import Mathlib.Data.List.Induction
import Mathlib.Data.List.Nodup

/-!
# Indexes by what they hold

An index is told by its lookups. So it does not matter in which order two keys are altered, or in which
order a list of entries is put into an index, as long as no key stands for two values.
-/
namespace FleetHealth.Index

variable {κ α β : Type} [Ord κ] [Std.LawfulEqOrd κ]

theorem keys_distinct (i : Index κ α) : i.entries.Pairwise fun a b => a.1 ≠ b.1 :=
  i.ascending.imp fun h he => by
    rw [he, Std.compare_self] at h
    cases h

theorem get?_filterMap (i : Index κ α) (f : κ → α → Option β) (key : κ) :
    (i.filterMap f).get? key = (i.get? key).bind (f key) := by
  refine Option.ext fun v => ?_
  rw [get?_eq_some_iff, filterMap, List.mem_filterMap, Option.bind_eq_some_iff]
  simp only [get?_eq_some_iff, Option.map_eq_some_iff, Prod.mk.injEq]
  constructor
  · rintro ⟨⟨k, a⟩, hm, v, hf, rfl, rfl⟩
    exact ⟨a, hm, hf⟩
  · rintro ⟨a, hm, hf⟩
    exact ⟨(key, a), hm, v, hf, rfl, rfl⟩

variable [Std.TransOrd κ]

theorem ext_get? {i j : Index κ α} (h : ∀ key, i.get? key = j.get? key) : i = j := by
  have hmem (e : κ × α) : e ∈ i.entries ↔ e ∈ j.entries := by
    rw [← i.get?_eq_some_iff, h, j.get?_eq_some_iff]
  have hnodup (i : Index κ α) : i.entries.Nodup :=
    List.Nodup.of_map Prod.fst (List.pairwise_map.2 i.keys_distinct)
  have hperm : i.entries.Perm j.entries :=
    (List.perm_ext_iff_of_nodup (hnodup i) (hnodup j)).2 hmem
  have hentries : i.entries = j.entries := by
    refine hperm.eq_of_pairwise (fun a b _ _ hab hba => ?_) i.ascending j.ascending
    rw [Std.OrientedOrd.eq_swap, hba] at hab
    cases hab
  cases i
  cases j
  cases hentries
  rfl

variable [DecidableEq κ]

theorem alter_comm {key key' : κ} (hne : key ≠ key') (i : Index κ α) (f g : Option α → α) :
    (i.alter key f).alter key' g = (i.alter key' g).alter key f := by
  refine ext_get? fun k => ?_
  simp only [get?_alter, if_neg hne, if_neg hne.symm]
  by_cases hk : key = k
  · subst hk
    simp [hne.symm]
  · simp [hk]

/-- A loop that alters one entry for each item leaves under a key what the items of the key make there, in
their order. -/
theorem get?_foldl_alter {σ : Type} (key : σ → κ) (f : σ → Option α → α) (l : List σ) (k : κ) :
    (l.foldl (fun i x => i.alter (key x) (f x)) empty).get? k =
      (l.filter fun x => key x = k).foldl (fun v x => some (f x v)) none := by
  induction l using List.reverseRecOn with
  | nil => rfl
  | append_singleton l x ih =>
    rw [List.foldl_append, List.foldl_cons, List.foldl_nil, get?_alter, List.filter_append,
      List.filter_singleton]
    by_cases h : key x = k
    · subst h
      simp [ih]
    · simp [h, ih]

/-- A list of entries that agree where they share a key makes an index of just these. -/
theorem get?_ofList {l : List (κ × α)} (h : ∀ e ∈ l, ∀ e' ∈ l, e.1 = e'.1 → e.2 = e'.2) (key : κ)
    (v : α) : (ofList l).get? key = some v ↔ (key, v) ∈ l := by
  induction l using List.reverseRecOn with
  | nil => simp [ofList]
  | append_singleton l e ih =>
    have hlast : ofList (l ++ [e]) = (ofList l).insert e.1 e.2 := List.foldl_append
    have hl := ih fun a ha b hb => h a (List.mem_append_left _ ha) b (List.mem_append_left _ hb)
    rw [hlast, insert, get?_alter, List.mem_append, List.mem_singleton]
    by_cases hk : e.1 = key
    · subst hk
      rw [if_pos rfl, Option.some.injEq, Prod.ext_iff]
      refine ⟨fun hv => .inr ⟨rfl, hv.symm⟩, fun hv => ?_⟩
      rcases hv with hv | hv
      · exact h e (by simp) (e.1, v) (List.mem_append_left _ hv) rfl
      · exact hv.2.symm
    · have hne : (key, v) ≠ e := fun he => hk (congrArg Prod.fst he).symm
      simp [hk, hne, hl]

/-- However its entries are walked, an index is made from them again. -/
theorem ofList_perm {l : List (κ × α)} {i : Index κ α} (h : l.Perm i.entries) : ofList l = i := by
  refine ext_get? fun key => Option.ext fun v => ?_
  rw [get?_ofList, i.get?_eq_some_iff, h.mem_iff]
  intro e he e' he' hk
  have hv := (i.get?_eq_some_iff e.1 e.2).2 (h.subset he)
  rw [hk, (i.get?_eq_some_iff e'.1 e'.2).2 (h.subset he')] at hv
  exact (Option.some.inj hv).symm

/-- A walk that adds what it finds under each key makes the index of what there is to find. -/
theorem foldl_found_perm {l : List (κ × α)} {i : Index κ α} (h : l.Perm i.entries)
    (f : κ → α → Option β) {add : Index κ β → κ × α → Index κ β}
    (hadd : ∀ found e, add found e = ((f e.1 e.2).map (found.insert e.1)).getD found) :
    l.foldl add empty = i.filterMap f := by
  have hfold (found : Index κ β) : l.foldl add found =
      (l.filterMap fun e => (f e.1 e.2).map fun v => (e.1, v)).foldl
        (fun i e => i.insert e.1 e.2) found := by
    clear h
    induction l generalizing found with
    | nil => rfl
    | cons e rest ih =>
      rw [List.foldl_cons, List.filterMap_cons, ih, hadd]
      rcases f e.1 e.2 with _ | v <;> rfl
  rw [hfold]
  exact ofList_perm (h.filterMap _)

omit [DecidableEq κ] in
theorem map_filterMap {γ : Type} (i : Index κ α) (f : κ → α → Option β) (g : β → γ) :
    (i.filterMap f).map g = i.filterMap fun key v => (f key v).map g := by
  refine ext_get? fun key => ?_
  rw [map, get?_filterMap, get?_filterMap, get?_filterMap, Option.bind_assoc]
  congr 1
  funext v
  cases f key v <;> rfl

end FleetHealth.Index
