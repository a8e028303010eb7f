import FleetHealth.Correlation.Coefficient
import FleetHealth.Proofs.Instant
import Mathlib.Data.Finset.Card
import Mathlib.Data.List.Induction

/-!
# Alignment of two series

Aligned series pair up, at each instant at which both have a finite value, the last of the values that
each has there. The number of pairs is the number of those instants, whatever order the samples come
in and however often an instant is repeated.
-/
namespace FleetHealth.Correlation

def finiteInstants (samples : List Sample) : Finset Instant :=
  ((Series.finite samples).map (·.time)).toFinset

/-- The instants at which both series have a finite value. -/
def sharedInstants (a b : List Sample) : Finset Instant := finiteInstants a ∩ finiteInstants b

/-- The last finite value at an instant. -/
def lastAt (samples : List Sample) (t : Instant) : Option Float :=
  ((Series.finite samples).reverse.find? fun s => s.time = t).map (·.value)

theorem getElem?_foldl_insert (l : List Sample) (m : Std.TreeMap Instant Float) (t : Instant) :
    (l.foldl (fun m s => m.insert s.time s.value) m)[t]? =
      ((l.reverse.find? fun s => s.time = t).map (·.value)).or m[t]? := by
  induction l generalizing m with
  | nil => rfl
  | cons s rest ih =>
    rw [List.foldl_cons, ih, Std.TreeMap.getElem?_insert, List.reverse_cons, List.find?_append]
    cases rest.reverse.find? fun s => decide (s.time = t) with
    | none => by_cases h : s.time = t <;> simp [h]
    | some later => rfl

theorem getElem?_lastValues (samples : List Sample) (t : Instant) :
    (lastValues samples)[t]? = lastAt samples t := by
  rw [lastValues, getElem?_foldl_insert, lastAt]
  simp

theorem isSome_lastAt {samples : List Sample} {t : Instant} :
    (lastAt samples t).isSome ↔ t ∈ finiteInstants samples := by
  simp [lastAt, finiteInstants]

theorem mem_sharedInstants {a b : List Sample} {t : Instant} :
    t ∈ sharedInstants a b ↔ (lastAt a t).isSome ∧ (lastAt b t).isSome := by
  rw [sharedInstants, Finset.mem_inter, isSome_lastAt, isSome_lastAt]

variable {a b : List Sample} {s : Sample} {f : Found} {times : List Instant}

theorem finite_concat (hs : Series.isFinite s) (samples : List Sample) :
    Series.finite (samples ++ [s]) = Series.finite samples ++ [s] := by
  rw [Series.finite, List.filter_append, List.filter_singleton, hs]
  rfl

/-- A finite sample at the end is the last one of its instant. -/
theorem lastAt_concat (hs : Series.isFinite s) (samples : List Sample) (t : Instant) :
    lastAt (samples ++ [s]) t = if s.time = t then some s.value else lastAt samples t := by
  rw [lastAt, finite_concat hs, List.reverse_concat, List.find?_cons]
  by_cases h : s.time = t <;> simp [h, lastAt]

theorem map_lastAt_concat (hs : Series.isFinite s) (h : s.time ∉ times) (samples : List Sample) :
    times.map (lastAt (samples ++ [s])) = times.map (lastAt samples) :=
  List.map_congr_left fun t ht => by
    have hne : s.time ≠ t := fun he => h (he ▸ ht)
    rw [lastAt_concat hs, if_neg hne]

theorem mem_sharedInstants_concat (hs : Series.isFinite s) {t : Instant} :
    t ∈ sharedInstants (a ++ [s]) b ↔
      t ∈ sharedInstants a b ∨ s.time = t ∧ (lastAt b s.time).isSome := by
  rw [mem_sharedInstants, mem_sharedInstants, lastAt_concat hs]
  by_cases h : s.time = t
  · subst h
    simp
  · simp [h]

/-- What has been paired from a first series: the last values of both series at their shared instants,
each instant in a place of its own. -/
structure Found.Covers (f : Found) (a b : List Sample) (times : List Instant) : Prop where
  xs : f.xs.toList.map some = times.map (lastAt a)
  ys : f.ys.toList.map some = times.map (lastAt b)
  place : ∀ (t : Instant) (i : Nat), f.places[t]? = some i ↔ times[i]? = some t
  mem : ∀ t, t ∈ times ↔ t ∈ sharedInstants a b
  sublist : times.Sublist ((Series.finite a).map (·.time))

namespace Found.Covers

theorem empty (b : List Sample) : Found.empty.Covers [] b [] where
  xs := rfl
  ys := rfl
  place t i := by simp [Found.empty]
  mem t := by simp [mem_sharedInstants, lastAt, Series.finite]
  sublist := List.Sublist.refl _

theorem size_xs (h : f.Covers a b times) : f.xs.size = times.length := by
  have hlength := congrArg List.length h.xs
  rwa [List.length_map, List.length_map, Array.length_toList] at hlength

/-- An instant has one place only. -/
theorem nodup (h : f.Covers a b times) : times.Nodup := by
  refine List.nodup_iff_injective_get.2 fun i j hij => ?_
  have hi := (h.place (times.get i) i).2 (List.getElem?_eq_getElem i.isLt)
  have hj := (h.place (times.get i) j).2 (hij ▸ List.getElem?_eq_getElem j.isLt)
  exact Fin.ext (Option.some.inj (hi.symm.trans hj))

theorem sublist_concat (h : f.Covers a b times) (hs : Series.isFinite s) :
    times.Sublist ((Series.finite (a ++ [s])).map (·.time)) := by
  rw [finite_concat hs, List.map_append]
  exact h.sublist.trans (List.sublist_append_left _ _)

/-- A sample at an instant that the second series does not have is passed over. -/
theorem add_unshared (h : f.Covers a b times) (hs : Series.isFinite s) (hb : lastAt b s.time = none) :
    f.Covers (a ++ [s]) b times := by
  have hshared (t : Instant) : t ∈ sharedInstants (a ++ [s]) b ↔ t ∈ sharedInstants a b := by
    rw [mem_sharedInstants_concat hs, hb]
    simp
  have hnew : s.time ∉ times := fun ht => by
    have := (mem_sharedInstants.1 ((h.mem _).1 ht)).2
    rw [hb] at this
    cases this
  refine ⟨?_, h.ys, h.place, fun t => by rw [hshared, h.mem], ?_⟩
  · rw [map_lastAt_concat hs hnew, h.xs]
  · exact h.sublist_concat hs

/-- A sample at an instant met before takes the place of the earlier one. -/
theorem add_again (h : f.Covers a b times) (hs : Series.isFinite s) {i : Nat}
    (hi : f.places[s.time]? = some i) :
    Found.Covers { f with xs := f.xs.setIfInBounds i s.value } (a ++ [s]) b times := by
  have hplace := (h.place _ _).1 hi
  refine ⟨?_, h.ys, h.place, fun t => ?_, ?_⟩
  · refine List.ext_getElem? fun j => ?_
    have hj := congrArg (fun l => l[j]?) h.xs
    have hlt : i < f.xs.size := by
      rw [h.size_xs]
      exact (List.getElem?_eq_some_iff.1 hplace).1
    simp only [List.getElem?_map] at hj
    rw [List.getElem?_map, List.getElem?_map, Array.toList_setIfInBounds, List.getElem?_set]
    by_cases hij : i = j
    · subst hij
      simp [hlt, hplace, lastAt_concat hs]
    · rw [if_neg hij, hj]
      -- in another place stands another instant
      refine Option.map_congr fun t ht => ?_
      have hne : s.time ≠ t := fun he =>
        hij (Option.some.inj (hi.symm.trans ((h.place _ _).2 (he ▸ ht))))
      rw [lastAt_concat hs, if_neg hne]
  · rw [mem_sharedInstants_concat hs, h.mem, or_iff_left_of_imp]
    rintro ⟨rfl, _⟩
    exact (h.mem _).1 (List.mem_of_getElem? hplace)
  · exact h.sublist_concat hs

/-- A sample at a shared instant that was not met before is paired with the last value there. -/
theorem add_new (h : f.Covers a b times) (hs : Series.isFinite s) {y : Float}
    (hb : lastAt b s.time = some y) (hi : f.places[s.time]? = none) :
    Found.Covers ⟨f.places.insert s.time f.xs.size, f.xs.push s.value, f.ys.push y⟩ (a ++ [s]) b
      (times ++ [s.time]) := by
  have hnew : s.time ∉ times := fun ht => by
    obtain ⟨i, hplace⟩ := List.getElem?_of_mem ht
    rw [(h.place _ _).2 hplace] at hi
    cases hi
  refine ⟨?_, ?_, fun t i => ?_, fun t => ?_, ?_⟩
  · rw [Array.toList_push, List.map_append, List.map_append, h.xs, map_lastAt_concat hs hnew]
    simp [lastAt_concat hs]
  · rw [Array.toList_push, List.map_append, List.map_append, h.ys]
    simp [hb]
  · rw [Std.TreeMap.getElem?_insert, h.size_xs, List.getElem?_append]
    by_cases hst : s.time = t
    · subst hst
      have hnot : times[i]? ≠ some s.time := fun hm => hnew (List.mem_of_getElem? hm)
      rw [if_pos Std.compare_self]
      grind
    · rw [if_neg fun hc => hst (Std.LawfulEqOrd.eq_of_compare hc), h.place]
      grind
  · rw [mem_sharedInstants_concat hs, List.mem_append, h.mem, hb]
    simp [eq_comm]
  · rw [finite_concat hs, List.map_append]
    exact h.sublist.append (List.Sublist.refl _)

theorem add (h : f.Covers a b times) (hs : Series.isFinite s) :
    ∃ times', (f.add (lastValues b) s).Covers (a ++ [s]) b times' := by
  rw [Found.add, getElem?_lastValues]
  cases hb : lastAt b s.time with
  | none => exact ⟨times, h.add_unshared hs hb⟩
  | some y =>
    cases hi : f.places[s.time]? with
    | some i => exact ⟨times, h.add_again hs hi⟩
    | none => exact ⟨times ++ [s.time], h.add_new hs hb hi⟩

/-- Only finite samples count. -/
theorem of_finite_eq (h : f.Covers a b times) {a' : List Sample}
    (ha : Series.finite a' = Series.finite a) : f.Covers a' b times := by
  have hlast : lastAt a' = lastAt a := by
    funext t
    rw [lastAt, ha, lastAt]
  have hshared : sharedInstants a' b = sharedInstants a b := by
    rw [sharedInstants, finiteInstants, ha, sharedInstants, finiteInstants, finiteInstants]
  exact ⟨hlast ▸ h.xs, h.ys, h.place, hshared ▸ h.mem, ha ▸ h.sublist⟩

end Found.Covers

/-- The whole of the first series is paired. -/
theorem exists_covers (a b : List Sample) : ∃ times, (found a b).Covers a b times := by
  -- from the end, where the loop takes in its next sample
  induction a using List.reverseRecOn with
  | nil => exact ⟨[], .empty b⟩
  | append_singleton a s ih =>
    obtain ⟨times, h⟩ := ih
    by_cases hs : Series.isFinite s
    · rw [found, finite_concat hs, List.foldl_append]
      exact h.add hs
    · have hfinite : Series.finite (a ++ [s]) = Series.finite a := by
        rw [Series.finite, List.filter_append, List.filter_singleton, Bool.eq_false_of_not_eq_true hs]
        exact List.append_nil _
      refine ⟨times, ?_⟩
      rw [found, hfinite]
      exact h.of_finite_eq hfinite

theorem length_align (a b : List Sample) : (align a b).length = (sharedInstants a b).card := by
  obtain ⟨times, h⟩ := exists_covers a b
  have hys := congrArg List.length h.ys
  rw [List.length_map, List.length_map, Array.length_toList] at hys
  have hset : times.toFinset = sharedInstants a b := by
    ext t
    rw [List.mem_toFinset, h.mem]
  rw [align, columns, List.length_zip, Array.length_toList, Array.length_toList, h.size_xs, hys, min_self,
    ← List.toFinset_card_of_nodup h.nodup, hset]

end FleetHealth.Correlation
