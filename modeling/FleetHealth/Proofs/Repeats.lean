import Mathlib.Data.List.Basic
import Mathlib.Data.List.Nodup

/-!
# Items and their keys

Lists put together from parts, where the key of an item tells which part it came from. The items of a
key are those of its part, and a list repeats an item no more often than it takes up the part.
-/
namespace FleetHealth

variable {σ α κ ι : Type} [DecidableEq κ] [DecidableEq ι]

/-- Of the parts put together only those filed under a key hold items of the key. -/
theorem filter_flatMap_of_key {parts : List σ} {items : σ → List α} {source : σ → ι} {owner : α → ι}
    (h : ∀ x ∈ parts, ∀ a ∈ items x, owner a = source x) (i : ι) :
    (parts.flatMap items).filter (fun a => owner a = i) =
      (parts.filter fun x => source x = i).flatMap items := by
  induction parts with
  | nil => rfl
  | cons x rest ih =>
    obtain ⟨hx, hr⟩ := List.forall_mem_cons.1 h
    rw [List.flatMap_cons, List.filter_append, ih hr, List.filter_cons]
    by_cases hi : source x = i
    · have hall : (items x).filter (fun a => owner a = i) = items x :=
        List.filter_eq_self.2 fun a ha => decide_eq_true ((hx a ha).trans hi)
      rw [hall, if_pos (decide_eq_true hi), List.flatMap_cons]
    · have hnone : (items x).filter (fun a => owner a = i) = [] :=
        List.filter_eq_nil_iff.2 fun a ha ho => hi ((hx a ha).symm.trans (of_decide_eq_true ho))
      rw [hnone, if_neg (by simpa using hi), List.nil_append]

/-- Where every item has a key of its own, it is all that its key finds. -/
theorem filter_key_of_distinct {l : List α} {key : α → κ} {a : α}
    (h : l.Pairwise fun a b => key a ≠ key b) (ha : a ∈ l) :
    l.filter (fun b => key b = key a) = [a] := by
  induction l with
  | nil => cases ha
  | cons b rest ih =>
    obtain ⟨hb, hr⟩ := List.pairwise_cons.1 h
    rcases List.mem_cons.1 ha with rfl | ha
    · have hnone : rest.filter (fun b => key b = key a) = [] :=
        List.filter_eq_nil_iff.2 fun c hc hk => hb c hc (of_decide_eq_true hk).symm
      rw [List.filter_cons, if_pos (decide_eq_true rfl), hnone]
    · rw [List.filter_cons_of_neg (by simpa using hb a ha), ih hr ha]

/-- Items of one key are one and the same, and there are at most so many of it. -/
structure Repeats (key : α → κ) (times : κ → Nat) (l : List α) : Prop where
  same : ∀ a ∈ l, ∀ b ∈ l, key a = key b → a = b
  bounded : ∀ k, l.countP (fun a => key a = k) ≤ times k

namespace Repeats

variable {key : α → κ} {times : κ → Nat} {l l' : List α}

theorem of_nodup (h : (l.map key).Nodup) : Repeats key (fun _ => 1) l where
  same _ ha _ hb := List.inj_on_of_nodup_map h ha hb
  bounded k := by
    have hc := List.nodup_iff_count_le_one.1 h k
    rw [List.count, List.countP_map] at hc
    simpa only [Function.comp_def, beq_eq_decide] using hc

theorem nodup (h : Repeats key times l) (hone : ∀ k, times k ≤ 1) : (l.map key).Nodup := by
  refine List.nodup_iff_count_le_one.2 fun k => ?_
  rw [List.count, List.countP_map]
  simpa only [Function.comp_def, beq_eq_decide] using Nat.le_trans (h.bounded k) (hone k)

theorem mono {times' : κ → Nat} (h : Repeats key times l) (hle : ∀ k, times k ≤ times' k) :
    Repeats key times' l where
  same := h.same
  bounded k := Nat.le_trans (h.bounded k) (hle k)

theorem sublist (h : Repeats key times l) (hs : l'.Sublist l) : Repeats key times l' where
  same a ha b hb := h.same a (hs.subset ha) b (hs.subset hb)
  bounded k := Nat.le_trans hs.countP_le (h.bounded k)

theorem perm (h : Repeats key times l) (hp : l'.Perm l) : Repeats key times l' where
  same a ha b hb := h.same a (hp.subset ha) b (hp.subset hb)
  bounded k := hp.countP_eq _ ▸ h.bounded k

/-- A list made from parts has an item at most so many times as its part has it, for each time that
the part is there. -/
theorem flatMap {parts : List σ} {items : σ → List α} {source : σ → ι} (owner : κ → ι)
    (h : ∀ x ∈ parts, Repeats key times (items x))
    (hkey : ∀ x ∈ parts, ∀ a ∈ items x, owner (key a) = source x)
    (hsame : ∀ x ∈ parts, ∀ y ∈ parts, source x = source y → items x = items y) :
    Repeats key (fun k => (parts.map source).count (owner k) * times k) (parts.flatMap items) where
  same a ha b hb hab := by
    obtain ⟨x, hx, ha⟩ := List.mem_flatMap.1 ha
    obtain ⟨y, hy, hb⟩ := List.mem_flatMap.1 hb
    have hxy : source x = source y := by rw [← hkey x hx a ha, hab, hkey y hy b hb]
    exact (h x hx).same a ha b (hsame x hx y hy hxy ▸ hb) hab
  bounded k := by
    clear hsame
    induction parts with
    | nil => simp
    | cons x rest ih =>
      obtain ⟨hx, hr⟩ := List.forall_mem_cons.1 h
      obtain ⟨hkx, hkr⟩ := List.forall_mem_cons.1 hkey
      have hrest := ih hr hkr
      rw [List.flatMap_cons, List.countP_append, List.map_cons, List.count_cons, Nat.add_mul,
        Nat.add_comm]
      refine Nat.add_le_add hrest ?_
      by_cases ho : source x = owner k
      · simpa [ho] using hx.bounded k
      · -- an item of the key would be of the part that the key names
        have hzero : (items x).countP (fun a => key a = k) = 0 := by
          refine List.countP_eq_zero.2 fun a ha hk => ho ?_
          rw [← of_decide_eq_true hk, hkx a ha]
        rw [hzero]
        exact Nat.zero_le _

/-- Parts that are there once only repeat nothing that they do not repeat themselves. -/
theorem flatMap_of_nodup {parts : List σ} {items : σ → List α} {source : σ → ι} (owner : κ → ι)
    (hd : (parts.map source).Nodup) (h : ∀ x ∈ parts, Repeats key times (items x))
    (hkey : ∀ x ∈ parts, ∀ a ∈ items x, owner (key a) = source x) :
    Repeats key times (parts.flatMap items) := by
  refine (Repeats.flatMap owner h hkey fun x hx y hy hxy => ?_).mono fun k => ?_
  · rw [List.inj_on_of_nodup_map hd hx hy hxy]
  · calc (parts.map source).count (owner k) * times k
        ≤ 1 * times k := Nat.mul_le_mul_right _ (List.nodup_iff_count_le_one.1 hd _)
      _ = times k := Nat.one_mul _

/-- What is found for the members of a list repeats no more often than they do. -/
theorem filterMap {parts : List σ} {item? : σ → Option α} {source : σ → ι} (owner : κ → ι)
    (hkey : ∀ x ∈ parts, ∀ a ∈ item? x, owner (key a) = source x)
    (hsame : ∀ x ∈ parts, ∀ y ∈ parts, source x = source y → item? x = item? y) :
    Repeats key (fun k => (parts.map source).count (owner k)) (parts.filterMap item?) := by
  have hone (o : Option α) : Repeats key (fun _ => 1) o.toList := of_nodup (by cases o <;> simp)
  rw [List.filterMap_eq_flatMap_toList]
  refine (Repeats.flatMap owner (fun x _ => hone (item? x)) (fun x hx a ha => ?_)
    fun x hx y hy hxy => ?_).mono fun k => Nat.le_of_eq (Nat.mul_one _)
  · exact hkey x hx a (Option.mem_toList.1 ha)
  · rw [hsame x hx y hy hxy]

/-- What is found under one heading for each member of a list repeats no more often than that. -/
theorem under_heading {τ : Type} [DecidableEq τ] {key : α → τ × ι} {find : ι → Option α}
    {heading : τ} (l : List ι) (h : ∀ i a, find i = some a → key a = (heading, i)) :
    Repeats key (fun k => l.count k.2) (l.filterMap find) := by
  have hr : Repeats key (fun k => (l.map id).count k.2) (l.filterMap find) :=
    .filterMap Prod.snd (fun i _ a ha => by rw [h i a ha]; rfl) fun _ _ _ _ hij => congrArg find hij
  rwa [List.map_id] at hr

end Repeats

end FleetHealth
