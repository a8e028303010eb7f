/-!
# Ordered indexes

A finite map kept as a list of entries in strictly ascending key order. Two indexes that hold the
same values under the same keys are equal, and walking one meets the keys in order, so nothing
computed from an index depends on how it was filled.
-/
namespace FleetHealth

/-- Entries in strictly ascending key order. -/
structure Index (κ : Type) (α : Type) [Ord κ] where
  entries : List (κ × α)
  ascending : entries.Pairwise (fun a b => compare a.1 b.1 = .lt)

namespace Index

variable {κ α β : Type} [Ord κ]

def empty : Index κ α := ⟨[], .nil⟩

instance : Inhabited (Index κ α) := ⟨empty⟩

instance [Repr κ] [Repr α] : Repr (Index κ α) := ⟨fun i n => reprPrec i.entries n⟩

instance [DecidableEq κ] [DecidableEq α] : DecidableEq (Index κ α) := fun a b =>
  if h : a.entries = b.entries then
    isTrue (by cases a; cases b; cases h; rfl)
  else isFalse (fun e => h (congrArg entries e))

/-- Put `f` of the value under `key`, or of nothing, in its place among the entries. -/
def place (key : κ) (f : Option α → α) : List (κ × α) → List (κ × α)
  | [] => [(key, f none)]
  | (k, v) :: rest =>
    match compare key k with
    | .lt => (key, f none) :: (k, v) :: rest
    | .eq => (k, f (some v)) :: rest
    | .gt => (k, v) :: place key f rest

theorem mem_place {key : κ} {f : Option α → α} {l : List (κ × α)} {e : κ × α}
    (h : e ∈ place key f l) : e.1 = key ∨ ∃ e' ∈ l, e'.1 = e.1 := by
  induction l with
  | nil => left; simp [place] at h; simp [h]
  | cons a rest ih =>
    obtain ⟨k, v⟩ := a
    simp only [place] at h
    split at h
    · rcases List.mem_cons.1 h with rfl | h
      · exact .inl rfl
      · exact .inr ⟨e, h, rfl⟩
    · rcases List.mem_cons.1 h with rfl | h
      · exact .inr ⟨(k, v), List.mem_cons_self, rfl⟩
      · exact .inr ⟨e, List.mem_cons_of_mem _ h, rfl⟩
    · rcases List.mem_cons.1 h with rfl | h
      · exact .inr ⟨(k, v), List.mem_cons_self, rfl⟩
      · rcases ih h with h | ⟨e', m, h⟩
        · exact .inl h
        · exact .inr ⟨e', List.mem_cons_of_mem _ m, h⟩

theorem place_ascending [Std.TransOrd κ] (key : κ) (f : Option α → α) (l : List (κ × α))
    (h : l.Pairwise (fun a b => compare a.1 b.1 = .lt)) :
    (place key f l).Pairwise (fun a b => compare a.1 b.1 = .lt) := by
  induction l with
  | nil => simp [place]
  | cons a rest ih =>
    obtain ⟨k, v⟩ := a
    obtain ⟨hk, hr⟩ := List.pairwise_cons.1 h
    simp only [place]
    split
    next hlt =>
      refine List.pairwise_cons.2 ⟨fun b hb => ?_, h⟩
      rcases List.mem_cons.1 hb with rfl | hb
      · exact hlt
      · exact Std.TransCmp.lt_trans hlt (hk b hb)
    next => exact List.pairwise_cons.2 ⟨hk, hr⟩
    next hgt =>
      refine List.pairwise_cons.2 ⟨fun b hb => ?_, ih hr⟩
      rcases mem_place hb with hb | ⟨e, he, hb⟩
      · simpa [hb] using Std.OrientedCmp.lt_of_gt hgt
      · simpa [hb] using hk e he

/-- Replace the value under `key` by `f` of it; `f none` starts a new entry. -/
def alter [Std.TransOrd κ] (i : Index κ α) (key : κ) (f : Option α → α) : Index κ α :=
  ⟨place key f i.entries, place_ascending key f i.entries i.ascending⟩

def insert [Std.TransOrd κ] (i : Index κ α) (key : κ) (value : α) : Index κ α :=
  i.alter key (fun _ => value)

/-- The index of a list of entries; of two with one key the later counts. -/
def ofList [Std.TransOrd κ] (l : List (κ × α)) : Index κ α :=
  l.foldl (fun i e => i.insert e.1 e.2) empty

def get? (i : Index κ α) (key : κ) : Option α :=
  (i.entries.find? (fun e => compare e.1 key == .eq)).map (·.2)

def keys (i : Index κ α) : List κ := i.entries.map (·.1)

def values (i : Index κ α) : List α := i.entries.map (·.2)

def size (i : Index κ α) : Nat := i.entries.length

def isEmpty (i : Index κ α) : Bool := i.entries.isEmpty

/-- Replace each value, dropping the keys for which `f` has none. -/
def filterMap (i : Index κ α) (f : κ → α → Option β) : Index κ β where
  entries := i.entries.filterMap fun e => (f e.1 e.2).map (fun v => (e.1, v))
  ascending := by
    refine List.Pairwise.filterMap _ (fun a a' h b hb b' hb' => ?_) i.ascending
    simp only [Option.map_eq_some_iff] at hb hb'
    obtain ⟨v, _, rfl⟩ := hb
    obtain ⟨v', _, rfl⟩ := hb'
    exact h

def map (i : Index κ α) (f : α → β) : Index κ β := i.filterMap fun _ v => some (f v)

end Index

end FleetHealth
