import FleetHealth.Monitor.Engine

/-!
# Laws of runs

A journal only grows, and its counters grow by the sums of what is added. A run is taken apart at its
binds: what comes next starts from the session that the part before left. Against a source whose answers
do not depend on the reads before, most results do not depend on the session either; such a run yields
one result, and the results of runs put together follow from the results of the parts.
-/
namespace FleetHealth

/-! ### Journals -/

namespace Journal

/-- What is noted in one journal, then what is noted in another. -/
instance : Append Journal where
  append j k := ⟨j.reads ++ k.reads, j.events ++ k.events, j.counts ++ k.counts⟩

@[simp]
theorem reads_append (j k : Journal) : (j ++ k).reads = j.reads ++ k.reads := rfl

@[simp]
theorem events_append (j k : Journal) : (j ++ k).events = j.events ++ k.events := rfl

/-- A journal with these entries after it. -/
theorem append_mk (j : Journal) (reads : List Read) (events : List Event)
    (counts : List (Counter × Nat)) :
    j ++ ⟨reads, events, counts⟩ = ⟨j.reads ++ reads, j.events ++ events, j.counts ++ counts⟩ := rfl

@[simp]
theorem append_empty (j : Journal) : j ++ empty = j := by
  rw [empty, append_mk, List.append_nil, List.append_nil, List.append_nil]

theorem addRead_eq_append (j : Journal) (r : Read) : j.addRead r = j ++ ⟨[r], [], []⟩ := by
  rw [append_mk, List.append_nil, List.append_nil, addRead]

theorem addEvent_eq_append (j : Journal) (e : Event) : j.addEvent e = j ++ ⟨[], [e], []⟩ := by
  rw [append_mk, List.append_nil, List.append_nil, addEvent]

theorem addCount_eq_append (j : Journal) (c : Counter) (n : Nat) :
    j.addCount c n = j ++ ⟨[], [], [(c, n)]⟩ := by
  rw [append_mk, List.append_nil, List.append_nil, addCount]

theorem append_assoc (i j k : Journal) : i ++ j ++ k = i ++ (j ++ k) := by
  change Journal.mk (_ ++ _ ++ _) (_ ++ _ ++ _) (_ ++ _ ++ _) = Journal.mk (_ ++ (_ ++ _)) _ _
  simp only [List.append_assoc]
  rfl

theorem foldr_counts (counts : List (Counter × Nat)) (n : Nat) :
    counts.foldr (fun e n => e.2 + n) n = counts.foldr (fun e n => e.2 + n) 0 + n := by
  induction counts with
  | nil => simp
  | cons e rest ih => simp only [List.foldr_cons, ih, Nat.add_assoc]

/-- A counter that grows in two stretches grows by the sum. -/
@[simp]
theorem growth_append (j k : Journal) (c : Counter) :
    (j ++ k).growth c = j.growth c + k.growth c := by
  change (((j.counts ++ k.counts).filter _).foldr _ 0 : Nat) = _
  rw [List.filter_append, List.foldr_append, foldr_counts]
  rfl

@[simp]
theorem growth_uncounted (reads : List Read) (events : List Event) (c : Counter) :
    (⟨reads, events, []⟩ : Journal).growth c = 0 := rfl

@[simp]
theorem growth_counted (reads : List Read) (events : List Event) (c c' : Counter) (n : Nat) :
    (⟨reads, events, [(c, n)]⟩ : Journal).growth c' = if c = c' then n else 0 := by
  by_cases h : c = c' <;> simp [growth, h]

theorem growth_addCount (j : Journal) (c c' : Counter) (n : Nat) :
    (j.addCount c n).growth c' = j.growth c' + if c = c' then n else 0 := by
  rw [addCount_eq_append, growth_append, growth_counted]

end Journal

/-! ### Runs -/

/-- The session after a read is noted in its journal. -/
def Session.noting (s : Session) (r : Read) : Session :=
  { s with journal := s.journal.addRead r }

namespace Run

variable {α β γ : Type} {source : Source} {s : Session}

theorem exec_bind (x : Run α) (f : α → Run β) :
    (x >>= f).exec source s =
      match x.exec source s with
      | (.ok a, s') => (f a).exec source s'
      | (.error i, s') => (.error i, s') := by
  change ExceptT.bindCont (fun a => f a source) (x.exec source s).1 (x.exec source s).2 = _
  rcases x.exec source s with ⟨_ | _, _⟩ <;> rfl

/-- Parts put together end well where both do, the second from where the first ended. -/
theorem exec_bind_ok {x : Run α} {f : α → Run β} {b : β} {s' : Session}
    (h : (x >>= f).exec source s = (.ok b, s')) :
    ∃ a t, x.exec source s = (.ok a, t) ∧ (f a).exec source t = (.ok b, s') := by
  rw [exec_bind] at h
  rcases hx : x.exec source s with ⟨i | a, t⟩
  · rw [hx] at h
    cases h
  · rw [hx] at h
    exact ⟨a, t, rfl, h⟩

theorem exec_memo : memo.exec source s = (.ok s.memo, s) := rfl

theorem exec_count (c : Counter) (n : Nat) :
    (count c n).exec source s = (.ok (), { s with journal := s.journal.addCount c n }) := rfl

/-- A read is noted first; then the answer of the source decides. -/
theorem exec_read (label : String) (r : Read) :
    (read label r).exec source s =
      (match source s.journal.reads r with
        | .ok answer => (pure answer : Run r.Answer)
        | .error (.refused error) => do
          count (.storeErrors r.operation) 1
          emit (.readRefused label r.operation error)
          throw (Interruption.refused error)
        | .error interruption => throw interruption).exec source (s.noting r) := rfl

theorem exec_read_ok (label : String) {r : Read} {answer : r.Answer}
    (h : source s.journal.reads r = .ok answer) :
    (read label r).exec source s = (.ok answer, s.noting r) := by
  rw [exec_read, h]
  rfl

theorem exec_read_error (label : String) {r : Read} {i : Interruption}
    (h : source s.journal.reads r = .error i) :
    ∃ s', (read label r).exec source s = (.error i, s') ∧ s'.memo = s.memo ∧
      s'.journal.reads = s.journal.reads ++ [r] := by
  rw [exec_read, h]
  cases i with
  | refused error => exact ⟨_, rfl, rfl, rfl⟩
  | fault f => exact ⟨_, rfl, rfl, rfl⟩

/-- The run has this result against the source, from whatever session. -/
def Yields (source : Source) (x : Run α) (r : Except Interruption α) : Prop :=
  ∀ s, (x.exec source s).1 = r

theorem yields_pure (a : α) : Yields source (pure a) (.ok a) := fun _ => rfl

theorem yields_count (c : Counter) (n : Nat) : Yields source (count c n) (.ok ()) := fun _ => rfl

theorem yields_emit (e : Event) : Yields source (emit e) (.ok ()) := fun _ => rfl

theorem Yields.bind {x : Run α} {f : α → Run β} {r : Except Interruption α}
    {g : α → Except Interruption β} (hx : Yields source x r)
    (hf : ∀ a, r = .ok a → Yields source (f a) (g a)) :
    Yields source (x >>= f) (r >>= g) := by
  intro s
  have h := hx s
  rw [exec_bind]
  rcases hs : x.exec source s with ⟨i | a, s'⟩
  · rw [hs] at h
    subst h
    rfl
  · rw [hs] at h
    subst h
    -- the rest runs from the session that `x` leaves, on which its result does not hang
    exact hf a rfl s'

theorem yields_read {label : String} {r : Read} {answer : Except Interruption r.Answer}
    (h : ∀ earlier, source earlier r = answer) : Yields source (read label r) answer := by
  intro s
  rcases answer with i | a
  · obtain ⟨s', he, _⟩ := exec_read_error label (h s.journal.reads)
    rw [he]
  · rw [exec_read_ok label (h s.journal.reads)]

theorem Yields.bind_ok {x : Run α} {f : α → Run β} {a : α} {r : Except Interruption β}
    (hx : Yields source x (.ok a)) (hf : Yields source (f a) r) : Yields source (x >>= f) r :=
  hx.bind (g := fun _ => r) fun _ h => Except.ok.inj h ▸ hf

/-- Runs over the members of a list yield the results of the members put together. -/
theorem Yields.mapM {f : α → Run β} {g : α → Except Interruption β} {l : List α}
    (h : ∀ a, Yields source (f a) (g a)) : Yields source (l.mapM f) (l.mapM g) := by
  induction l with
  | nil => exact yields_pure []
  | cons a rest ih =>
    rw [List.mapM_cons, List.mapM_cons]
    exact (h a).bind fun b _ => ih.bind fun bs _ => yields_pure (b :: bs)

theorem Yields.mapM_ok {f : α → Run β} {g : α → β} {l : List α}
    (h : ∀ a, Yields source (f a) (.ok (g a))) : Yields source (l.mapM f) (.ok (l.map g)) := by
  have hm := Yields.mapM (l := l) h
  rwa [show (fun a => Except.ok (g a) : α → Except Interruption β) = (pure <| g ·) from rfl,
    List.mapM_pure] at hm

/-- A run that goes on with what was found for the members of a list. -/
theorem Yields.mapM_found {f : α → Run (Option β)} {g : α → Option β} {l : List α}
    {k : List β → Run γ} {r : Except Interruption γ}
    (h : ∀ a, Yields source (f a) (.ok (g a))) (hk : Yields source (k (l.filterMap g)) r) :
    Yields source (l.mapM f >>= fun found => k (found.filterMap id)) r := by
  have hid : (l.map g).filterMap id = l.filterMap g := by rw [List.filterMap_map, Function.id_comp]
  exact (Yields.mapM_ok h).bind_ok (hid ▸ hk)

/-- The result of the run against the source does not hang on the session. -/
def Settled (source : Source) (x : Run α) : Prop :=
  ∀ s t, (x.exec source s).1 = (x.exec source t).1

theorem Yields.settled {x : Run α} {r : Except Interruption α} (h : Yields source x r) :
    Settled source x := fun s t => (h s).trans (h t).symm

theorem settled_pure (a : α) : Settled source (pure a) := (yields_pure a).settled

theorem settled_read (h : ∀ earlier earlier' r, source earlier r = source earlier' r)
    (label : String) (r : Read) : Settled source (read label r) :=
  (yields_read fun earlier => h earlier [] r).settled

theorem Settled.bind {x : Run α} {f : α → Run β} (hx : Settled source x)
    (hf : ∀ a, Settled source (f a)) : Settled source (x >>= f) := by
  intro s t
  have h := hx s t
  rw [exec_bind, exec_bind]
  rcases hs : x.exec source s with ⟨i | a, s'⟩ <;> rcases ht : x.exec source t with ⟨j | b, t'⟩ <;>
    rw [hs, ht] at h <;> cases h
  · rfl
  · exact hf a s' t'

theorem Settled.mapM {f : α → Run β} {l : List α} (h : ∀ a, Settled source (f a)) :
    Settled source (l.mapM f) := by
  induction l with
  | nil => exact settled_pure []
  | cons a rest ih =>
    rw [List.mapM_cons]
    exact (h a).bind fun b => ih.bind fun bs => settled_pure (b :: bs)

/-- Every result of the run has the property, whatever the source answers. -/
def Returns (P : α → Prop) (x : Run α) : Prop :=
  ∀ source s a s', x.exec source s = (.ok a, s') → P a

theorem returns_pure {P : α → Prop} {a : α} (h : P a) : Returns P (pure a) := by
  intro source s b s' hb
  obtain rfl : a = b := Except.ok.inj (congrArg Prod.fst hb)
  exact h

theorem Returns.bind {P : α → Prop} {Q : β → Prop} {x : Run α} {f : α → Run β} (hx : Returns P x)
    (hf : ∀ a, P a → Returns Q (f a)) : Returns Q (x >>= f) := by
  intro source s b s' h
  obtain ⟨a, t, ha, hb⟩ := exec_bind_ok h
  exact hf a (hx _ _ _ _ ha) _ _ _ _ hb

theorem Returns.after {Q : β → Prop} {x : Run α} {f : α → Run β} (hf : ∀ a, Returns Q (f a)) :
    Returns Q (x >>= f) :=
  Returns.bind (P := fun _ => True) (fun _ _ _ _ _ => trivial) fun a _ => hf a

theorem Returns.mapM {P : β → Prop} {f : α → Run β} {l : List α} (h : ∀ a, Returns P (f a)) :
    Returns (fun bs => ∀ b ∈ bs, P b) (l.mapM f) := by
  induction l with
  | nil => exact returns_pure fun b hb => by cases hb
  | cons a rest ih =>
    rw [List.mapM_cons]
    exact (h a).bind fun b hb => ih.bind fun bs hbs =>
      returns_pure (List.forall_mem_cons.2 ⟨hb, hbs⟩)

end Run

end FleetHealth
