import FleetHealth.Monitor.Engine
import Mathlib.Data.List.Basic

/-!
# Slices with their bounds checked

A difference of lengths that would fall below zero, a slice outside its list, an item past the end and
a division by zero have no value here. The cuts that the program makes, taken one step at a time with
these, always have one: what the unchecked definitions say.
-/
namespace FleetHealth.Checked

variable {α : Type}

def minus? (a b : Nat) : Option Nat := if b ≤ a then some (a - b) else none

def divide? (a b : Nat) : Option Nat := if b = 0 then none else some (a / b)

def remainder? (a b : Nat) : Option Nat := if b = 0 then none else some (a % b)

def slice? (l : List α) (start stop : Nat) : Option (List α) :=
  if start ≤ stop ∧ stop ≤ l.length then some ((l.take stop).drop start) else none

def lastItems? (n : Nat) (l : List α) : Option (List α) := slice? l (l.length - n) l.length

def tail? (n : Nat) (l : List α) : Option (List α) := do
  let start ← minus? l.length (min n l.length)
  slice? l start l.length

def history? (window : Nat) (samples : List Sample) (latest : Sample) : Option (List Sample) :=
  match samples.getLast? with
  | some last =>
    if last.time = latest.time then do
      let stop ← minus? samples.length 1
      slice? samples 0 stop
    else lastItems? window samples
  | none => lastItems? window samples

def thin? (samples : List Sample) (budget : Nat) : Option (List Sample) :=
  if samples.length ≤ budget ∨ budget < 2 then some samples
  else do
    let stride ← divide? (samples.length + budget - 1) budget
    let last ← minus? samples.length 1
    let rest ← remainder? last stride
    let picked := Capacity.everyNth stride samples
    if rest = 0 then return picked
    let kept := if budget ≤ picked.length then picked.dropLast else picked
    let newest ← samples[last]?
    return kept ++ [newest]

theorem minus?_eq {a b : Nat} (h : b ≤ a) : minus? a b = some (a - b) := if_pos h

theorem slice?_eq {l : List α} {start stop : Nat} (h : start ≤ stop) (hl : stop ≤ l.length) :
    slice? l start stop = some ((l.take stop).drop start) := if_pos ⟨h, hl⟩

theorem lastItems?_eq (n : Nat) (l : List α) : lastItems? n l = some (Series.takeLast n l) := by
  rw [lastItems?, slice?_eq (Nat.sub_le ..) (Nat.le_refl _), List.take_length]
  rfl

theorem tail?_eq (n : Nat) (l : List α) : tail? n l = some (Series.takeLast n l) := by
  rw [tail?, minus?_eq (Nat.min_le_right ..)]
  change slice? l (l.length - min n l.length) l.length = _
  rw [slice?_eq (Nat.sub_le ..) (Nat.le_refl _), List.take_length, Series.takeLast]
  congr 2
  omega

theorem history?_eq (window : Nat) (samples : List Sample) (latest : Sample) :
    history? window samples latest = some (Engine.history window samples latest) := by
  rw [history?, Engine.history]
  rcases h : samples.getLast? with _ | last
  · rw [List.getLast?_eq_none_iff] at h
    subst h
    dsimp only
    rw [lastItems?_eq, Series.takeLast, List.drop_nil]
  · have hl : 0 < samples.length := List.length_pos_of_mem (List.mem_of_getLast? h)
    dsimp only
    split
    · rw [minus?_eq hl]
      change slice? samples 0 (samples.length - 1) = _
      rw [slice?_eq (Nat.zero_le _) (Nat.sub_le ..), List.drop_zero, List.dropLast_eq_take]
    · exact lastItems?_eq window samples

theorem thin?_eq (samples : List Sample) (budget : Nat) :
    thin? samples budget = some (Capacity.thin samples budget) := by
  rw [thin?, Capacity.thin]
  split
  · rfl
  next h =>
    rw [not_or, Nat.not_le, Nat.not_lt] at h
    have hb : budget ≠ 0 := by omega
    have hstride : (samples.length + budget - 1) / budget ≠ 0 :=
      Nat.ne_of_gt (Nat.div_pos (by omega) (by omega))
    have hlast : samples[samples.length - 1]? = some (samples[samples.length - 1]) :=
      List.getElem?_eq_getElem (by omega)
    simp only [divide?, if_neg hb, minus?_eq (show 1 ≤ samples.length by omega), remainder?,
      if_neg hstride, Option.bind_eq_bind, Option.bind_some, hlast, List.getLast?_eq_getElem?,
      Option.toList_some]
    split <;> rfl

end FleetHealth.Checked
