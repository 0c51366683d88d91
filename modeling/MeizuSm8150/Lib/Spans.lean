import Mathlib.Tactic.Common
import Mathlib.Data.List.TakeWhile
import Mathlib.Data.List.DropRight

/-!
# Longest prefixes of a kind

A scanner that takes all characters of a kind splits its input once: the part it takes has only
such characters, and what is left does not start with one (`Stops`).
-/

namespace Spans

variable {α : Type} {p : α → Bool}

/-- `l` does not start with a character of the kind. -/
def Stops (p : α → Bool) (l : List α) : Prop := ∀ a ∈ l.head?, p a = false

@[simp] theorem stops_nil : Stops p ([] : List α) := by simp [Stops]

@[simp] theorem stops_cons {a : α} {l : List α} : Stops p (a :: l) ↔ p a = false := by
  simp [Stops]

theorem stops_append {u : List α} (h : u.head?.map p = some false) (v : List α) :
    Stops p (u ++ v) := by
  cases u with
  | nil => cases h
  | cons a u => simpa using h

theorem stops_dropWhile (l : List α) : Stops p (l.dropWhile p) := by
  intro a ha
  have hnot := List.head?_dropWhile_not p l
  rw [Option.mem_def.mp ha] at hnot
  exact hnot

/-- What is in front of a stop stops too. -/
theorem Stops.front {u l : List α} (h : Stops p l) (hu : u <+: l) : Stops p u := by
  obtain ⟨v, rfl⟩ := hu
  cases u with
  | nil => simp
  | cons a u => simpa using h

theorem takeWhile_of_stops {l : List α} (h : Stops p l) : l.takeWhile p = [] := by
  cases l with
  | nil => rfl
  | cons a l => simpa using h

theorem dropWhile_of_stops {l : List α} (h : Stops p l) : l.dropWhile p = l := by
  have hsplit := List.takeWhile_append_dropWhile (p := p) (l := l)
  rwa [takeWhile_of_stops h, List.nil_append] at hsplit

theorem takeWhile_append {u v : List α} (hu : ∀ a ∈ u, p a = true) (hv : Stops p v) :
    (u ++ v).takeWhile p = u := by
  rw [List.takeWhile_append_of_pos hu, takeWhile_of_stops hv, List.append_nil]

theorem dropWhile_append {u v : List α} (hu : ∀ a ∈ u, p a = true) (hv : Stops p v) :
    (u ++ v).dropWhile p = v := by
  rw [List.dropWhile_append_of_pos hu, dropWhile_of_stops hv]

end Spans
