import MeizuSm8150.Lib.Spans
import Mathlib.Data.Nat.Notation

/-!
# Backtracking regular expressions

Patterns the way a backtracking engine runs them: a repetition takes as many characters of its
class as there are and gives them back one by one as long as what follows fails. What follows is
a continuation, so the order of the attempts is the order of evaluation.

`run_sound` says that a match is in the language of its pattern. Which of the possible matches is
found is decided by the repetitions: where what follows cannot start with a character of the
class, nothing is ever given back (`greedy_of_fails`).
-/

namespace Regex

open Spans

variable {α β : Type}

/-! ## Patterns -/

inductive Pattern (α : Type) where
  | empty
  /-- One character of a class. -/
  | char (p : α → Bool)
  /-- Any number of characters of a class. -/
  | star (p : α → Bool)
  | seq (r s : Pattern α)
  /-- The capturing group. -/
  | group (r : Pattern α)

def literal [DecidableEq α] : List α → Pattern α
  | [] => .empty
  | a :: u => .seq (.char fun b => b = a) (literal u)

/-- At least one character of a class. -/
def plus (p : α → Bool) : Pattern α := .seq (.char p) (.star p)

/-- The texts a pattern stands for. -/
def Pattern.Matches : Pattern α → List α → Prop
  | .empty, u => u = []
  | .char p, u => ∃ a, p a = true ∧ u = [a]
  | .star p, u => ∀ a ∈ u, p a = true
  | .seq r s, u => ∃ v w, u = v ++ w ∧ r.Matches v ∧ s.Matches w
  | .group r, u => r.Matches u

theorem matches_literal [DecidableEq α] {u v : List α} : (literal u).Matches v ↔ v = u := by
  induction u generalizing v with
  | nil => rfl
  | cons a u ih =>
    constructor
    · intro h
      obtain ⟨_, w, rfl, ⟨b, hb, rfl⟩, hw⟩ := h
      rw [ih.mp hw, of_decide_eq_true hb]
      rfl
    · intro h
      subst h
      exact ⟨[a], u, rfl, ⟨a, decide_eq_true rfl, rfl⟩, ih.mpr rfl⟩

theorem matches_plus {p : α → Bool} {u : List α} :
    (plus p).Matches u ↔ u ≠ [] ∧ ∀ a ∈ u, p a = true := by
  constructor
  · intro h
    obtain ⟨_, w, rfl, ⟨a, ha, rfl⟩, hw⟩ := h
    refine ⟨by simp, fun b hb => ?_⟩
    rcases List.mem_cons.mp hb with rfl | hb
    · exact ha
    · exact hw b hb
  · intro h
    obtain ⟨hne, hu⟩ := h
    obtain ⟨a, w, rfl⟩ := List.exists_cons_of_ne_nil hne
    exact ⟨[a], w, rfl, ⟨a, hu a List.mem_cons_self, rfl⟩,
      fun b hb => hu b (List.mem_cons_of_mem a hb)⟩

/-! ## The matcher -/

/-- What is left of the text, and what the group took. -/
structure Cursor (α : Type) where
  rest : List α
  group : Option (List α)
deriving DecidableEq

/-- Take characters of the class; give them back while `k` fails. -/
def greedy (p : α → Bool) (k : List α → Option β) : List α → Option β
  | [] => k []
  | a :: l => if p a then (greedy p k l).or (k (a :: l)) else k (a :: l)

/-- Match one character of the class. -/
def single (p : α → Bool) (k : List α → Option β) : List α → Option β
  | [] => none
  | a :: l => if p a then k l else none

def Pattern.run : Pattern α → (Cursor α → Option β) → Cursor α → Option β
  | .empty, k, c => k c
  | .char p, k, c => single p (fun l => k ⟨l, c.group⟩) c.rest
  | .star p, k, c => greedy p (fun l => k ⟨l, c.group⟩) c.rest
  | .seq r s, k, c => r.run (s.run k) c
  | .group r, k, c =>
    r.run (fun d => k ⟨d.rest, some (c.rest.take (c.rest.length - d.rest.length))⟩) c

/-- The match that starts in front of `l`. -/
def Pattern.matchAt (r : Pattern α) (l : List α) : Option (Cursor α) := r.run some ⟨l, none⟩

/-- The leftmost match in `l`. -/
def Pattern.search (r : Pattern α) : List α → Option (Cursor α)
  | [] => r.matchAt []
  | a :: l => (r.matchAt (a :: l)).or (r.search l)

theorem run_seq (r s : Pattern α) (k : Cursor α → Option β) :
    (Pattern.seq r s).run k = r.run (s.run k) := rfl

/-! ## Repetition -/

section Greedy
variable {p : α → Bool} {k : List α → Option β}

theorem greedy_sound {l : List α} {b : β} (h : greedy p k l = some b) :
    ∃ u v, l = u ++ v ∧ (∀ a ∈ u, p a = true) ∧ k v = some b := by
  induction l with
  | nil => exact ⟨[], [], rfl, by simp, h⟩
  | cons a l ih =>
    rw [greedy] at h
    by_cases ha : p a = true
    · rw [if_pos ha, Option.or_eq_some_iff] at h
      rcases h with h | ⟨-, h⟩
      · obtain ⟨u, v, rfl, hu, hv⟩ := ih h
        refine ⟨a :: u, v, rfl, fun b hb => ?_, hv⟩
        rcases List.mem_cons.mp hb with rfl | hb
        · exact ha
        · exact hu b hb
      · exact ⟨[], a :: l, rfl, by simp, h⟩
    · rw [if_neg ha] at h
      exact ⟨[], a :: l, rfl, by simp, h⟩

/-- Nothing is given back if what follows does not start with a character of the class. -/
theorem greedy_of_fails (hk : ∀ a l, p a = true → k (a :: l) = none) (l : List α) :
    greedy p k l = k (l.dropWhile p) := by
  induction l with
  | nil => rfl
  | cons a l ih =>
    rw [greedy]
    by_cases ha : p a = true
    · rw [if_pos ha, hk a l ha, Option.or_none, ih, List.dropWhile_cons_of_pos ha]
    · rw [if_neg ha, List.dropWhile_cons_of_neg ha]

/-- Nothing is given back if what follows matches at once. -/
theorem greedy_of_some {l : List α} {b : β} (h : k (l.dropWhile p) = some b) :
    greedy p k l = some b := by
  induction l with
  | nil => exact h
  | cons a l ih =>
    rw [greedy]
    by_cases ha : p a = true
    · rw [List.dropWhile_cons_of_pos ha] at h
      rw [if_pos ha, ih h, Option.some_or]
    · rw [List.dropWhile_cons_of_neg ha] at h
      rw [if_neg ha, h]

end Greedy

/-! ## Matches -/

/-- A match takes a text the pattern stands for. -/
theorem run_sound {r : Pattern α} {k : Cursor α → Option β} {c : Cursor α} {b : β}
    (h : r.run k c = some b) :
    ∃ u v g, c.rest = u ++ v ∧ r.Matches u ∧ k ⟨v, g⟩ = some b := by
  induction r generalizing k c b with
  | empty => exact ⟨[], c.rest, c.group, rfl, rfl, h⟩
  | char p =>
    rw [Pattern.run] at h
    cases hl : c.rest with
    | nil =>
      rw [hl] at h
      cases h
    | cons a l =>
      rw [hl, single] at h
      by_cases ha : p a = true
      · rw [if_pos ha] at h
        exact ⟨[a], l, c.group, rfl, ⟨a, ha, rfl⟩, h⟩
      · rw [if_neg ha] at h
        cases h
  | star p =>
    obtain ⟨u, v, hl, hu, hv⟩ := greedy_sound h
    exact ⟨u, v, c.group, hl, hu, hv⟩
  | seq r s ihr ihs =>
    obtain ⟨u, v, g, hl, hu, hv⟩ := ihr h
    obtain ⟨w, x, g', hx, hw, hk⟩ := ihs hv
    exact ⟨u ++ w, x, g', by rw [hl, List.append_assoc]; exact congrArg _ hx,
      ⟨u, w, rfl, hu, hw⟩, hk⟩
  | group r ih =>
    obtain ⟨u, v, g, hl, hu, hv⟩ := ih h
    exact ⟨u, v, _, hl, hu, hv⟩

/-- One character that has to be there, and then as many as possible. -/
theorem run_plus_cons {p : α → Bool} {a : α} (ha : p a = true) (l : List α)
    (k : Cursor α → Option β) (g : Option (List α)) :
    (plus p).run k ⟨a :: l, g⟩ = (Pattern.star p).run k ⟨l, g⟩ := by
  rw [plus, run_seq, Pattern.run, single, if_pos ha]

/-- A literal in front of the text is taken. -/
theorem run_literal_append [DecidableEq α] (u v : List α) (k : Cursor α → Option β)
    (g : Option (List α)) : (literal u).run k ⟨u ++ v, g⟩ = k ⟨v, g⟩ := by
  induction u with
  | nil => rfl
  | cons a u ih =>
    rw [literal, run_seq, Pattern.run, List.cons_append, single, if_pos (decide_eq_true rfl)]
    exact ih

/-- A literal does not match where another character stands for its first. -/
theorem run_literal_of_ne [DecidableEq α] {p : α → Bool} {a : α} {u : List α} (ha : p a = true)
    (hu : u.head?.map p = some false) (l : List α) (k : Cursor α → Option β)
    (g : Option (List α)) : (literal u).run k ⟨a :: l, g⟩ = none := by
  cases u with
  | nil => cases hu
  | cons b u =>
    have hne : ¬ a = b := by
      intro hab
      subst hab
      simp [ha] at hu
    rw [literal, run_seq, Pattern.run, single, if_neg (by simpa using hne)]

/-- A class in front of a literal that starts with another character is skipped. -/
theorem run_star_literal [DecidableEq α] {p : α → Bool} {u : List α}
    (hu : u.head?.map p = some false) (l : List α) (k : Cursor α → Option β)
    (g : Option (List α)) :
    (Pattern.star p).run ((literal u).run k) ⟨l, g⟩ = (literal u).run k ⟨l.dropWhile p, g⟩ :=
  greedy_of_fails (fun _ l ha => run_literal_of_ne ha hu l k g) l

/-- A group around a repetition takes all of it. -/
theorem run_group_plus {p : α → Bool} {a : α} (ha : p a = true) (l : List α)
    (g : Option (List α)) : (Pattern.group (plus p)).run some ⟨a :: l, g⟩
      = some ⟨l.dropWhile p, some (a :: l.takeWhile p)⟩ := by
  have htake : (a :: l).take ((a :: l).length - (l.dropWhile p).length) = a :: l.takeWhile p := by
    have hsplit := congrArg List.length (List.takeWhile_append_dropWhile (p := p) (l := l))
    rw [List.length_append] at hsplit
    rw [List.length_cons, show l.length + 1 - (l.dropWhile p).length
      = (l.takeWhile p).length + 1 by omega, List.take_succ_cons]
    exact congrArg _ (List.prefix_iff_eq_take.mp (List.takeWhile_prefix p)).symm
  rw [Pattern.run, run_plus_cons ha]
  refine greedy_of_some ?_
  dsimp only
  rw [htake]

/-! ## Search -/

theorem search_eq_some {r : Pattern α} {l : List α} {c : Cursor α} :
    r.search l = some c ↔ ∃ i, i ≤ l.length ∧ r.matchAt (l.drop i) = some c ∧
      ∀ j, j < i → r.matchAt (l.drop j) = none := by
  induction l with
  | nil =>
    constructor
    · exact fun h => ⟨0, le_refl 0, h, fun j hj => by omega⟩
    · intro h
      obtain ⟨i, -, hi, -⟩ := h
      rwa [List.drop_nil] at hi
  | cons a l ih =>
    rw [Pattern.search, Option.or_eq_some_iff, ih]
    constructor
    · intro h
      rcases h with h | ⟨hnone, i, hi, hmatch, hbefore⟩
      · exact ⟨0, Nat.zero_le _, h, fun j hj => by omega⟩
      · refine ⟨i + 1, Nat.succ_le_succ hi, hmatch, fun j hj => ?_⟩
        cases j with
        | zero => exact hnone
        | succ j => exact hbefore j (by omega)
    · intro h
      obtain ⟨i, hi, hmatch, hbefore⟩ := h
      cases i with
      | zero => exact Or.inl hmatch
      | succ i => exact Or.inr ⟨hbefore 0 (by omega), i, Nat.le_of_succ_le_succ hi, hmatch,
          fun j hj => hbefore (j + 1) (by omega)⟩

theorem search_eq_none {r : Pattern α} {l : List α}
    (h : ∀ i, i ≤ l.length → r.matchAt (l.drop i) = none) : r.search l = none := by
  cases hs : r.search l with
  | none => rfl
  | some c =>
    obtain ⟨i, hi, hmatch, -⟩ := search_eq_some.mp hs
    rw [h i hi] at hmatch
    cases hmatch

end Regex
