import Mathlib

/-!
# Proofs/Text/Runs — the longest run of a class of characters

A text falls apart in one way only into a run of characters of a class and a rest that does not go
on with one (`takeWhile_append_of_stops`, `dropWhile_append_of_stops`).
-/

namespace SceneText

variable {is : Char → Bool} {w s : List Char}

/-- A text does not go on with a character of a class: it is over, or its next character is not of
the class. -/
def Stops (is : Char → Bool) (s : List Char) : Prop := ∀ c ∈ s.head?, is c = false

@[simp] theorem stops_nil : Stops is [] := by simp [Stops]

@[simp] theorem stops_cons {c : Char} : Stops is (c :: s) ↔ is c = false := by simp [Stops]

theorem stops_dropWhile (is : Char → Bool) (s : List Char) : Stops is (s.dropWhile is) := by
  intro c hc
  have := List.head?_dropWhile_not is s
  rw [hc] at this
  simpa using this

/-- A run of characters of a class, of one at least. -/
def IsRun (is : Char → Bool) (w : List Char) : Prop := w ≠ [] ∧ ∀ c ∈ w, is c

theorem forall_eq_false_of_all (h : w.all (!is ·) = true) : ∀ c ∈ w, is c = false :=
  fun c hc => by simpa using List.all_eq_true.1 h c hc

theorem isRun_of_all (hne : w.isEmpty = false) (h : w.all is = true) : IsRun is w :=
  ⟨by simpa using hne, List.all_eq_true.1 h⟩

theorem IsRun.mono {is' : Char → Bool} (hw : IsRun is w) (h : ∀ c, is c → is' c) : IsRun is' w :=
  ⟨hw.1, fun c hc => h c (hw.2 c hc)⟩

/-- What starts with a run of one class does not go on with another. -/
theorem IsRun.stops {is' : Char → Bool} (hw : IsRun is' w) (h : ∀ c, is' c → is c = false)
    (s : List Char) : Stops is (w ++ s) := by
  cases w with
  | nil => exact absurd rfl hw.1
  | cons c w => exact stops_cons.2 (h c (hw.2 c List.mem_cons_self))

/-- What starts with a run goes on with it. -/
theorem IsRun.not_stops (hw : IsRun is w) (s : List Char) : ¬ Stops is (w ++ s) := by
  intro h
  cases w with
  | nil => exact hw.1 rfl
  | cons c w =>
    have hc := hw.2 c List.mem_cons_self
    rw [List.cons_append, stops_cons, hc] at h
    cases h

theorem takeWhile_of_stops (h : Stops is s) : s.takeWhile is = [] := by
  cases s with
  | nil => rfl
  | cons c s => exact List.takeWhile_cons_of_neg (by simpa using stops_cons.1 h)

theorem dropWhile_of_stops (h : Stops is s) : s.dropWhile is = s := by
  cases s with
  | nil => rfl
  | cons c s => exact List.dropWhile_cons_of_neg (by simpa using stops_cons.1 h)

/-- **A run is taken to its end.** -/
theorem takeWhile_append_of_stops (hw : ∀ c ∈ w, is c) (h : Stops is s) :
    (w ++ s).takeWhile is = w := by
  rw [List.takeWhile_append_of_pos hw, takeWhile_of_stops h, List.append_nil]

/-- **What is left is the rest.** -/
theorem dropWhile_append_of_stops (hw : ∀ c ∈ w, is c) (h : Stops is s) :
    (w ++ s).dropWhile is = s := by
  rw [List.dropWhile_append_of_pos hw, dropWhile_of_stops h]

/-- A text that goes on neither with a class nor without it is over. -/
theorem eq_nil_of_stops (h : Stops is s) (h' : Stops (!is ·) s) : s = [] := by
  cases s with
  | nil => rfl
  | cons c s =>
    have hc := stops_cons.1 h'
    rw [stops_cons.1 h] at hc
    cases hc

theorem of_mem_takeWhile {c : Char} (h : c ∈ s.takeWhile is) : is c := by
  have := List.all_takeWhile (l := s) (p := is)
  exact List.all_eq_true.1 this c h

/-- A run of a smaller class does not matter to one of a larger. -/
theorem dropWhile_dropWhile {is' : Char → Bool} (h : ∀ c, is c → is' c) (s : List Char) :
    (s.dropWhile is).dropWhile is' = s.dropWhile is' := by
  conv_rhs => rw [← List.takeWhile_append_dropWhile (p := is) (l := s)]
  rw [List.dropWhile_append_of_pos fun c hc => h c (of_mem_takeWhile hc)]

theorem isRun_takeWhile (h : ¬ Stops is s) : IsRun is (s.takeWhile is) := by
  refine ⟨fun hnil => h ?_, fun c => of_mem_takeWhile⟩
  have hdrop := stops_dropWhile is s
  rwa [← List.takeWhile_append_dropWhile (p := is) (l := s), hnil, List.nil_append]

end SceneText
