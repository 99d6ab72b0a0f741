/-! Runs of characters of one kind. A reader that goes on as long as the characters are of its kind takes a whole run
and nothing else, where what follows begins with a character of another kind. -/

namespace BracketTree.Text
variable {p : Char → Bool} {cs rest : List Char}

/-- Where a run cannot go on. -/
def Ends (p : Char → Bool) (rest : List Char) : Prop := ∀ c ∈ rest.head?, p c = false

theorem ends_nil : Ends p [] := by
  intro c hc
  cases hc

theorem ends_cons {c : Char} (h : p c = false) (cs : List Char) : Ends p (c :: cs) := by
  rintro d ⟨⟩
  exact h

theorem takeWhile_of_ends (h : Ends p rest) : rest.takeWhile p = [] := by
  cases rest with
  | nil => rfl
  | cons c rest => rw [List.takeWhile_cons_of_neg (by simp [h c rfl])]

theorem dropWhile_of_ends (h : Ends p rest) : rest.dropWhile p = rest := by
  cases rest with
  | nil => rfl
  | cons c rest => rw [List.dropWhile_cons_of_neg (by simp [h c rfl])]

theorem takeWhile_run (hp : ∀ c ∈ cs, p c = true) (h : Ends p rest) : (cs ++ rest).takeWhile p = cs := by
  rw [List.takeWhile_append_of_pos hp, takeWhile_of_ends h, List.append_nil]

theorem dropWhile_run (hp : ∀ c ∈ cs, p c = true) (h : Ends p rest) : (cs ++ rest).dropWhile p = rest := by
  rw [List.dropWhile_append_of_pos hp, dropWhile_of_ends h]

/-- A run shows where it ends. -/
theorem run_append_inj {ds rest' : List Char} (hc : ∀ c ∈ cs, p c = true) (hd : ∀ d ∈ ds, p d = true)
    (hr : Ends p rest) (hr' : Ends p rest') (h : cs ++ rest = ds ++ rest') : cs = ds ∧ rest = rest' := by
  have hrun := congrArg (List.takeWhile p) h
  rw [takeWhile_run hc hr, takeWhile_run hd hr'] at hrun
  subst hrun
  exact ⟨rfl, List.append_cancel_left h⟩

end BracketTree.Text
