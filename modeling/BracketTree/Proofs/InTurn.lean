/-! Results that are found in turn and put together in order. If all turn out well they are what is found for each item
by itself; otherwise the error is that of the first item for which there is one. -/

namespace BracketTree
variable {α β ε : Type} {f : α → Except ε β} {xs : List α}

theorem mapM_eq_ok_iff {ys : List β} : xs.mapM f = .ok ys ↔ xs.map f = ys.map .ok := by
  induction xs generalizing ys with
  | nil => cases ys <;> simp [pure, Except.pure]
  | cons x xs ih =>
    rw [List.mapM_cons, List.map_cons]
    cases hx : f x with
    | error e => cases ys <;> simp [bind, Except.bind]
    | ok y =>
      cases hxs : xs.mapM f with
      | error e =>
        cases ys with
        | nil => simp [bind, Except.bind]
        | cons z ys => simp [bind, Except.bind, ← ih, hxs]
      | ok zs =>
        cases ys with
        | nil => simp [bind, Except.bind, pure, Except.pure]
        | cons z ys => simp [bind, Except.bind, pure, Except.pure, ← ih, hxs]

theorem mapM_eq_error_iff {e : ε} : xs.mapM f = .error e ↔
    ∃ before x after, xs = before ++ x :: after ∧ (∀ y ∈ before, ∃ z, f y = .ok z) ∧ f x = .error e := by
  induction xs with
  | nil => simp [pure, Except.pure]
  | cons x xs ih =>
    rw [List.mapM_cons]
    constructor
    · intro h
      cases hx : f x with
      | error d =>
        rw [hx] at h
        obtain rfl := Except.error.inj h
        exact ⟨[], x, xs, rfl, by simp, hx⟩
      | ok z =>
        cases hxs : xs.mapM f with
        | ok zs => rw [hx, hxs] at h; cases h
        | error d =>
          rw [hx, hxs] at h
          obtain rfl := Except.error.inj h
          obtain ⟨before, w, after, rfl, hbefore, hw⟩ := ih.1 hxs
          refine ⟨x :: before, w, after, rfl, ?_, hw⟩
          simp only [List.mem_cons, forall_eq_or_imp]
          exact ⟨⟨z, hx⟩, hbefore⟩
    · rintro ⟨before, w, after, hsplit, hbefore, hw⟩
      cases before with
      | nil =>
        obtain ⟨rfl, rfl⟩ := List.cons.inj hsplit
        rw [hw]
        rfl
      | cons y before =>
        obtain ⟨rfl, rfl⟩ := List.cons.inj hsplit
        simp only [List.mem_cons, forall_eq_or_imp] at hbefore
        obtain ⟨⟨z, hz⟩, hbefore⟩ := hbefore
        rw [hz, ih.2 ⟨before, w, after, rfl, hbefore, hw⟩]
        rfl

theorem exists_error_of_mapM {e : ε} (h : xs.mapM f = .error e) : ∃ x ∈ xs, f x = .error e := by
  obtain ⟨before, x, after, rfl, -, hx⟩ := mapM_eq_error_iff.1 h
  exact ⟨x, by simp, hx⟩

theorem exists_mapM_ok_iff : (∃ ys, xs.mapM f = .ok ys) ↔ ∀ x ∈ xs, ∃ y, f x = .ok y := by
  constructor
  · rintro ⟨ys, h⟩ x hx
    have hmem : f x ∈ ys.map .ok := mapM_eq_ok_iff.1 h ▸ List.mem_map_of_mem hx
    obtain ⟨y, -, hy⟩ := List.mem_map.1 hmem
    exact ⟨y, hy.symm⟩
  · intro h
    cases hm : xs.mapM f with
    | ok ys => exact ⟨ys, rfl⟩
    | error e =>
      obtain ⟨x, hx, he⟩ := exists_error_of_mapM hm
      obtain ⟨y, hy⟩ := h x hx
      rw [hy] at he
      cases he

/-- An item that is found goes with one of the items looked for. -/
theorem mem_of_mapM_ok {ys : List β} (h : xs.mapM f = .ok ys) {y : β} : y ∈ ys ↔ ∃ x ∈ xs, f x = .ok y := by
  have hmem : .ok y ∈ xs.map f ↔ .ok y ∈ (ys.map .ok : List (Except ε β)) := by rw [mapM_eq_ok_iff.1 h]
  simpa [eq_comm] using hmem.symm

end BracketTree
