import BracketTree.Proofs.Simulation

/-! Which trees grouping makes. When no opening and no closing token is left out, each group begins with the
token that opened it and has its closing token at its end or nowhere, and a group that lacks it is the last thing
in the group around it. -/

namespace BracketTree.Grouping

/-- The children of a group: the token `o` that opened it, and then `rest`, with the closing token `c` at the end
if it is there. A token that closes its own group stands alone in it. -/
structure Shape (bounds : StringMap String) (o c : String) (rest : List Node) : Prop where
  opens : bounds.find? o = some c
  not_key : ∀ s, .leaf s ∈ rest → bounds.contains s = false
  alone : c = o → rest = []
  closer_last : c ≠ o → .leaf c ∉ (Node.leaf o :: rest).dropLast

/-- Whether a node is complete: a leaf, or a group with its closing token at the end. -/
def HasEnded (bounds : StringMap String) : Node → Prop
  | .leaf _ => True
  | .group xs => ∃ o c, xs.head? = some (.leaf o) ∧ bounds.find? o = some c ∧ xs.getLast? = some (.leaf c)

mutual
def FormedNode (g : Grouping) : Node → Prop
  | .leaf s => s ≠ "" ∧ s ∉ g.strip
  | .group xs => (∃ o c rest, xs = .leaf o :: rest ∧ Shape g.bounds o c rest) ∧ FormedRow g xs

/-- The rows of nodes that grouping makes; only the last node may lack its end. -/
def FormedRow (g : Grouping) : List Node → Prop
  | [] => True
  | x :: xs => FormedNode g x ∧ (xs ≠ [] → HasEnded g.bounds x) ∧ FormedRow g xs
end

def WellFormed (g : Grouping) (t : Tree) : Prop :=
  (∀ s, .leaf s ∈ t → g.bounds.contains s = false) ∧ FormedRow g t

theorem formedRow_iff {g : Grouping} {xs : List Node} :
    FormedRow g xs ↔ (∀ x ∈ xs, FormedNode g x) ∧ ∀ x ∈ xs.dropLast, HasEnded g.bounds x := by
  induction xs with
  | nil => simp [FormedRow]
  | cons x xs ih =>
    cases xs with
    | nil => simp [FormedRow]
    | cons y ys =>
      rw [FormedRow, ih, List.dropLast_cons_of_ne_nil (List.cons_ne_nil y ys)]
      simp only [List.forall_mem_cons, ne_eq, reduceCtorEq, not_false_eq_true, forall_const]
      constructor
      · rintro ⟨hx, he, hf, hd⟩
        exact ⟨⟨hx, hf⟩, he, hd⟩
      · rintro ⟨⟨hx, hf⟩, he, hd⟩
        exact ⟨hx, he, hf, hd⟩

/-- The closing token of a group stands at its end, and then only there, or the group lacks its end. -/
theorem Shape.ended_or {bounds : StringMap String} {o c : String} {rest : List Node}
    (h : Shape bounds o c rest) (hne : c ≠ o) :
    (∃ row, rest = row ++ [.leaf c] ∧ .leaf c ∉ row) ∨
      (.leaf c ∉ rest ∧ ¬ HasEnded bounds (.group (.leaf o :: rest))) := by
  have hlast := h.closer_last hne
  rcases List.eq_nil_or_concat rest with rfl | ⟨row, y, rfl⟩
  · refine .inr ⟨List.not_mem_nil, ?_⟩
    rintro ⟨o', c', ho, hc, hl⟩
    obtain rfl : o = o' := Node.leaf.inj (Option.some.inj ho)
    obtain rfl : c = c' := Option.some.inj (h.opens.symm.trans hc)
    exact hne (Node.leaf.inj (Option.some.inj hl)).symm
  rw [List.concat_eq_append] at *
  rw [← List.cons_append, List.dropLast_concat] at hlast
  have hrow : .leaf c ∉ row := fun hm => hlast (List.mem_cons_of_mem _ hm)
  by_cases hy : y = .leaf c
  · subst hy
    exact .inl ⟨row, rfl, hrow⟩
  · refine .inr ⟨?_, ?_⟩
    · intro hm
      rcases List.mem_append.1 hm with hm | hm
      · exact hrow hm
      · exact hy (List.mem_singleton.1 hm).symm
    · rintro ⟨o', c', ho, hc, hl⟩
      obtain rfl : o = o' := Node.leaf.inj (Option.some.inj ho)
      obtain rfl : c = c' := Option.some.inj (h.opens.symm.trans hc)
      rw [← List.cons_append, List.getLast?_concat] at hl
      exact hy (Option.some.inj hl)

/-! The form of the groups around a cursor. -/

/-- The nodes, last first, of a group that has not ended: its opening token, and then neither opening tokens nor
its closing token. Outside all groups there is just no opening token. -/
def Begun (bounds : StringMap String) (here : List Node) : Option Opening → Prop
  | none => ∀ s, .leaf s ∈ here → bounds.contains s = false
  | some o => ∃ row, here = row ++ [.leaf o.token] ∧ bounds.find? o.token = some o.closer ∧
      o.closer ≠ o.token ∧ ∀ s, .leaf s ∈ row → bounds.contains s = false ∧ s ≠ o.closer

/-- The nodes of a group that has not ended, as they are while none of the groups inside is open. -/
structure Level (g : Grouping) (here : List Node) (o : Option Opening) : Prop where
  begun : Begun g.bounds here o
  formed : ∀ x ∈ here, FormedNode g x
  ended : ∀ x ∈ here, HasEnded g.bounds x

def Outside (g : Grouping) : List (Opening × List Node) → Prop
  | [] => True
  | (_, before) :: around => Level g before (around.head?.map (·.1)) ∧ Outside g around

/-- What holds of a cursor whenever it has taken in some pieces. -/
structure Cursor.Sound (g : Grouping) (c : Cursor) : Prop where
  level : Level g c.here (c.around.head?.map (·.1))
  outside : Outside g c.around

section
variable {g : Grouping} {here : List Node} {o : Opening} {oo : Option Opening}

theorem Begun.cons (h : Begun g.bounds here oo) {x : Node}
    (hx : ∀ s, x = .leaf s → g.bounds.contains s = false ∧ ∀ o, oo = some o → s ≠ o.closer) :
    Begun g.bounds (x :: here) oo := by
  cases oo with
  | none =>
    intro s hs
    rcases List.mem_cons.1 hs with hs | hs
    · exact (hx s hs.symm).1
    · exact h s hs
  | some o =>
    obtain ⟨row, rfl, hf, hne, hrow⟩ := h
    refine ⟨x :: row, rfl, hf, hne, fun s hs => ?_⟩
    rcases List.mem_cons.1 hs with hs | hs
    · exact ⟨(hx s hs.symm).1, (hx s hs.symm).2 o rfl⟩
    · exact hrow s hs

theorem Level.cons (h : Level g here oo) {x : Node} (hf : FormedNode g x) (he : HasEnded g.bounds x)
    (hx : ∀ s, x = .leaf s → g.bounds.contains s = false ∧ ∀ o, oo = some o → s ≠ o.closer) :
    Level g (x :: here) oo where
  begun := h.begun.cons hx
  formed := List.forall_mem_cons.2 ⟨hf, h.formed⟩
  ended := List.forall_mem_cons.2 ⟨he, h.ended⟩

theorem Begun.formed_group (h : Begun g.bounds here (some o)) (hf : ∀ x ∈ here, FormedNode g x)
    (he : ∀ x ∈ here.tail, HasEnded g.bounds x) : FormedNode g (.group here.reverse) := by
  obtain ⟨row, rfl, ho, hne, hrow⟩ := h
  refine ⟨⟨o.token, o.closer, row.reverse, by simp, ho, fun s hs => (hrow s (List.mem_reverse.1 hs)).1,
    fun hc => absurd hc hne, fun _ hc => ?_⟩, formedRow_iff.2 ⟨?_, ?_⟩⟩
  · rcases List.mem_cons.1 (List.dropLast_subset _ hc) with hc | hc
    · exact hne (Node.leaf.inj hc)
    · exact (hrow _ (List.mem_reverse.1 hc)).2 rfl
  · exact fun x hx => hf x (List.mem_reverse.1 hx)
  · rw [List.dropLast_reverse]
    exact fun x hx => he x (List.mem_reverse.1 hx)

theorem Level.ended_group (h : Level g here (some o)) (hn : g.bounds.contains o.closer = false)
    (hc : FormedNode g (.leaf o.closer)) :
    FormedNode g (.group (.leaf o.closer :: here).reverse) ∧
      HasEnded g.bounds (.group (.leaf o.closer :: here).reverse) := by
  obtain ⟨⟨row, rfl, ho, hne, hrow⟩, hf, he⟩ := h
  refine ⟨⟨⟨o.token, o.closer, row.reverse ++ [.leaf o.closer], by simp, ho, fun s hs => ?_,
    fun hc => absurd hc hne, fun _ hc => ?_⟩, formedRow_iff.2 ⟨?_, ?_⟩⟩, o.token, o.closer, by simp, ho,
    List.getLast?_reverse⟩
  · rcases List.mem_append.1 hs with hs | hs
    · exact (hrow s (List.mem_reverse.1 hs)).1
    · obtain rfl : s = o.closer := Node.leaf.inj (List.mem_singleton.1 hs)
      exact hn
  · rw [← List.cons_append, List.dropLast_concat] at hc
    rcases List.mem_cons.1 hc with hc | hc
    · exact hne (Node.leaf.inj hc)
    · exact (hrow _ (List.mem_reverse.1 hc)).2 rfl
  · exact fun x hx => List.forall_mem_cons.2 ⟨hc, hf⟩ x (List.mem_reverse.1 hx)
  · rw [List.dropLast_reverse]
    exact fun x hx => he x (List.mem_reverse.1 hx)

/-- When every group is ended from the inside out, the last node of each level may lack its end. -/
theorem wellFormed_foldl_wrap {around : List (Opening × List Node)}
    (hb : Begun g.bounds here (around.head?.map (·.1))) (hf : ∀ x ∈ here, FormedNode g x)
    (he : ∀ x ∈ here.tail, HasEnded g.bounds x) (ho : Outside g around) :
    WellFormed g (around.foldl Cursor.wrap here).reverse := by
  induction around generalizing here with
  | nil =>
    refine ⟨fun s hs => hb s (List.mem_reverse.1 hs), formedRow_iff.2 ⟨?_, ?_⟩⟩
    · exact fun x hx => hf x (List.mem_reverse.1 hx)
    · rw [List.dropLast_reverse]
      exact fun x hx => he x (List.mem_reverse.1 hx)
  | cons l around ih =>
    obtain ⟨hl, ho⟩ := ho
    refine ih (hl.begun.cons fun s hs => by cases hs) ?_ hl.ended ho
    exact List.forall_mem_cons.2 ⟨hb.formed_group hf he, hl.formed⟩

theorem Cursor.Sound.wellFormed {c : Cursor} (h : c.Sound g) : WellFormed g c.tree :=
  wellFormed_foldl_wrap h.level.begun h.level.formed (fun x hx => h.level.ended x (List.mem_of_mem_tail hx))
    h.outside

end

/-! Grouping keeps the form. -/

theorem Cursor.Sound.init (g : Grouping) : Cursor.Sound g {} where
  level := ⟨fun _ hs => absurd hs List.not_mem_nil, fun _ hx => absurd hx List.not_mem_nil,
    fun _ hx => absurd hx List.not_mem_nil⟩
  outside := trivial

section
variable {g : Grouping} {c : Cursor}

theorem Cursor.Sound.step (h : c.Sound g)
    (hs : ∀ t ∈ g.strip, g.bounds.contains t = false ∧ t ∉ g.bounds.values) (p : Piece) :
    (c.step g p).Sound g := by
  by_cases he : p.text = ""
  · rwa [c.step_empty he]
  cases hf : g.bounds.find? p.text with
  | some closer =>
    have hk : p.text ∉ g.strip := by
      intro hm
      have hc := (hs _ hm).1
      rw [StringMap.contains_of_find? hf] at hc
      cases hc
    have hleaf : FormedNode g (.leaf p.text) := ⟨he, hk⟩
    by_cases hne : closer = p.text
    · subst hne
      rw [c.step_self he hf, kept_of_not_mem hk]
      have hform : FormedNode g (.group [.leaf p.text]) :=
        ⟨⟨_, _, [], rfl, hf, fun _ hm => absurd hm List.not_mem_nil, fun _ => rfl, fun hm => absurd rfl hm⟩,
          formedRow_iff.2 ⟨by simpa using hleaf, by simp⟩⟩
      exact ⟨h.level.cons hform ⟨_, _, rfl, hf, rfl⟩ (fun s hm => by cases hm), h.outside⟩
    · rw [c.step_open he hf hne, kept_of_not_mem hk]
      exact ⟨⟨⟨[], rfl, hf, hne, fun _ hm => absurd hm List.not_mem_nil⟩, by simpa using hleaf,
        by simp [HasEnded]⟩, h.level, h.outside⟩
  | none =>
    have hn := (StringMap.contains_eq_false_iff _ _).2 hf
    cases ha : c.awaits p.text with
    | true =>
      obtain ⟨o, before, around, hc, ho⟩ := Cursor.awaits_iff.1 ha
      obtain ⟨here, _⟩ := c
      subst hc
      rw [← ho] at hn he
      obtain ⟨row, -, hof, -⟩ := h.level.begun
      have hk : o.closer ∉ g.strip := fun hm => (hs _ hm).2 (StringMap.mem_values_of_find? hof)
      rw [Cursor.step_close _ (ho ▸ he) hf ha, ← ho, kept_of_not_mem hk]
      obtain ⟨hform, hend⟩ := Level.ended_group h.level hn ⟨he, hk⟩
      exact ⟨h.outside.1.cons hform hend (fun s hm => by cases hm), h.outside.2⟩
    | false =>
      rw [c.step_plain he hf ha]
      by_cases hk : p.text ∈ g.strip
      · rwa [kept_of_mem hk]
      · rw [kept_of_not_mem hk]
        refine ⟨h.level.cons ⟨he, hk⟩ trivial fun s hm => ?_, h.outside⟩
        obtain rfl := Node.leaf.inj hm
        refine ⟨hn, fun o ho hc => ?_⟩
        obtain ⟨l, hl, rfl⟩ := Option.map_eq_some_iff.1 ho
        simp [Cursor.awaits, hl, hc] at ha

theorem Cursor.Sound.foldl (h : c.Sound g)
    (hs : ∀ t ∈ g.strip, g.bounds.contains t = false ∧ t ∉ g.bounds.values) (ps : List Piece) :
    (ps.foldl (Cursor.step g) c).Sound g := by
  induction ps generalizing c with
  | nil => exact h
  | cons p ps ih => exact ih (h.step hs p)

end

theorem wellFormed_group {g : Grouping}
    (hs : ∀ t ∈ g.strip, g.bounds.contains t = false ∧ t ∉ g.bounds.values) (ps : List Piece) :
    WellFormed g (g.group ps) := by
  rw [group_eq]
  exact ((Cursor.Sound.init g).foldl hs ps).wellFormed

end BracketTree.Grouping
