import BracketTree.StringMap

/-! Looking up in a map. A key is what has a value, and what a key is sent to is among the values. A map is put
together again from its entries, and the map of a list without repeated keys has the entries of the list. Where a list
repeats a key, the last value counts. -/

namespace BracketTree.StringMap
variable {α : Type}

theorem contains_eq_isSome (m : StringMap α) (k : String) : m.contains k = (m.find? k).isSome := by
  rw [contains, find?, Option.isSome_map, List.isSome_find?]

theorem contains_eq_false_iff (m : StringMap α) (k : String) : m.contains k = false ↔ m.find? k = none := by
  rw [contains_eq_isSome, Option.isSome_eq_false_iff, Option.isNone_iff_eq_none]

theorem contains_of_find? {m : StringMap α} {k : String} {v : α} (h : m.find? k = some v) :
    m.contains k = true := by
  rw [contains_eq_isSome, h]; rfl

theorem mem_values_of_find? {m : StringMap α} {k : String} {v : α} (h : m.find? k = some v) :
    v ∈ m.values := by
  obtain ⟨e, he, rfl⟩ := Option.map_eq_some_iff.1 h
  exact List.mem_map_of_mem (List.mem_of_find?_eq_some he)

theorem insertEntry_of_lt {k : String} {v : α} {es : List (String × α)} (h : ∀ e ∈ es, e.1 < k) :
    insertEntry k v es = es ++ [(k, v)] := by
  induction es with
  | nil => rfl
  | cons e es ih =>
    have he := h e List.mem_cons_self
    have hne : k ≠ e.1 := by
      rintro rfl
      exact String.lt_irrefl _ he
    rw [insertEntry, if_neg (String.lt_asymm he), if_neg hne, ih fun d hd => h d (List.mem_cons_of_mem e hd)]
    rfl

theorem entries_foldl_insert {es : List (String × α)} {m : StringMap α}
    (h : (m.entries ++ es).Pairwise fun a b => a.1 < b.1) :
    (es.foldl (fun m e => m.insert e.1 e.2) m).entries = m.entries ++ es := by
  induction es generalizing m with
  | nil => exact (List.append_nil _).symm
  | cons e es ih =>
    have hlt : ∀ d ∈ m.entries, d.1 < e.1 := fun d hd => (List.pairwise_append.1 h).2.2 d hd e List.mem_cons_self
    have he : (m.insert e.1 e.2).entries = m.entries ++ [e] := insertEntry_of_lt hlt
    rw [List.append_cons, ← he] at h
    rw [List.foldl_cons, ih h, he, ← List.append_cons]

theorem eq_of_entries {m n : StringMap α} (h : m.entries = n.entries) : m = n := by
  cases m
  cases n
  cases h
  rfl

theorem ofList_entries (m : StringMap α) : ofList m.entries = m :=
  eq_of_entries (entries_foldl_insert (m := ∅) m.sorted)

theorem find?_eq_some_of_mem {m : StringMap α} {k : String} {v : α} (h : (k, v) ∈ m.entries) :
    m.find? k = some v := by
  obtain ⟨es, hs⟩ := m
  unfold find?
  dsimp only at h ⊢
  induction es with
  | nil => cases h
  | cons e es ih =>
    obtain ⟨he, hes⟩ := List.pairwise_cons.1 hs
    rcases List.mem_cons.1 h with rfl | h
    · simp
    · have hne : e.1 ≠ k := String.ne_of_lt (he _ h)
      rw [List.find?_cons_of_neg (by simpa using hne)]
      exact ih hes h

theorem mem_of_find?_eq_some {m : StringMap α} {k : String} {v : α} (h : m.find? k = some v) :
    (k, v) ∈ m.entries := by
  obtain ⟨e, he, rfl⟩ := Option.map_eq_some_iff.1 h
  have hk : e.1 = k := by simpa using List.find?_some he
  rw [← hk]
  exact List.mem_of_find?_eq_some he

theorem find?_eq_some_iff {m : StringMap α} {k : String} {v : α} : m.find? k = some v ↔ (k, v) ∈ m.entries :=
  ⟨mem_of_find?_eq_some, find?_eq_some_of_mem⟩

theorem nodup_keys (m : StringMap α) : (m.entries.map (·.1)).Nodup :=
  List.pairwise_map.2 (m.sorted.imp fun hlt => String.ne_of_lt hlt)

theorem nodup_entries (m : StringMap α) : m.entries.Nodup :=
  (List.pairwise_map.1 m.nodup_keys).imp fun hne heq => hne (congrArg (·.1) heq)

/-- A map is determined by what is looked up in it. -/
theorem eq_of_find?_eq {m n : StringMap α} (h : ∀ k, m.find? k = n.find? k) : m = n := by
  have hmem : ∀ e, e ∈ m.entries ↔ e ∈ n.entries := by
    intro e
    rw [← find?_eq_some_iff, ← find?_eq_some_iff, h]
  have hp := (List.perm_ext_iff_of_nodup m.nodup_entries n.nodup_entries).2 hmem
  refine eq_of_entries (hp.eq_of_pairwise ?_ m.sorted n.sorted)
  intro a b _ _ hab hba
  exact absurd hba (String.lt_asymm hab)

/-- The values that a list has for a key, in order. -/
def valuesFor (es : List (String × α)) (k : String) : List α := (es.filter fun e => e.1 = k).map (·.2)

theorem valuesFor_cons (e : String × α) (es : List (String × α)) (k : String) :
    valuesFor (e :: es) k = if e.1 = k then e.2 :: valuesFor es k else valuesFor es k := by
  unfold valuesFor
  by_cases h : e.1 = k <;> simp [h]

theorem valuesFor_append (es ds : List (String × α)) (k : String) :
    valuesFor (es ++ ds) k = valuesFor es k ++ valuesFor ds k := by
  simp [valuesFor]

theorem find?_insertEntry (k : String) (v : α) (es : List (String × α)) (s : String) :
    (insertEntry k v es).find? (fun e => e.1 == s) = if k = s then some (k, v) else es.find? fun e => e.1 == s := by
  induction es with
  | nil => by_cases h : k = s <;> simp [insertEntry, h]
  | cons e es ih =>
    rw [insertEntry]
    split
    · by_cases h : k = s <;> simp [h]
    · split
      · rename_i hk
        by_cases h : k = s
        · simp [h]
        · have he : e.1 ≠ s := hk ▸ h
          simp [h, he]
      · rename_i hk
        by_cases he : e.1 = s
        · have h : k ≠ s := fun hks => hk (hks.trans he.symm)
          simp [he, h]
        · simp [he, ih]

theorem find?_insert (m : StringMap α) (k : String) (v : α) (s : String) :
    (m.insert k v).find? s = if k = s then some v else m.find? s := by
  unfold find? insert
  dsimp only
  rw [find?_insertEntry]
  split <;> rfl

theorem find?_foldl_insert (es : List (String × α)) (m : StringMap α) (k : String) :
    (es.foldl (fun m e => m.insert e.1 e.2) m).find? k = (valuesFor es k).getLast?.or (m.find? k) := by
  induction es generalizing m with
  | nil => rfl
  | cons e es ih =>
    rw [List.foldl_cons, ih, find?_insert, valuesFor_cons]
    split
    · rw [List.getLast?_cons]
      cases (valuesFor es k).getLast? <;> rfl
    · rfl

/-- The last value for a key counts. -/
theorem find?_ofList (es : List (String × α)) (k : String) : (ofList es).find? k = (valuesFor es k).getLast? :=
  (find?_foldl_insert es ∅ k).trans (Option.or_none)

theorem ofList_congr {es ds : List (String × α)} (h : ∀ k, valuesFor es k = valuesFor ds k) :
    ofList es = ofList ds := by
  apply eq_of_find?_eq
  intro k
  rw [find?_ofList, find?_ofList, h]

/-- In what order different keys come makes no difference to the values for any of them. -/
theorem valuesFor_eq_of_perm {es ds : List (String × α)} (h : es.Perm ds) (hnodup : (es.map (·.1)).Nodup)
    (k : String) : valuesFor es k = valuesFor ds k := by
  have hes : es.Pairwise fun a b => a.1 ≠ b.1 := List.pairwise_map.1 hnodup
  have hds : ds.Pairwise fun a b => a.1 ≠ b.1 := List.pairwise_map.1 ((h.map _).nodup_iff.1 hnodup)
  refine congrArg (List.map (·.2)) ((h.filter _).eq_of_pairwise ?_ (hes.filter _) (hds.filter _))
  intro a b ha hb hab
  simp only [List.mem_filter, decide_eq_true_eq] at ha hb
  exact absurd (ha.2.trans hb.2.symm) hab

theorem ofList_of_perm {m : StringMap α} {es : List (String × α)} (h : es.Perm m.entries) : ofList es = m := by
  have hnodup : (es.map (·.1)).Nodup := (h.map _).nodup_iff.2 m.nodup_keys
  rw [ofList_congr (valuesFor_eq_of_perm h hnodup), ofList_entries]

end BracketTree.StringMap
