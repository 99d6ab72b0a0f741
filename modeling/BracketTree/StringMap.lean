/-! Finite maps with string keys, kept as a list of entries whose keys strictly increase in the order of
code points. The list is determined by the look-ups, so equal maps are equal values, and going through the
entries goes through the keys in order. -/

namespace BracketTree

/-- A finite map from strings. -/
structure StringMap (α : Type) where
  entries : List (String × α) := []
  sorted : entries.Pairwise (fun a b => a.1 < b.1) := by exact List.Pairwise.nil
deriving DecidableEq

namespace StringMap
variable {α : Type}

instance : EmptyCollection (StringMap α) := ⟨{}⟩
instance : Inhabited (StringMap α) := ⟨∅⟩

/-- Puts an entry at its place in a sorted list, over an entry with the same key if there is one. -/
def insertEntry (k : String) (v : α) : List (String × α) → List (String × α)
  | [] => [(k, v)]
  | e :: es =>
    if k < e.1 then (k, v) :: e :: es
    else if k = e.1 then (k, v) :: es
    else e :: insertEntry k v es

theorem mem_insertEntry {k : String} {v : α} {e : String × α} {es : List (String × α)}
    (h : e ∈ insertEntry k v es) : e = (k, v) ∨ e ∈ es := by
  induction es with
  | nil => simpa [insertEntry] using h
  | cons d ds ih =>
    rw [insertEntry] at h
    split at h
    · simpa using h
    · split at h
      · simp only [List.mem_cons] at h ⊢; exact h.imp_right .inr
      · simp only [List.mem_cons] at h ⊢
        rcases h with h | h
        · exact .inr (.inl h)
        · exact (ih h).imp_right .inr

theorem lt_of_not_lt_of_ne {a b : String} (h : ¬ a < b) (hne : a ≠ b) : b < a :=
  Std.lt_of_le_of_ne (String.not_lt.1 h) (Ne.symm hne)

theorem pairwise_insertEntry (k : String) (v : α) {es : List (String × α)}
    (h : es.Pairwise (fun a b => a.1 < b.1)) : (insertEntry k v es).Pairwise (fun a b => a.1 < b.1) := by
  induction es with
  | nil => simp [insertEntry]
  | cons d ds ih =>
    have hd := List.pairwise_cons.1 h
    rw [insertEntry]
    split
    · rename_i hk
      refine List.pairwise_cons.2 ⟨fun e he => ?_, h⟩
      rcases List.mem_cons.1 he with rfl | he
      · exact hk
      · exact String.lt_trans hk (hd.1 e he)
    · split
      · rename_i hk
        exact List.pairwise_cons.2 ⟨fun e he => hk ▸ hd.1 e he, hd.2⟩
      · rename_i hlt hne
        refine List.pairwise_cons.2 ⟨fun e he => ?_, ih hd.2⟩
        rcases mem_insertEntry he with rfl | he
        · exact lt_of_not_lt_of_ne hlt hne
        · exact hd.1 e he

def insert (m : StringMap α) (k : String) (v : α) : StringMap α :=
  ⟨insertEntry k v m.entries, pairwise_insertEntry k v m.sorted⟩

/-- The map of a list of entries; of two entries with one key the later counts. -/
def ofList (es : List (String × α)) : StringMap α :=
  es.foldl (fun m e => m.insert e.1 e.2) ∅

def find? (m : StringMap α) (k : String) : Option α :=
  (m.entries.find? (fun e => e.1 == k)).map (·.2)

def contains (m : StringMap α) (k : String) : Bool :=
  m.entries.any (fun e => e.1 == k)

def keys (m : StringMap α) : List String := m.entries.map (·.1)

def values (m : StringMap α) : List α := m.entries.map (·.2)

def size (m : StringMap α) : Nat := m.entries.length

end StringMap
end BracketTree
