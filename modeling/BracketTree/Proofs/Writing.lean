import BracketTree.FileSystem
import Mathlib.Tactic.SplitIfs

/-! What writing a text leaves as it is. One place is changed, and no directory comes or goes; so a path that leads
to a place goes on leading there, and what is at any other place is read as before. Where a file was already, even a
path that leads nowhere is refused for the same reason as before. Several such changes make one, at several places. -/

namespace BracketTree.FileSystem

theorem lookup_cons_eq_ite (m k : Location) (x : Entry) (es : List (Location × Entry)) :
    ((k, x) :: es).lookup m = if m = k then some x else es.lookup m := by
  rw [List.lookup_cons]
  split_ifs with h
  · rw [h, beq_self_eq_true]
  · rw [beq_false_of_ne h]

theorem lookup_map_replace (es : List (Location × Entry)) (l : Location) (e : Entry) (m : Location) :
    (es.map fun d => if d.1 = l then (l, e) else d).lookup m =
      if m = l then (es.lookup l).map fun _ => e else es.lookup m := by
  induction es with
  | nil => split_ifs <;> rfl
  | cons d es ih =>
    obtain ⟨k, x⟩ := d
    rw [List.map_cons, lookup_cons_eq_ite l k, lookup_cons_eq_ite m k]
    by_cases hk : k = l
    · subst hk
      rw [if_pos rfl, if_pos rfl, lookup_cons_eq_ite, ih]
      split_ifs <;> rfl
    · rw [if_neg hk, if_neg (Ne.symm hk), lookup_cons_eq_ite, ih]
      by_cases hm : m = l
      · subst hm
        rw [if_neg (Ne.symm hk), if_pos rfl, if_pos rfl]
      · rw [if_neg hm, if_neg hm]

theorem find?_put (fs : FileSystem) {l : Location} (e : Entry) (hl : l ≠ []) (m : Location) :
    (fs.put l e).find? m = if m = l then some e else fs.find? m := by
  unfold find? put
  by_cases hm : m = []
  · subst hm
    rw [if_pos rfl, if_pos rfl, if_neg (Ne.symm hl)]
  rw [if_neg hm, if_neg hm]
  split_ifs with hs ha ha
  · obtain ⟨x, hx⟩ := Option.isSome_iff_exists.1 hs
    rw [lookup_map_replace, if_pos ha, hx]
    rfl
  · rw [lookup_map_replace, if_neg ha]
  · subst ha
    rw [Option.not_isSome_iff_eq_none] at hs
    rw [List.lookup_append, hs]
    simp
  · rw [List.lookup_append, lookup_cons_eq_ite, if_neg ha]
    exact Option.or_none

theorem isSome_lookup_of_file {fs : FileSystem} {l : Location} {content : ByteArray}
    (h : fs.find? l = some (.file content)) : (fs.entries.lookup l).isSome := by
  unfold find? at h
  split_ifs at h
  · cases h
  · rw [h]
    rfl

/-- What has been put in the place of something stays when it is put there again. -/
theorem put_put {fs : FileSystem} {l : Location} (h : (fs.entries.lookup l).isSome) (e : Entry) :
    (fs.put l e).put l e = fs.put l e := by
  have hput : fs.put l e = { fs with entries := fs.entries.map fun d => if d.1 = l then (l, e) else d } := if_pos h
  have hagain : ((fs.put l e).entries.lookup l).isSome := by
    rw [hput, lookup_map_replace, if_pos rfl, Option.isSome_map]
    exact h
  rw [put, if_pos hagain, hput, List.map_map]
  congr 2
  funext d
  by_cases hd : d.1 = l <;> simp [hd]

theorem writeText_of_locate {fs : FileSystem} {path : String} {l : Location} (hl : fs.locate path = .ok l)
    (text : String) : fs.writeText path text =
      if fs.find? l = some .directory then .error .directory else .ok (fs.put l (.file text.toUTF8)) := by
  unfold writeText
  rw [hl]
  dsimp only [bind, Except.bind]
  split_ifs with hd
  · rw [hd]
  · cases hf : fs.find? l with
    | none => rfl
    | some e =>
      cases e with
      | file content => rfl
      | directory => exact absurd hf hd

theorem writeText_of_lost {fs : FileSystem} {path : String} {e : Error} (hl : fs.locate path = .error e)
    (text : String) : fs.writeText path text = .error e := by
  unfold writeText
  rw [hl]
  rfl

/-- Another file system in which the content of one file has been set. -/
structure Wrote (fs : FileSystem) (l : Location) (content : ByteArray) (fs' : FileSystem) : Prop where
  place : fs.find? l ≠ some .directory
  current : fs'.current = fs.current
  find?_eq : ∀ m, fs'.find? m = if m = l then some (.file content) else fs.find? m

theorem wrote_put {fs : FileSystem} {l : Location} (h : fs.find? l ≠ some .directory) (content : ByteArray) :
    Wrote fs l content (fs.put l (.file content)) := by
  have hne : l ≠ [] := by
    rintro rfl
    exact h (if_pos rfl)
  refine ⟨h, ?_, find?_put fs _ hne⟩
  unfold put
  split_ifs <;> rfl

theorem writeText_ok {fs fs' : FileSystem} {path text : String} (h : fs.writeText path text = .ok fs') :
    ∃ l, fs.locate path = .ok l ∧ Wrote fs l text.toUTF8 fs' := by
  cases hl : fs.locate path with
  | error e =>
    rw [writeText_of_lost hl] at h
    cases h
  | ok l =>
    rw [writeText_of_locate hl] at h
    split_ifs at h with hd
    obtain rfl := Except.ok.inj h
    exact ⟨l, rfl, wrote_put hd _⟩

/-- Whether two paths lead to the same place. -/
def SameFile (fs : FileSystem) (p q : String) : Prop := ∃ l, fs.locate p = .ok l ∧ fs.locate q = .ok l

theorem sameFile_iff {fs : FileSystem} {p q : String} :
    fs.SameFile p q ↔ (fs.locate p).isOk ∧ (fs.locate p).toOption = (fs.locate q).toOption := by
  unfold SameFile
  cases fs.locate p with
  | error e => simp [Except.isOk, Except.toBool]
  | ok l => cases fs.locate q <;> simp [Except.isOk, Except.toBool, Except.toOption, eq_comm]

instance (fs : FileSystem) (p q : String) : Decidable (fs.SameFile p q) := decidable_of_iff' _ sameFile_iff

/-! What a path leads to is read off in the same way everywhere. -/

theorem read_congr {fs fs' : FileSystem} {path : String} (h : fs'.open? path = fs.open? path) :
    fs'.read path = fs.read path := by
  unfold read
  rw [h]

theorem readText_congr {fs fs' : FileSystem} {path : String} (h : fs'.open? path = fs.open? path) :
    fs'.readText path = fs.readText path := by
  unfold readText
  rw [read_congr h]

theorem open?_of_locate {fs : FileSystem} {path : String} {l : Location} (hl : fs.locate path = .ok l) :
    fs.open? path = match fs.find? l with | some e => .ok e | none => .error .missing := by
  unfold open?
  rw [hl]
  rfl

theorem readText_of_open? {fs : FileSystem} {path text : String} (h : fs.open? path = .ok (.file text.toUTF8)) :
    fs.readText path = .ok text := by
  have ht : String.fromUTF8? text.toUTF8 = some text := dif_pos text.isValidUTF8
  unfold readText read
  rw [h]
  dsimp only [bind, Except.bind]
  rw [ht]

/-- A text that can be read is in a file. -/
theorem exists_file_of_readText {fs : FileSystem} {path text : String} (h : fs.readText path = .ok text) :
    ∃ l content, fs.locate path = .ok l ∧ fs.find? l = some (.file content) := by
  unfold readText read at h
  cases hl : fs.locate path with
  | error e =>
    unfold open? at h
    rw [hl] at h
    cases h
  | ok l =>
    rw [open?_of_locate hl] at h
    cases hf : fs.find? l with
    | none => rw [hf] at h; cases h
    | some e =>
      cases e with
      | directory => rw [hf] at h; cases h
      | file content => exact ⟨l, content, rfl, hf⟩

namespace Wrote
variable {fs fs' : FileSystem} {l m : Location} {content : ByteArray} {path : String}

theorem find?_of_ne (h : Wrote fs l content fs') (hm : m ≠ l) : fs'.find? m = fs.find? m := by
  rw [h.find?_eq, if_neg hm]

/-- A path leads on through directories, and these stay. -/
theorem walk (h : Wrote fs l content fs') {here : Location} {parts : List String}
    (hw : fs.walk here parts = .ok m) : fs'.walk here parts = .ok m := by
  induction parts generalizing here with
  | nil => exact hw
  | cons part parts ih =>
    rw [FileSystem.walk] at hw ⊢
    cases hf : fs.find? here with
    | none => rw [hf] at hw; cases hw
    | some e =>
      cases e with
      | file c => rw [hf] at hw; cases hw
      | directory =>
        have hne : here ≠ l := by
          rintro rfl
          exact h.place hf
        rw [hf] at hw
        rw [h.find?_of_ne hne, hf]
        dsimp only at hw ⊢
        split_ifs at hw ⊢
        · exact ih hw
        · exact ih hw
        · exact ih hw

theorem locate (h : Wrote fs l content fs') (hl : fs.locate path = .ok m) : fs'.locate path = .ok m := by
  unfold FileSystem.locate at hl ⊢
  rw [h.current]
  split_ifs at hl ⊢
  · exact h.walk hl
  · exact h.walk hl

theorem open?_of_locate (h : Wrote fs l content fs') (hl : fs.locate path = .ok m) :
    fs'.open? path = if m = l then .ok (.file content) else fs.open? path := by
  rw [FileSystem.open?_of_locate (h.locate hl), h.find?_eq, FileSystem.open?_of_locate hl]
  split_ifs <;> rfl

end Wrote

/-! Where a file was already, paths are followed as before in all cases. -/

/-- Another file system in which a file has another content. -/
structure Rewrote (fs : FileSystem) (l : Location) (content : ByteArray) (fs' : FileSystem) : Prop
    extends Wrote fs l content fs' where
  file : ∃ before, fs.find? l = some (.file before)

theorem rewrote_put {fs : FileSystem} {l : Location} {before : ByteArray} (h : fs.find? l = some (.file before))
    (content : ByteArray) : Rewrote fs l content (fs.put l (.file content)) := by
  refine ⟨wrote_put ?_ content, before, h⟩
  rw [h]
  simp

namespace Rewrote
variable {fs fs' : FileSystem} {l : Location} {content : ByteArray} {path text : String}

theorem walk_eq (h : Rewrote fs l content fs') (here : Location) (parts : List String) :
    fs'.walk here parts = fs.walk here parts := by
  induction parts generalizing here with
  | nil => rfl
  | cons part parts ih =>
    rw [FileSystem.walk, FileSystem.walk]
    by_cases hl : here = l
    · obtain ⟨before, hf⟩ := h.file
      subst hl
      rw [hf, h.find?_eq, if_pos rfl]
    · rw [h.find?_of_ne hl]
      simp only [ih]

theorem locate_eq (h : Rewrote fs l content fs') (path : String) : fs'.locate path = fs.locate path := by
  unfold FileSystem.locate
  rw [h.current]
  simp only [h.walk_eq]

theorem open?_eq (h : Rewrote fs l content fs') (hne : fs.locate path ≠ .ok l) :
    fs'.open? path = fs.open? path := by
  cases hl : fs.locate path with
  | error e =>
    unfold FileSystem.open?
    rw [h.locate_eq, hl]
    rfl
  | ok m =>
    have hm : m ≠ l := by
      rintro rfl
      exact hne hl
    rw [h.toWrote.open?_of_locate hl, if_neg hm]

/-- Nothing that could be written to has come or gone. -/
theorem writeText_error_iff (h : Rewrote fs l content fs') {e : Error} :
    fs'.writeText path text = .error e ↔ fs.writeText path text = .error e := by
  have hfind : ∀ m, fs'.find? m = some .directory ↔ fs.find? m = some .directory := by
    intro m
    rw [h.find?_eq]
    split_ifs with hm
    · subst hm
      exact iff_of_false (by simp) h.place
    · exact Iff.rfl
  cases hl : fs.locate path with
  | error e' => rw [writeText_of_lost hl, writeText_of_lost ((h.locate_eq path).trans hl)]
  | ok m =>
    rw [writeText_of_locate hl, writeText_of_locate ((h.locate_eq path).trans hl)]
    by_cases hd : fs.find? m = some .directory
    · rw [if_pos hd, if_pos ((hfind m).2 hd)]
    · rw [if_neg hd, if_neg (mt (hfind m).1 hd)]
      exact iff_of_false (by simp) (by simp)

end Rewrote

/-! Changes are kept to some places. -/

/-- Another file system that differs at some places at most. -/
structure ChangedOnly (fs : FileSystem) (places : Location → Prop) (fs' : FileSystem) : Prop where
  current : fs'.current = fs.current
  find?_eq : ∀ l, ¬ places l → fs'.find? l = fs.find? l

namespace ChangedOnly
variable {fs fs' fs'' : FileSystem} {places : Location → Prop}

theorem refl (fs : FileSystem) (places : Location → Prop) : fs.ChangedOnly places fs := ⟨rfl, fun _ _ => rfl⟩

theorem trans (h : fs.ChangedOnly places fs') (h' : fs'.ChangedOnly places fs'') : fs.ChangedOnly places fs'' :=
  ⟨h'.current.trans h.current, fun l hl => (h'.find?_eq l hl).trans (h.find?_eq l hl)⟩

theorem mono (h : fs.ChangedOnly places fs') {places' : Location → Prop} (hp : ∀ l, places l → places' l) :
    fs.ChangedOnly places' fs' := ⟨h.current, fun l hl => h.find?_eq l fun hl' => hl (hp l hl')⟩

end ChangedOnly

theorem Wrote.changedOnly {fs fs' : FileSystem} {l : Location} {content : ByteArray} {places : Location → Prop}
    (h : Wrote fs l content fs') (hl : places l) : fs.ChangedOnly places fs' := by
  refine ⟨h.current, ?_⟩
  intro m hm
  apply h.find?_of_ne
  rintro rfl
  exact hm hl

/-- Two file systems with the same files and directories, of which only some files may differ in their content. -/
structure SameBut (places : Location → Prop) (fs fs' : FileSystem) : Prop where
  current : fs'.current = fs.current
  find? : ∀ l, fs'.find? l = fs.find? l ∨
    places l ∧ ∃ a b, fs.find? l = some (.file a) ∧ fs'.find? l = some (.file b)

namespace SameBut
variable {fs fs' gs gs' : FileSystem} {places : Location → Prop} {l : Location} {content : ByteArray}

theorem refl (places : Location → Prop) (fs : FileSystem) : SameBut places fs fs := ⟨rfl, fun _ => .inl rfl⟩

/-- Both may be written to in the same way. -/
theorem wrote (h : SameBut places fs fs') (hw : Wrote fs l content gs) (hw' : Wrote fs' l content gs') :
    SameBut places gs gs' := by
  refine ⟨(hw'.current.trans h.current).trans hw.current.symm, ?_⟩
  intro m
  rw [hw.find?_eq, hw'.find?_eq]
  by_cases hm : m = l
  · rw [if_pos hm, if_pos hm]
    exact .inl rfl
  · rw [if_neg hm, if_neg hm]
    exact h.find? m

theorem changedOnly (h : SameBut places fs fs') : fs.ChangedOnly places fs' := by
  refine ⟨h.current, ?_⟩
  intro m hm
  rcases h.find? m with hf | ⟨hp, -⟩
  · exact hf
  · exact absurd hp hm

end SameBut

theorem Rewrote.sameBut {fs fs' : FileSystem} {l : Location} {content : ByteArray} {places : Location → Prop}
    (h : Rewrote fs l content fs') (hl : places l) : SameBut places fs fs' := by
  refine ⟨h.current, ?_⟩
  intro m
  by_cases hm : m = l
  · subst hm
    obtain ⟨before, hf⟩ := h.file
    exact .inr ⟨hl, before, content, hf, by rw [h.find?_eq, if_pos rfl]⟩
  · exact .inl (h.find?_of_ne hm)

end BracketTree.FileSystem
