import BracketTree.Proofs.RulesRoundTrip
import BracketTree.Proofs.Writing
import BracketTree.Rules.File

/-! Rule files. What can be loaded can be written back to its place, and is then loaded as the same rules; what cannot
be loaded is not touched. -/

namespace BracketTree.Rules
variable {fs fs' : FileSystem} {path text : String} {r : Rules} {e : FileError}

theorem load_congr (h : fs'.open? path = fs.open? path) : load fs' path = load fs path := by
  unfold load
  rw [FileSystem.readText_congr h]

theorem load_of_readText (ht : fs.readText path = .ok text) (hr : read? text (.ofPath path) = some r) :
    load fs path = .ok r := by
  unfold load
  rw [ht]
  dsimp only
  rw [hr]

theorem exists_readText_of_load (h : load fs path = .ok r) : ∃ text, fs.readText path = .ok text := by
  unfold load at h
  cases ht : fs.readText path with
  | error e => rw [ht] at h; cases e <;> cases h
  | ok text => exact ⟨text, rfl⟩

/-- Whether a path leads to a file whose text spells these rules, in the format that its name tells. -/
def Holds (fs : FileSystem) (path : String) (r : Rules) : Prop :=
  ∃ text, fs.readText path = .ok text ∧ read? text (.ofPath path) = some r

theorem load_eq_ok_iff : load fs path = .ok r ↔ Holds fs path r := by
  constructor
  · intro h
    obtain ⟨text, ht⟩ := exists_readText_of_load h
    refine ⟨text, ht, ?_⟩
    unfold load at h
    rw [ht] at h
    dsimp only at h
    cases hr : read? text (.ofPath path) with
    | none => rw [hr] at h; cases h
    | some r' =>
      rw [hr] at h
      exact congrArg some (Except.ok.inj h)
  · rintro ⟨text, ht, hr⟩
    exact load_of_readText ht hr

/-- A file that holds rendered rules holds these rules. -/
theorem load_of_rendered (h : fs.open? path = .ok (.file (r.render (.ofPath path)).toUTF8)) :
    load fs path = .ok r := by
  refine load_of_readText (FileSystem.readText_of_open? h) ?_
  cases Format.ofPath path with
  | json => exact read?_render_json r
  | toml => exact read?_render_toml r

theorem normalize_of_error (h : load fs path = .error e) : normalize fs path = (.error e, fs) := by
  unfold normalize
  rw [h]

/-- Rules that can be loaded can be saved, because a file is there to hold them. -/
theorem normalize_eq_put (h : load fs path = .ok r) :
    ∃ l before, fs.locate path = .ok l ∧ fs.find? l = some (.file before) ∧
      normalize fs path = (.ok r, fs.put l (.file (r.render (.ofPath path)).toUTF8)) := by
  obtain ⟨text, ht⟩ := exists_readText_of_load h
  obtain ⟨l, before, hl, hf⟩ := FileSystem.exists_file_of_readText ht
  have hd : fs.find? l ≠ some .directory := by simp [hf]
  have hw := FileSystem.writeText_of_locate hl (r.render (.ofPath path))
  rw [if_neg hd] at hw
  have hs : save fs path r = (.ok (), fs.put l (.file (r.render (.ofPath path)).toUTF8)) := by
    unfold save
    rw [hw]
  refine ⟨l, before, hl, hf, ?_⟩
  unfold normalize
  rw [h]
  dsimp only
  rw [hs]
  rfl

theorem normalize_of_load (h : load fs path = .ok r) :
    ∃ l fs', fs.locate path = .ok l ∧ normalize fs path = (.ok r, fs') ∧
      fs.Rewrote l (r.render (.ofPath path)).toUTF8 fs' := by
  obtain ⟨l, before, hl, hf, hn⟩ := normalize_eq_put h
  exact ⟨l, _, hl, hn, FileSystem.rewrote_put hf _⟩

theorem load_of_rewrote {l : Location} (hl : fs.locate path = .ok l)
    (h : fs.Rewrote l (r.render (.ofPath path)).toUTF8 fs') : load fs' path = .ok r := by
  apply load_of_rendered
  rw [h.toWrote.open?_of_locate hl, if_pos rfl]

end BracketTree.Rules
