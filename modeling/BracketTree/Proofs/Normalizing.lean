import BracketTree.Proofs.RuleFile

/-! Normalizing a rule file. What is in the file afterwards depends on the rules alone, so a second time changes
nothing, and no more do all further times. A file that holds no rules is left alone, and why it holds none is told as
when it is loaded. -/

namespace BracketTree.Rules
variable {fs : FileSystem} {path : String} {r : Rules}

theorem exists_load_error (h : ∀ r, ¬ Holds fs path r) : ∃ e, load fs path = .error e := by
  cases hl : load fs path with
  | error e => exact ⟨e, rfl⟩
  | ok r => exact absurd (load_eq_ok_iff.1 hl) (h r)

/-! Time and again. -/

/-- So many times in a row: what each comes to, and the file system that is left. -/
def attempts (path : String) : Nat → FileSystem → List (Except FileError Rules) × FileSystem
  | 0, fs => ([], fs)
  | n + 1, fs =>
    let first := normalize fs path
    let rest := attempts path n first.2
    (first.1 :: rest.1, rest.2)

theorem attempts_of_fixed {result : Except FileError Rules} (h : normalize fs path = (result, fs)) (n : Nat) :
    attempts path n fs = (List.replicate n result, fs) := by
  induction n with
  | zero => rfl
  | succ n ih => simp only [attempts, h, ih, List.replicate_succ]

/-- What normalizing writes is not changed by normalizing. -/
theorem exists_normalize_fixed (h : load fs path = .ok r) :
    ∃ l fs', fs.locate path = .ok l ∧ normalize fs path = (.ok r, fs') ∧
      fs.Rewrote l (r.render (.ofPath path)).toUTF8 fs' ∧ normalize fs' path = (.ok r, fs') := by
  obtain ⟨l, before, hl, hf, hn⟩ := normalize_eq_put h
  have hrewrote := FileSystem.rewrote_put hf (r.render (.ofPath path)).toUTF8
  obtain ⟨l', -, hl', -, hn'⟩ := normalize_eq_put (load_of_rewrote hl hrewrote)
  obtain rfl := Except.ok.inj (((hrewrote.locate_eq path).trans hl).symm.trans hl')
  rw [FileSystem.put_put (FileSystem.isSome_lookup_of_file hf)] at hn'
  exact ⟨l, _, hl, hn, hrewrote, hn'⟩

theorem read_of_rewrote {fs' : FileSystem} {l : Location} {content : ByteArray} (hl : fs.locate path = .ok l)
    (h : fs.Rewrote l content fs') : fs'.read path = .ok content := by
  unfold FileSystem.read
  rw [h.toWrote.open?_of_locate hl, if_pos rfl]
  rfl

/-- A rule file is normalized once for all, and no other file is touched; a file that holds no rules is not touched
either, however often it is tried. What is written depends on the format and the rules alone. -/
theorem normalize_settles (fs : FileSystem) (path : String) :
    (∀ r, Holds fs path r → ∃ fs', normalize fs path = (.ok r, fs') ∧
      fs.ChangedOnly (fun l => fs.locate path = .ok l) fs' ∧ load fs' path = .ok r ∧
      ∀ n, attempts path n fs' = (List.replicate n (.ok r), fs')) ∧
    ((∀ r, ¬ Holds fs path r) → ∃ e, load fs path = .error e ∧ normalize fs path = (.error e, fs) ∧
      ∀ n, attempts path n fs = (List.replicate n (.error e), fs)) ∧
    ∀ gs other r, Format.ofPath other = Format.ofPath path → Holds fs path r → Holds gs other r →
      ∃ fs' gs' content, normalize fs path = (.ok r, fs') ∧ normalize gs other = (.ok r, gs') ∧
        fs'.read path = .ok content ∧ gs'.read other = .ok content := by
  refine ⟨fun r hr => ?_, fun hnone => ?_, fun gs other r hformat hr hr' => ?_⟩
  · obtain ⟨l, fs', hl, hn, hrewrote, hfixed⟩ := exists_normalize_fixed (load_eq_ok_iff.2 hr)
    exact ⟨fs', hn, hrewrote.changedOnly hl, load_of_rewrote hl hrewrote, attempts_of_fixed hfixed⟩
  · obtain ⟨e, he⟩ := exists_load_error hnone
    have hn := normalize_of_error he
    exact ⟨e, he, hn, attempts_of_fixed hn⟩
  · obtain ⟨l, fs', hl, hn, hrewrote⟩ := normalize_of_load (load_eq_ok_iff.2 hr)
    obtain ⟨m, gs', hm, hn', hrewrote'⟩ := normalize_of_load (load_eq_ok_iff.2 hr')
    rw [hformat] at hrewrote'
    exact ⟨fs', gs', _, hn, hn', read_of_rewrote hl hrewrote, read_of_rewrote hm hrewrote'⟩

def threeFiles : FileSystem :=
  { entries := [(["a.toml"], .file "[bounds]\n\"(\" = \")\"".toUTF8),
      (["b.toml"], .file "strip = []\n[bounds]\n'(' = ')'\n".toUTF8), (["c.json"], .file "strip = []".toUTF8)] }

theorem normalize_settles_three_files :
    let r : Rules := { bounds := .ofList [("(", ")")] }
    Holds threeFiles "a.toml" r ∧ Holds threeFiles "b.toml" r ∧ (∀ r, ¬ Holds threeFiles "c.json" r) ∧
      (∃ fs', normalize threeFiles "a.toml" = (.ok r, fs') ∧ load fs' "a.toml" = .ok r ∧
        attempts "a.toml" 3 fs' = ([.ok r, .ok r, .ok r], fs')) ∧
      (∃ e, normalize threeFiles "c.json" = (.error e, threeFiles) ∧
        attempts "c.json" 2 threeFiles = ([.error e, .error e], threeFiles)) ∧
      ∃ fs' gs' content, normalize threeFiles "a.toml" = (.ok r, fs') ∧ normalize threeFiles "b.toml" = (.ok r, gs') ∧
        fs'.read "a.toml" = .ok content ∧ gs'.read "b.toml" = .ok content := by
  intro r
  have ha : Holds threeFiles "a.toml" r :=
    ⟨"[bounds]\n\"(\" = \")\"", FileSystem.readText_of_open? rfl, by decide +kernel⟩
  have hb : Holds threeFiles "b.toml" r :=
    ⟨"strip = []\n[bounds]\n'(' = ')'\n", FileSystem.readText_of_open? rfl, by decide +kernel⟩
  have hc : ∀ r, ¬ Holds threeFiles "c.json" r := by
    rintro r ⟨text, ht, hr⟩
    have htext : threeFiles.readText "c.json" = .ok "strip = []" := FileSystem.readText_of_open? rfl
    obtain rfl := Except.ok.inj (htext.symm.trans ht)
    have hnone : read? "strip = []" (.ofPath "c.json") = none := by decide +kernel
    rw [hnone] at hr
    cases hr
  obtain ⟨hgood, -, hbytes⟩ := normalize_settles threeFiles "a.toml"
  obtain ⟨fs', hn, -, hl, hfixed⟩ := hgood r ha
  obtain ⟨-, hbad, -⟩ := normalize_settles threeFiles "c.json"
  obtain ⟨e, -, he, hfixed'⟩ := hbad hc
  have hformat : Format.ofPath "b.toml" = Format.ofPath "a.toml" := by decide +kernel
  exact ⟨ha, hb, hc, ⟨fs', hn, hl, hfixed 3⟩, ⟨e, he, hfixed' 2⟩, hbytes threeFiles "b.toml" r hformat ha hb⟩

end BracketTree.Rules
