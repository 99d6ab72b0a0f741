import BracketTree.Proofs.Stages

/-! What commands change. Each owns some places and changes no other: none for saying what is wrong with rules, the new
rule file for writing one, and for parsing the rule file, if it is to be written back, and the output file. A run that
fails before it comes to its output leaves it as it was, and rules that are stored in a file remain stored there. -/

namespace BracketTree

/-- Whether a failure comes before there is anything to write. -/
def Failure.isEarly : Failure → Bool
  | config _ | inputs _ | ruleFile _ | refusedRules _ | unreadable _ _ | ungrouped _ _ => true
  | _ => false

namespace Command

/-- The rule file of a run, as far as it is known. -/
def Parse.ruleFile? (c : Parse) (fs : FileSystem) : Option String :=
  match c.configuration fs with
  | .ok config => (c.settings config).rules
  | .error _ => c.rules

/-- The rule file that a run writes back. -/
def Parse.persisted? (c : Parse) (fs : FileSystem) : Option String :=
  match c.configuration fs with
  | .ok config => if (c.settings config).persistRules then (c.settings config).rules else none
  | .error _ => none

def Parse.PlaceOfRules (c : Parse) (fs : FileSystem) (l : Location) : Prop :=
  ∃ path ∈ c.persisted? fs, fs.locate path = .ok l

/-- The places that a command may change. -/
inductive Owns (fs : FileSystem) : Command → Location → Prop
  | generated {c : Generate} {l} (h : fs.contains c.output = true → c.force = true)
      (hl : fs.locate c.output = .ok l) : Owns fs (.generate c) l
  | rules {c : Parse} {l} (h : c.PlaceOfRules fs l) : Owns fs (.parse c) l
  | output {c : Parse} {l} (h : c.output ≠ "-") (hl : fs.locate c.output = .ok l) : Owns fs (.parse c) l

theorem Validate.files_run (c : Validate) (fs : FileSystem) : (c.run fs).files = fs := by
  unfold run
  cases Rules.load fs c.rules with
  | error e => rfl
  | ok r =>
    dsimp only
    cases verdict? r.issues c.strict with
    | some e => rfl
    | none => rfl

theorem Generate.changedOnly (c : Generate) (fs : FileSystem) :
    fs.ChangedOnly (Owns fs (.generate c)) (c.run fs).files := by
  unfold run
  split
  · exact .refl fs _
  · rename_i h
    split
    · rename_i fs' hw
      obtain ⟨l, hl, hwrote⟩ := FileSystem.writeText_ok hw
      apply hwrote.changedOnly
      refine .generated ?_ hl
      intro hc
      simpa [hc] using h
    · exact .refl fs _

namespace Parse
variable {c : Parse} {fs fs' : FileSystem} {s : Settings} {r : Rules} {paths : List String}

theorem ruleFile?_of_prepare (hp : c.prepare fs = .ok (s, paths)) : c.ruleFile? fs = s.rules := by
  obtain ⟨config, hc, rfl, -⟩ := exists_config_of_prepare hp
  unfold ruleFile?
  rw [hc]

theorem mem_persisted?_of_prepare (hp : c.prepare fs = .ok (s, paths)) {path : String} (h : path ∈ s.rules)
    (hpersist : s.persistRules = true) : path ∈ c.persisted? fs := by
  obtain ⟨config, hc, rfl, -⟩ := exists_config_of_prepare hp
  unfold persisted?
  rw [hc]
  dsimp only
  rwa [if_pos hpersist]

theorem sameBut_of_leaves (hp : c.prepare fs = .ok (s, paths)) (hl : Leaves fs s.rules s.persistRules r fs') :
    fs.SameBut (c.PlaceOfRules fs) fs' := by
  apply hl.sameBut
  intro path hpath hpersist l hloc
  exact ⟨path, mem_persisted?_of_prepare hp hpath hpersist, hloc⟩

theorem changedOnly_of_leaves (hp : c.prepare fs = .ok (s, paths)) (hl : Leaves fs s.rules s.persistRules r fs') :
    fs.ChangedOnly (Owns fs (.parse c)) fs' := (sameBut_of_leaves hp hl).changedOnly.mono fun _ => .rules

theorem rules_eq_of_mem_ruleFile? (hp : c.prepare fs = .ok (s, paths)) {path : String}
    (hpath : path ∈ c.ruleFile? fs) : s.rules = some path := (ruleFile?_of_prepare hp).symm.trans hpath

theorem load_of_leaves {path : String} {r₀ : Rules} (hp : c.prepare fs = .ok (s, paths))
    (hs : storedRules fs s.rules = .ok r₀) (hl : Leaves fs s.rules s.persistRules r₀ fs')
    (hpath : path ∈ c.ruleFile? fs) (hr : Rules.load fs path = .ok r) : Rules.load fs' path = .ok r := by
  rw [rules_eq_of_mem_ruleFile? hp hpath] at hs hl
  change Rules.load fs path = .ok r₀ at hs
  obtain rfl := Except.ok.inj (hs.symm.trans hr)
  exact hl.load hr

/-! How a run ends says what it has changed. -/

namespace Ends
variable {compiler : Vocabulary.Compiler} {w : Workers} {o : Outcome}

theorem changedOnly (h : c.Ends compiler w fs o) : fs.ChangedOnly (Owns fs (.parse c)) o.files := by
  cases h with
  | unprepared => exact .refl fs _
  | unloaded => exact .refl fs _
  | unreported hp _ hl => exact changedOnly_of_leaves hp hl
  | shown hp _ hl => exact changedOnly_of_leaves hp hl
  | uncreated hp _ hl => exact changedOnly_of_leaves hp hl
  | written hp _ hl _ hout hw =>
    obtain ⟨l, hloc, hwrote⟩ := FileSystem.writeText_ok hw
    rw [hl.locate_eq] at hloc
    exact (changedOnly_of_leaves hp hl).trans (hwrote.changedOnly (.output hout hloc))

/-- An early failure shows nothing, and only the rule file can have been written by then. -/
theorem of_early (h : c.Ends compiler w fs o) {e : Failure} (hf : o.failure = some e) (he : e.isEarly = true) :
    o.stdout = "" ∧ ∀ path, (∀ rules ∈ c.persisted? fs, ¬ fs.SameFile rules path) →
      o.files.open? path = fs.open? path := by
  cases h with
  | unprepared => exact ⟨rfl, fun _ _ => rfl⟩
  | unloaded => exact ⟨rfl, fun _ _ => rfl⟩
  | unreported hp _ hl =>
    refine ⟨rfl, ?_⟩
    intro path hne
    apply hl.open?_eq
    intro rules hr hpersist
    exact hne rules (mem_persisted?_of_prepare hp hr hpersist)
  | shown => cases hf
  | uncreated =>
    cases hf
    cases he
  | written => cases hf

/-- Rules that are stored in the rule file remain stored there, unless the output has been put in their place. -/
theorem load (h : c.Ends compiler w fs o) {path : String} (hpath : path ∈ c.ruleFile? fs)
    (hne : o.failure = none → c.output ≠ "-" → ¬ fs.SameFile path c.output) (hr : Rules.load fs path = .ok r) :
    Rules.load o.files path = .ok r := by
  cases h with
  | unprepared => exact hr
  | unloaded => exact hr
  | unreported hp hs hl => exact load_of_leaves hp hs hl hpath hr
  | shown hp hs hl => exact load_of_leaves hp hs hl hpath hr
  | uncreated hp hs hl => exact load_of_leaves hp hs hl hpath hr
  | written hp hs hl _ hout hw =>
    obtain ⟨l, hloc, hwrote⟩ := FileSystem.writeText_ok hw
    have hr' := load_of_leaves hp hs hl hpath hr
    obtain ⟨text, ht⟩ := Rules.exists_readText_of_load hr'
    obtain ⟨m, -, hm, -⟩ := FileSystem.exists_file_of_readText ht
    have hml : m ≠ l := by
      rintro rfl
      rw [hl.locate_eq] at hloc hm
      exact hne rfl hout ⟨m, hm, hloc⟩
    rw [Rules.load_congr ?_, hr']
    rw [hwrote.open?_of_locate hm, if_neg hml]

theorem files_of_load_error (h : c.Ends compiler w fs o) {path : String} (hpath : path ∈ c.ruleFile? fs)
    {e : Rules.FileError} (he : Rules.load fs path = .error e) : o.files = fs := by
  have hstored : ∀ s paths r, c.prepare fs = .ok (s, paths) → storedRules fs s.rules ≠ .ok r := by
    intro s paths r hp
    rw [rules_eq_of_mem_ruleFile? hp hpath]
    change Rules.load fs path ≠ .ok r
    rw [he]
    simp
  cases h with
  | unprepared => rfl
  | unloaded => rfl
  | unreported hp hs => exact absurd hs (hstored _ _ _ hp)
  | shown hp hs => exact absurd hs (hstored _ _ _ hp)
  | uncreated hp hs => exact absurd hs (hstored _ _ _ hp)
  | written hp hs => exact absurd hs (hstored _ _ _ hp)

end Ends
end Parse

section
variable (compiler : Vocabulary.Compiler) (w : Workers)

theorem run_changedOnly (c : Command) (fs : FileSystem) :
    fs.ChangedOnly (Owns fs c) (c.run compiler w fs).files := by
  cases c with
  | parse c => exact (c.ends compiler w fs).changedOnly
  | validate c =>
    rw [show (validate c).run compiler w fs = c.run fs from rfl, c.files_run]
    exact .refl fs _
  | generate c => exact c.changedOnly fs

/-- Commands change what they own and nothing else. An early failure of a run shows nothing and leaves the output file
alone, unless this is the rule file and is written back; and the rule file holds the same rules as before, unless the
output has been put in their place. -/
theorem run_keeps_to_its_own (fs : FileSystem) :
    (∀ c : Command, fs.ChangedOnly (Owns fs c) (c.run compiler w fs).files) ∧
      ∀ c : Parse,
        (∀ e, (c.run compiler w fs).failure = some e → e.isEarly = true →
          (c.run compiler w fs).stdout = "" ∧
            ((∀ rules ∈ c.persisted? fs, ¬ fs.SameFile rules c.output) →
              (c.run compiler w fs).files.open? c.output = fs.open? c.output)) ∧
        ∀ path ∈ c.ruleFile? fs,
          (∀ r, Rules.load fs path = .ok r →
            ((c.run compiler w fs).failure = none → c.output ≠ "-" → ¬ fs.SameFile path c.output) →
              Rules.load (c.run compiler w fs).files path = .ok r) ∧
          ∀ e, Rules.load fs path = .error e → (c.run compiler w fs).files = fs := by
  refine ⟨fun c => run_changedOnly compiler w c fs, ?_⟩
  intro c
  have hends := c.ends compiler w fs
  refine ⟨?_, ?_⟩
  · intro e hf he
    obtain ⟨hstdout, hopen⟩ := hends.of_early hf he
    exact ⟨hstdout, hopen c.output⟩
  · intro path hpath
    refine ⟨?_, ?_⟩
    · intro r hr hne
      exact hends.load hpath hne hr
    · intro e he
      exact hends.files_of_load_error hpath he

end

def openText : FileSystem :=
  { entries := [(["r.toml"], .file "[bounds]\n\"(\" = \")\"".toUTF8), (["in.txt"], .file "(".toUTF8)] }

def openTextRun (output : String) : Parse :=
  { inputs := ["in.txt"], rules := some "r.toml", output, strict := true }

theorem run_keeps_to_its_own_open_text :
    let o := (openTextRun "out.json").run .unbounded .inTurn openText
    o.failure = some (.ungrouped "in.txt" (.unbalanced 1 "(" 0)) ∧ o.files.open? "out.json" = .error .missing ∧
      Rules.load o.files "r.toml" = .ok { bounds := .ofList [("(", ")")] } := by
  intro o
  have hf : o.failure = some (.ungrouped "in.txt" (.unbalanced 1 "(" 0)) := by decide +kernel
  obtain ⟨hearly, hrules⟩ := (run_keeps_to_its_own .unbounded .inTurn openText).2 (openTextRun "out.json")
  refine ⟨hf, ((hearly _ hf rfl).2 ?_).trans ?_, (hrules "r.toml" rfl).1 _ ?_ ?_⟩
  · decide +kernel
  · decide +kernel
  · decide +kernel
  · intro h
    rw [hf] at h
    cases h

/-- Where the output file is the rule file, an early failure can come after the file has been written back. -/
theorem early_failure_changes_rule_file :
    let o := (openTextRun "r.toml").run .unbounded .inTurn openText
    o.failure = some (.ungrouped "in.txt" (.unbalanced 1 "(" 0)) ∧
      o.files.open? "r.toml" ≠ openText.open? "r.toml" := by
  decide +kernel

end Command
end BracketTree
