import BracketTree.Proofs.Building
import BracketTree.Proofs.Configuring
import BracketTree.Proofs.RuleFile

/-! The stages of a run. Rules are loaded as they are stored, and loading leaves the file system as it was, or with the
rule file written anew; only paths to this file can tell. Then input files are read and nothing is changed, until at
the end the report is brought to where it belongs. -/

namespace BracketTree

/-- The parser that a run makes of its rules. -/
abbrev Settings.parser (s : Settings) (r : Rules) : Parser := ⟨r, .ofStrict s.strict⟩

namespace Command

/-- The rules that are stored for a run: those in a file, or those of which nothing is said. -/
def storedRules (fs : FileSystem) : Option String → Except Rules.FileError Rules
  | none => .ok {}
  | some path => Rules.load fs path

inductive Stored (fs : FileSystem) : Option String → Rules → Prop
  | unnamed : Stored fs none {}
  | named {path r} (h : Rules.Holds fs path r) : Stored fs (some path) r

theorem storedRules_eq_ok_iff {fs : FileSystem} {file : Option String} {r : Rules} :
    storedRules fs file = .ok r ↔ Stored fs file r := by
  cases file with
  | none =>
    constructor
    · intro h
      exact Except.ok.inj h ▸ .unnamed
    · rintro ⟨⟩
      rfl
  | some path =>
    change Rules.load fs path = .ok r ↔ _
    rw [Rules.load_eq_ok_iff]
    constructor
    · exact .named
    · rintro ⟨⟩
      assumption

/-- What loading rules leaves. -/
inductive Leaves (fs : FileSystem) (file : Option String) (persist : Bool) (r : Rules) : FileSystem → Prop
  | unchanged : Leaves fs file persist r fs
  | rewritten {path : String} {l : Location} {fs' : FileSystem} (hfile : file = some path)
      (hpersist : persist = true) (hl : fs.locate path = .ok l)
      (h : fs.Rewrote l (r.render (.ofPath path)).toUTF8 fs') : Leaves fs file persist r fs'

theorem loadRules_of_error {fs : FileSystem} {file : Option String} {e : Rules.FileError}
    (h : storedRules fs file = .error e) (persist : Bool) : loadRules fs file persist = (.error e, fs) := by
  cases file with
  | none => cases h
  | some path =>
    change Rules.load fs path = .error e at h
    cases persist with
    | false =>
      change (Rules.load fs path, fs) = _
      rw [h]
    | true => exact Rules.normalize_of_error h

theorem loadRules_of_ok {fs : FileSystem} {file : Option String} {r : Rules} (h : storedRules fs file = .ok r)
    (persist : Bool) : ∃ fs', loadRules fs file persist = (.ok r, fs') ∧ Leaves fs file persist r fs' := by
  cases file with
  | none =>
    obtain rfl := Except.ok.inj h
    exact ⟨fs, rfl, .unchanged⟩
  | some path =>
    change Rules.load fs path = .ok r at h
    cases persist with
    | false =>
      refine ⟨fs, ?_, .unchanged⟩
      change (Rules.load fs path, fs) = _
      rw [h]
    | true =>
      obtain ⟨l, fs', hl, hn, hw⟩ := Rules.normalize_of_load h
      exact ⟨fs', hn, .rewritten rfl rfl hl hw⟩

namespace Leaves
variable {fs fs' : FileSystem} {file : Option String} {persist : Bool} {r : Rules} {path text : String}

theorem eq_of_not_persist (h : Leaves fs file false r fs') : fs' = fs := by
  cases h with
  | unchanged => rfl
  | rewritten _ hpersist => cases hpersist

theorem locate_eq (h : Leaves fs file persist r fs') (path : String) : fs'.locate path = fs.locate path := by
  cases h with
  | unchanged => rfl
  | rewritten _ _ _ hw => exact hw.locate_eq path

theorem writeText_error_iff (h : Leaves fs file persist r fs') {e : FileSystem.Error} :
    fs'.writeText path text = .error e ↔ fs.writeText path text = .error e := by
  cases h with
  | unchanged => exact Iff.rfl
  | rewritten _ _ _ hw => exact hw.writeText_error_iff

theorem sameBut (h : Leaves fs file persist r fs') {places : Location → Prop}
    (hp : ∀ rules ∈ file, persist = true → ∀ l, fs.locate rules = .ok l → places l) :
    FileSystem.SameBut places fs fs' := by
  cases h with
  | unchanged => exact .refl places fs
  | rewritten hfile hpersist hl hw => exact hw.sameBut (hp _ hfile hpersist _ hl)

theorem open?_eq (h : Leaves fs file persist r fs')
    (hne : ∀ rules ∈ file, persist = true → ¬ fs.SameFile rules path) : fs'.open? path = fs.open? path := by
  cases h with
  | unchanged => rfl
  | rewritten hfile hpersist hm hw =>
    apply hw.open?_eq
    intro hp
    exact hne _ hfile hpersist ⟨_, hm, hp⟩

theorem open?_eq_of_apart (h : Leaves fs file persist r fs') {paths : List String}
    (hne : ∀ rules ∈ file, persist = true → ∀ path ∈ paths, ¬ fs.SameFile rules path) :
    ∀ path ∈ paths, fs'.open? path = fs.open? path := by
  intro path hpath
  apply h.open?_eq
  intro rules hr hpersist
  exact hne rules hr hpersist path hpath

/-- Rules that have been loaded can be loaded again. -/
theorem load (h : Leaves fs (some path) persist r fs') (hr : Rules.load fs path = .ok r) :
    Rules.load fs' path = .ok r := by
  cases h with
  | unchanged => exact hr
  | rewritten hfile _ hl hw =>
    obtain rfl := Option.some.inj hfile
    exact Rules.load_of_rewrote hl hw

end Leaves

/-! Reading and parsing. -/

/-- How an input file fails. -/
inductive Fails (fs : FileSystem) (p : Parser) (path : String) : Failure → Prop
  | reading {e} (h : fs.readText path = .error e) : Fails fs p path (.unreadable path e)
  | parsing {text e} (ht : fs.readText path = .ok text) (h : p.parse text = .error e) :
      Fails fs p path (.ungrouped path e)

section
variable {fs fs' : FileSystem} {s s' : Settings} {r : Rules} {p : Parser} {path : String} {paths : List String}
  {compiler : Vocabulary.Compiler} {w w' : Workers} {n n' : Nat} {rep : Report} {e : Failure}

theorem parseFile_of_unreadable {cause : FileSystem.Error} (h : fs.readText path = .error cause) :
    parseFile fs p path = .error (.unreadable path cause) := by
  unfold parseFile readInput
  rw [h]
  rfl

theorem parseFile_of_readText {text : String} (h : fs.readText path = .ok text) :
    parseFile fs p path = ((p.parse text).mapError (.ungrouped path)).map (path, ·) := by
  unfold parseFile readInput
  rw [h]
  change ((p.parse text).mapError (Failure.ungrouped path) >>= fun t => Except.ok (path, t)) = _
  cases p.parse text with
  | error e => rfl
  | ok t => rfl

theorem parseFile_congr (h : fs'.open? path = fs.open? path) : parseFile fs' p path = parseFile fs p path := by
  unfold parseFile readInput
  rw [FileSystem.readText_congr h]

theorem parseFile_eq_error_iff : parseFile fs p path = .error e ↔ Fails fs p path e := by
  constructor
  · intro h
    cases ht : fs.readText path with
    | error cause =>
      rw [parseFile_of_unreadable ht] at h
      cases h
      exact .reading ht
    | ok text =>
      rw [parseFile_of_readText ht] at h
      cases hp : p.parse text with
      | error cause =>
        rw [hp] at h
        cases h
        exact .parsing ht hp
      | ok t =>
        rw [hp] at h
        cases h
  · intro h
    cases h with
    | reading h => exact parseFile_of_unreadable h
    | parsing ht h =>
      rw [parseFile_of_readText ht, h]
      rfl

theorem Fails.unique {d : Failure} (hd : Fails fs p path d) (he : Fails fs p path e) : d = e := by
  rw [← parseFile_eq_error_iff] at hd he
  exact Except.error.inj (hd.symm.trans he)

/-- Whoever works on the files, there is a report just if none of them fails, and it is settled. -/
theorem parseFiles_eq_ok_iff : parseFiles w n fs p paths = .ok rep ↔ paths.map (parseFile fs p) = rep.map .ok := by
  have h := w.gathered n (paths.map (parseFile fs p))
  change Gathered _ (parseFiles w n fs p paths) at h
  cases hresult : parseFiles w n fs p paths with
  | ok rep' =>
    rw [hresult] at h
    change _ = _ at h
    rw [h, List.map_inj_right fun _ _ => Except.ok.inj, Except.ok.injEq]
  | error e =>
    rw [hresult] at h
    change _ ∈ _ at h
    refine iff_of_false nofun ?_
    intro hok
    rw [hok] at h
    simp at h

theorem exists_fails_of_parseFiles (h : parseFiles w n fs p paths = .error e) : ∃ path ∈ paths, Fails fs p path e := by
  have hmem := w.gathered n (paths.map (parseFile fs p))
  change Gathered _ (parseFiles w n fs p paths) at hmem
  rw [h] at hmem
  obtain ⟨path, hpath, he⟩ := List.mem_map.1 hmem
  exact ⟨path, hpath, parseFile_eq_error_iff.1 he⟩

theorem exists_parseFiles_error (hpath : path ∈ paths) (h : Fails fs p path e) (w : Workers) (n : Nat) :
    ∃ d, parseFiles w n fs p paths = .error d := by
  cases hresult : parseFiles w n fs p paths with
  | error d => exact ⟨d, rfl⟩
  | ok rep =>
    have hmem : parseFile fs p path ∈ rep.map Except.ok := by
      rw [← parseFiles_eq_ok_iff.1 hresult]
      exact List.mem_map_of_mem hpath
    rw [parseFile_eq_error_iff.2 h] at hmem
    simp at hmem

/-- What two groups of workers hand back differs only where two files fail, and each hands back one of the failures. -/
theorem parseFiles_eq_or (w w' : Workers) (n n' : Nat) (fs : FileSystem) (p : Parser) (paths : List String) :
    parseFiles w' n' fs p paths = parseFiles w n fs p paths ∨
      ∃ a ∈ paths, ∃ b ∈ paths, ∃ d e, a ≠ b ∧ Fails fs p a d ∧ Fails fs p b e ∧
        parseFiles w n fs p paths = .error d ∧ parseFiles w' n' fs p paths = .error e := by
  cases h : parseFiles w n fs p paths with
  | ok rep => exact .inl (parseFiles_eq_ok_iff.2 (parseFiles_eq_ok_iff.1 h))
  | error d =>
    obtain ⟨a, ha, hd⟩ := exists_fails_of_parseFiles h
    obtain ⟨e, h'⟩ := exists_parseFiles_error ha hd w' n'
    obtain ⟨b, hb, he⟩ := exists_fails_of_parseFiles h'
    rw [h']
    by_cases hab : a = b
    · obtain rfl := hab
      exact .inl (congrArg Except.error (he.unique hd))
    · exact .inr ⟨a, ha, b, hb, d, e, hab, hd, he, rfl, rfl⟩

theorem parseFiles_congr (h : ∀ path ∈ paths, fs'.open? path = fs.open? path) :
    parseFiles w n fs' p paths = parseFiles w n fs p paths := by
  unfold parseFiles
  rw [List.map_congr_left fun path hpath => parseFile_congr (h path hpath)]

/-- Whether there is a report depends on how strictly rules and texts are judged, and on no other setting. -/
theorem report_eq_or (compiler : Vocabulary.Compiler) (w w' : Workers) (fs : FileSystem) (s s' : Settings) (r : Rules)
    (paths : List String) (hrules : s'.strictRules = s.strictRules) (hstrict : s'.strict = s.strict) :
    report compiler w' fs s' r paths = report compiler w fs s r paths ∨
      ∃ a ∈ paths, ∃ b ∈ paths, ∃ d e, a ≠ b ∧ Fails fs (s.parser r) a d ∧ Fails fs (s.parser r) b e ∧
        report compiler w fs s r paths = .error d ∧ report compiler w' fs s' r paths = .error e := by
  unfold report
  rw [hrules, hstrict]
  obtain ⟨refusal, h⟩ | h := Parser.ofChecked_cases compiler r (.ofStrict s.strict) s.strictRules
  · rw [h]
    exact .inl rfl
  · rw [h]
    exact parseFiles_eq_or w w' s.threads s'.threads fs (s.parser r) paths

theorem report_congr (h : ∀ path ∈ paths, fs'.open? path = fs.open? path) :
    report compiler w fs' s r paths = report compiler w fs s r paths := by
  unfold report
  cases Parser.ofChecked compiler r (.ofStrict s.strict) s.strictRules with
  | error e => rfl
  | ok p => exact parseFiles_congr h

end

/-! A run as a whole. -/

theorem deliver_of_dash {fs : FileSystem} {output : String} (h : output = "-") (text : String) :
    deliver fs output text = { stdout := text, files := fs } := if_pos h

theorem deliver_of_error {fs : FileSystem} {output text : String} {e : FileSystem.Error} (h : output ≠ "-")
    (hw : fs.writeText output text = .error e) :
    deliver fs output text = { failure := some (.uncreated output e), files := fs } := by
  unfold deliver
  rw [if_neg h, hw]

theorem deliver_of_ok {fs fs' : FileSystem} {output text : String} (h : output ≠ "-")
    (hw : fs.writeText output text = .ok fs') : deliver fs output text = { files := fs' } := by
  unfold deliver
  rw [if_neg h, hw]

namespace Parse
variable {c : Parse} {fs : FileSystem} {s : Settings} {config : Config} {paths : List String} {r : Rules}

theorem prepare_of_config_error {e : Failure} (h : c.configuration fs = .error e) : c.prepare fs = .error e := by
  unfold prepare
  rw [h]
  rfl

theorem prepare_of_config_ok (h : c.configuration fs = .ok config) :
    c.prepare fs = ((Inputs.resolve fs c.inputs).mapError .inputs).map (c.settings config, ·) := by
  unfold prepare
  rw [h]
  change ((Inputs.resolve fs c.inputs).mapError Failure.inputs >>= fun ps => Except.ok (c.settings config, ps)) = _
  cases Inputs.resolve fs c.inputs with
  | error e => rfl
  | ok ps => rfl

/-- What a run goes by before it comes to its settings: the configuration and the input files. -/
def findings (c : Parse) (fs : FileSystem) : Except Failure (Config × List String) := do
  let config ← c.configuration fs
  .ok (config, ← (Inputs.resolve fs c.inputs).mapError .inputs)

theorem prepare_eq_map (c : Parse) (fs : FileSystem) :
    c.prepare fs = (c.findings fs).map fun x => (c.settings x.1, x.2) := by
  unfold findings
  cases hc : c.configuration fs with
  | error e => exact prepare_of_config_error hc
  | ok config =>
    rw [prepare_of_config_ok hc]
    cases Inputs.resolve fs c.inputs with
    | error e => rfl
    | ok paths => rfl

theorem exists_config_of_prepare (h : c.prepare fs = .ok (s, paths)) :
    ∃ config, c.configuration fs = .ok config ∧ s = c.settings config ∧ Inputs.resolve fs c.inputs = .ok paths := by
  cases hk : c.configuration fs with
  | error e =>
    rw [prepare_of_config_error hk] at h
    cases h
  | ok config =>
    rw [prepare_of_config_ok hk] at h
    cases hi : Inputs.resolve fs c.inputs with
    | error e =>
      rw [hi] at h
      cases h
    | ok ps =>
      rw [hi] at h
      cases h
      exact ⟨config, rfl, rfl, rfl⟩

theorem prepare_of_ok (hc : c.configuration fs = .ok config) (hi : Inputs.resolve fs c.inputs = .ok paths) :
    c.prepare fs = .ok (c.settings config, paths) := by
  rw [prepare_of_config_ok hc, hi]
  rfl

theorem prepare_eq_ok_iff :
    c.prepare fs = .ok (s, paths) ↔ c.Settled fs s ∧ Inputs.resolve fs c.inputs = .ok paths := by
  constructor
  · intro h
    obtain ⟨config, hc, rfl, hi⟩ := exists_config_of_prepare h
    exact ⟨⟨config, configuration_eq_ok_iff.1 hc, c.merged_settings config⟩, hi⟩
  · rintro ⟨⟨config, hc, hs⟩, hi⟩
    rw [merged_iff.1 hs]
    exact prepare_of_ok (configuration_of_configured hc) hi

/-- What a run goes by: its settings, its input files and its rules. -/
structure GoesBy (c : Parse) (fs : FileSystem) (s : Settings) (paths : List String) (r : Rules) : Prop where
  settled : c.Settled fs s
  resolved : Inputs.resolve fs c.inputs = .ok paths
  stored : Stored fs s.rules r

theorem GoesBy.prepare (h : c.GoesBy fs s paths r) : c.prepare fs = .ok (s, paths) :=
  prepare_eq_ok_iff.2 ⟨h.settled, h.resolved⟩

theorem GoesBy.storedRules (h : c.GoesBy fs s paths r) : storedRules fs s.rules = .ok r :=
  storedRules_eq_ok_iff.2 h.stored

theorem goesBy_of (hp : c.prepare fs = .ok (s, paths)) (hr : Command.storedRules fs s.rules = .ok r) :
    c.GoesBy fs s paths r := by
  obtain ⟨hs, hi⟩ := prepare_eq_ok_iff.1 hp
  exact ⟨hs, hi, storedRules_eq_ok_iff.1 hr⟩

section
variable {compiler : Vocabulary.Compiler} {w : Workers}

theorem run_of_unprepared {e : Failure} (h : c.prepare fs = .error e) :
    c.run compiler w fs = { failure := some e, files := fs } := by
  unfold run
  rw [h]

theorem run_of_unloaded {e : Rules.FileError} (hc : c.prepare fs = .ok (s, paths))
    (h : storedRules fs s.rules = .error e) :
    c.run compiler w fs = { failure := some (.ruleFile e), files := fs } := by
  unfold run
  rw [hc]
  dsimp only
  rw [loadRules_of_error h]

/-- From the loaded rules on, a run reads files and concludes. -/
theorem run_of_loadRules {r : Rules} {fs' : FileSystem} (hc : c.prepare fs = .ok (s, paths))
    (h : loadRules fs s.rules s.persistRules = (.ok r, fs')) :
    c.run compiler w fs = c.conclude s fs' (report compiler w fs' s r paths) := by
  unfold run
  rw [hc]
  dsimp only
  rw [h]

theorem run_of_loaded {r : Rules} (hc : c.prepare fs = .ok (s, paths)) (h : storedRules fs s.rules = .ok r) :
    ∃ fs', Leaves fs s.rules s.persistRules r fs' ∧
      ∀ compiler w, c.run compiler w fs = c.conclude s fs' (report compiler w fs' s r paths) := by
  obtain ⟨fs', hload, hleaves⟩ := loadRules_of_ok h s.persistRules
  exact ⟨fs', hleaves, fun _ _ => run_of_loadRules hc hload⟩

/-- Two runs that find the same and name the same rule file both fail before the rules are loaded, and for the same
reason, or they go by the same rules. -/
theorem fail_or_goBy_alongside (c c' : Parse) (hf : c'.findings fs = c.findings fs)
    (hrules : ∀ config, (c'.settings config).rules = (c.settings config).rules) :
    (∃ e : Failure, ∀ compiler w, c.run compiler w fs = { failure := some e, files := fs } ∧
        c'.run compiler w fs = { failure := some e, files := fs }) ∨
      ∃ config paths r, c.GoesBy fs (c.settings config) paths r ∧ c'.GoesBy fs (c'.settings config) paths r := by
  have hp := prepare_eq_map c fs
  have hp' := prepare_eq_map c' fs
  rw [hf] at hp'
  cases hfound : c.findings fs with
  | error e =>
    rw [hfound] at hp hp'
    exact .inl ⟨e, fun _ _ => ⟨run_of_unprepared hp, run_of_unprepared hp'⟩⟩
  | ok x =>
    obtain ⟨config, paths⟩ := x
    rw [hfound] at hp hp'
    cases hr : storedRules fs (c.settings config).rules with
    | error e =>
      have hr' := hrules config ▸ hr
      exact .inl ⟨.ruleFile e, fun _ _ => ⟨run_of_unloaded hp hr, run_of_unloaded hp' hr'⟩⟩
    | ok r => exact .inr ⟨config, paths, r, goesBy_of hp hr, goesBy_of hp' (hrules config ▸ hr)⟩

end

/-- How a run ends: the stage that fails, or where the report goes. -/
inductive Ends (compiler : Vocabulary.Compiler) (w : Workers) (c : Parse) (fs : FileSystem) : Outcome → Prop
  | unprepared {e} (h : c.prepare fs = .error e) : Ends compiler w c fs { failure := some e, files := fs }
  | unloaded {s paths e} (hp : c.prepare fs = .ok (s, paths)) (h : storedRules fs s.rules = .error e) :
      Ends compiler w c fs { failure := some (.ruleFile e), files := fs }
  | unreported {s paths r fs' e} (hp : c.prepare fs = .ok (s, paths)) (hr : storedRules fs s.rules = .ok r)
      (hl : Leaves fs s.rules s.persistRules r fs') (h : report compiler w fs' s r paths = .error e) :
      Ends compiler w c fs { failure := some e, files := fs' }
  | shown {s paths r fs' rep} (hp : c.prepare fs = .ok (s, paths)) (hr : storedRules fs s.rules = .ok r)
      (hl : Leaves fs s.rules s.persistRules r fs') (h : report compiler w fs' s r paths = .ok rep)
      (hout : c.output = "-") : Ends compiler w c fs { stdout := rep.render s.format, files := fs' }
  | uncreated {s paths r fs' rep e} (hp : c.prepare fs = .ok (s, paths)) (hr : storedRules fs s.rules = .ok r)
      (hl : Leaves fs s.rules s.persistRules r fs') (h : report compiler w fs' s r paths = .ok rep)
      (hout : c.output ≠ "-") (hw : fs'.writeText c.output (rep.render s.format) = .error e) :
      Ends compiler w c fs { failure := some (.uncreated c.output e), files := fs' }
  | written {s paths r fs' rep fs''} (hp : c.prepare fs = .ok (s, paths)) (hr : storedRules fs s.rules = .ok r)
      (hl : Leaves fs s.rules s.persistRules r fs') (h : report compiler w fs' s r paths = .ok rep)
      (hout : c.output ≠ "-") (hw : fs'.writeText c.output (rep.render s.format) = .ok fs'') :
      Ends compiler w c fs { files := fs'' }

theorem ends (compiler : Vocabulary.Compiler) (w : Workers) (c : Parse) (fs : FileSystem) :
    c.Ends compiler w fs (c.run compiler w fs) := by
  cases hp : c.prepare fs with
  | error e =>
    rw [run_of_unprepared hp]
    exact .unprepared hp
  | ok sp =>
    obtain ⟨s, paths⟩ := sp
    cases hr : storedRules fs s.rules with
    | error e =>
      rw [run_of_unloaded hp hr]
      exact .unloaded hp hr
    | ok r =>
      obtain ⟨fs', hl, hrun⟩ := run_of_loaded hp hr
      rw [hrun]
      cases h : report compiler w fs' s r paths with
      | error e => exact .unreported hp hr hl h
      | ok rep =>
        rw [conclude]
        by_cases hout : c.output = "-"
        · rw [deliver_of_dash hout]
          exact .shown hp hr hl h hout
        · cases hw : fs'.writeText c.output (rep.render s.format) with
          | error e =>
            rw [deliver_of_error hout hw]
            exact .uncreated hp hr hl h hout hw
          | ok fs'' =>
            rw [deliver_of_ok hout hw]
            exact .written hp hr hl h hout hw

end Parse
end Command
end BracketTree
