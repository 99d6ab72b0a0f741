import BracketTree.Proofs.FlagFirst
import BracketTree.Proofs.Ownership
import BracketTree.Proofs.PathOrder

/-! Writing rules back has no bearing on a run. The run that does and the one that does not go through the same stages
with the same rules and the same texts, as long as the rule file is not read again as an input file; they show the
same, put the same into the output file, and leave the rule file with different bytes at most. Why they fail is the
same too, but for what any two runs may differ in: if several input files fail, it is up to those who work on them
which is told. -/

namespace BracketTree.Command

namespace Parse

/-- Why two runs on the same files fail, if they do: for the same reason, or each because of some input file. -/
inductive TellAlike (c : Parse) (fs : FileSystem) : Option Failure → Option Failure → Prop
  | same {failure} : TellAlike c fs failure failure
  | files {s paths r a b d e} (hg : c.GoesBy fs s paths r) (ha : a ∈ paths) (hb : b ∈ paths) (hne : a ≠ b)
      (hd : Fails fs (s.parser r) a d) (he : Fails fs (s.parser r) b e) : TellAlike c fs (some d) (some e)

/-- Two outcomes that show the same, and differ in the bytes of the rule file at most. -/
structure Alike (c : Parse) (fs : FileSystem) (o o' : Outcome) : Prop where
  stdout : o'.stdout = o.stdout
  failure : c.TellAlike fs o.failure o'.failure
  output : c.output ≠ "-" → o'.files.open? c.output = o.files.open? c.output
  files : o.files.SameBut (c.PlaceOfRules fs) o'.files

variable {compiler : Vocabulary.Compiler} {w w' : Workers} {c : Parse} {fs fs' : FileSystem} {s : Settings}
  {r : Rules} {paths : List String}

theorem alike_refl (c : Parse) (fs : FileSystem) (o : Outcome) : c.Alike fs o o :=
  ⟨rfl, .same, fun _ => rfl, .refl _ o.files⟩

theorem open?_output_of_leaves (hp : c.prepare fs = .ok (s, paths)) (hl : Leaves fs s.rules s.persistRules r fs')
    (hout : c.output ≠ "-" → ∀ rules ∈ c.persisted? fs, ¬ fs.SameFile rules c.output) (h : c.output ≠ "-") :
    fs'.open? c.output = fs.open? c.output := by
  apply hl.open?_eq
  intro rules hrules hpersist
  exact hout h rules (mem_persisted?_of_prepare hp hrules hpersist)

/-- What comes after the rules have been loaded does not depend on whether they have been written back. -/
theorem conclude_alike (hp : c.prepare fs = .ok (s, paths)) (hl : Leaves fs s.rules s.persistRules r fs')
    (hout : c.output ≠ "-" → ∀ rules ∈ c.persisted? fs, ¬ fs.SameFile rules c.output)
    (result : Except Failure Report) : c.Alike fs (c.conclude s fs result) (c.conclude s fs' result) := by
  have hfiles := sameBut_of_leaves hp hl
  have hopen := open?_output_of_leaves hp hl hout
  cases result with
  | error e => exact ⟨rfl, .same, hopen, hfiles⟩
  | ok rep =>
    rw [conclude, conclude]
    by_cases h : c.output = "-"
    · rw [deliver_of_dash h, deliver_of_dash h]
      exact ⟨rfl, .same, hopen, hfiles⟩
    cases hw' : fs'.writeText c.output (rep.render s.format) with
    | error e =>
      rw [deliver_of_error h hw', deliver_of_error h (hl.writeText_error_iff.1 hw')]
      exact ⟨rfl, .same, hopen, hfiles⟩
    | ok gs' =>
      cases hw : fs.writeText c.output (rep.render s.format) with
      | error e =>
        rw [hl.writeText_error_iff.2 hw] at hw'
        cases hw'
      | ok gs =>
        obtain ⟨l, hloc, hwrote⟩ := FileSystem.writeText_ok hw
        obtain ⟨l', hloc', hwrote'⟩ := FileSystem.writeText_ok hw'
        have hll : l' = l := by
          rw [hl.locate_eq, hloc] at hloc'
          exact (Except.ok.inj hloc').symm
        subst hll
        rw [deliver_of_ok h hw, deliver_of_ok h hw']
        refine ⟨rfl, .same, ?_, hfiles.wrote hwrote hwrote'⟩
        intro _
        rw [hwrote'.open?_of_locate hloc', hwrote.open?_of_locate hloc, if_pos rfl, if_pos rfl]

theorem run_alike_noPersist
    (hin : ∀ paths, Inputs.resolve fs c.inputs = .ok paths →
      ∀ rules ∈ c.persisted? fs, ∀ path ∈ paths, ¬ fs.SameFile rules path)
    (hout : c.output ≠ "-" → ∀ rules ∈ c.persisted? fs, ¬ fs.SameFile rules c.output) :
    c.Alike fs (Parse.run { c with noPersist := true } compiler w fs) (c.run compiler w' fs) := by
  have hf : findings { c with noPersist := true } fs = c.findings fs := rfl
  obtain ⟨e, hfail⟩ | ⟨config, paths, r, hg, hg'⟩ := fail_or_goBy_alongside c _ hf fun _ => rfl
  · rw [(hfail compiler w').1, (hfail compiler w).2]
    exact alike_refl c fs _
  · obtain ⟨fs', hl, hrun⟩ := run_of_loaded hg.prepare hg.storedRules
    obtain ⟨fs'', hl', hrun'⟩ := run_of_loaded hg'.prepare hg'.storedRules
    obtain rfl := hl'.eq_of_not_persist
    have hopen := hl.open?_eq_of_apart fun rules hrules hpersist =>
      hin paths hg.resolved rules (mem_persisted?_of_prepare hg.prepare hrules hpersist)
    rw [hrun, hrun', report_congr hopen]
    obtain heq | ⟨a, ha, b, hb, d, e, hne, hd, he, hreport, hreport'⟩ := report_eq_or compiler w w' fs''
      (settings { c with noPersist := true } config) (c.settings config) r paths rfl rfl
    · rw [heq]
      exact conclude_alike hg.prepare hl hout _
    · rw [hreport, hreport']
      exact ⟨rfl, .files hg ha hb hne hd he, open?_output_of_leaves hg.prepare hl hout,
        sameBut_of_leaves hg.prepare hl⟩

end Parse

/-- A command line for parsing and the same with the flag in front, by which the rule file is left as it is, show the
same, unless the rule file is an input file or the output file. -/
theorem no_persist_alike {environment : Option String} {args : List String} {c : Parse} {fs : FileSystem}
    (hread : CommandLine.read environment ("parse" :: args) = .ok (.parse c)) (hno : c.noPersist = false)
    (hin : ∀ paths, Inputs.resolve fs c.inputs = .ok paths →
      ∀ rules ∈ c.persisted? fs, ∀ path ∈ paths, ¬ fs.SameFile rules path)
    (hout : c.output ≠ "-" → ∀ rules ∈ c.persisted? fs, ¬ fs.SameFile rules c.output) :
    ∃ c', CommandLine.read environment ("parse" :: "--no-persist" :: args) = .ok (.parse c') ∧
      ∀ compiler w w', c.Alike fs (c'.run compiler w fs) (c.run compiler w' fs) := by
  refine ⟨{ c with noPersist := true }, ?_, ?_⟩
  · exact CommandLine.read_noPersist_first hread hno
  · intro compiler w w'
    exact Parse.run_alike_noPersist hin hout

def emptyRules : FileSystem :=
  { entries := [(["r.toml"], .file "".toUTF8), (["in.txt"], .file "a\nb".toUTF8)] }

theorem no_persist_alike_empty_rules :
    ∃ c', CommandLine.read none ["parse", "--no-persist", "in.txt", "-r", "r.toml"] = .ok (.parse c') ∧
      (c'.run .unbounded .inTurn emptyRules).stdout =
        (Parse.run { inputs := ["in.txt"], rules := some "r.toml" } .unbounded .inTurn emptyRules).stdout := by
  have hi : Inputs.resolve emptyRules ["in.txt"] = .ok ["in.txt"] := by decide +kernel
  have hread : CommandLine.read none ["parse", "in.txt", "-r", "r.toml"] =
      .ok (.parse { inputs := ["in.txt"], rules := some "r.toml" }) := by decide +kernel
  have hin : ∀ paths, Inputs.resolve emptyRules ["in.txt"] = .ok paths →
      ∀ rules ∈ some "r.toml", ∀ path ∈ paths, ¬ emptyRules.SameFile rules path := by
    intro paths hpaths
    obtain rfl := Except.ok.inj (hi.symm.trans hpaths)
    decide +kernel
  obtain ⟨c', hread', halike⟩ := no_persist_alike hread rfl hin fun hout => absurd rfl hout
  exact ⟨c', hread', (halike .unbounded .inTurn .inTurn).stdout.symm⟩

/-- One who begins with the last file. -/
def Workers.backwards : Workers where
  gather _ results := (results.reverse.mapM id).map List.reverse
  gathered _ results := by
    cases h : results.reverse.mapM id with
    | ok rep =>
      rw [mapM_eq_ok_iff, List.map_id] at h
      change results = rep.reverse.map .ok
      rw [List.map_reverse, ← h, List.reverse_reverse]
    | error e =>
      obtain ⟨x, hx, rfl⟩ := exists_error_of_mapM h
      exact List.mem_reverse.1 hx

def noTexts : FileSystem := { entries := [(["a.txt"], .file ⟨#[255]⟩), (["b.txt"], .file ⟨#[255]⟩)] }

theorem resolve_noTexts : Inputs.resolve noTexts ["a.txt", "b.txt"] = .ok ["a.txt", "b.txt"] := by
  have hf : ["a.txt", "b.txt"].mapM (Inputs.found noTexts) = .ok [["a.txt"], ["b.txt"]] := by decide +kernel
  rw [Inputs.resolve_of_pairwise hf (by decide +kernel)]
  decide +kernel

/-- Where the rule file is an input file, it is written back before it is read as one, and then it shows. And where two
input files fail, it shows who works on them. -/
theorem rules_as_input_show :
    (CommandLine.read none ["parse", "r.toml", "-r", "r.toml"] =
          .ok (.parse { inputs := ["r.toml"], rules := some "r.toml" }) ∧
        CommandLine.read none ["parse", "--no-persist", "r.toml", "-r", "r.toml"] =
          .ok (.parse { inputs := ["r.toml"], rules := some "r.toml", noPersist := true }) ∧
        (Parse.run { inputs := ["r.toml"], rules := some "r.toml" } .unbounded .inTurn emptyRules).stdout ≠
          (Parse.run { inputs := ["r.toml"], rules := some "r.toml", noPersist := true } .unbounded .inTurn
            emptyRules).stdout) ∧
      CommandLine.read none ["parse", "a.txt", "b.txt"] = .ok (.parse { inputs := ["a.txt", "b.txt"] }) ∧
      CommandLine.read none ["parse", "--no-persist", "a.txt", "b.txt"] =
        .ok (.parse { inputs := ["a.txt", "b.txt"], noPersist := true }) ∧
      (Parse.run { inputs := ["a.txt", "b.txt"] } .unbounded .backwards noTexts).failure ≠
        (Parse.run { inputs := ["a.txt", "b.txt"], noPersist := true } .unbounded .inTurn noTexts).failure := by
  refine ⟨by decide +kernel, by decide +kernel, by decide +kernel, ?_⟩
  rw [Parse.run_of_loadRules (Parse.prepare_of_ok rfl resolve_noTexts) rfl,
    Parse.run_of_loadRules (Parse.prepare_of_ok rfl resolve_noTexts) rfl]
  decide +kernel

end BracketTree.Command
