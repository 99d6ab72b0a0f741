import BracketTree.Command.Outcome
import BracketTree.Proofs.ConfigFile

/-! The settings of a run. If a configuration file is named, it is read, and has to spell a configuration; if none is,
nothing is configured. What is said on the command line goes before what is said in the file. -/

namespace BracketTree.Command.Parse

/-- What a run finds configured. -/
inductive Configured (c : Parse) (fs : FileSystem) : Config → Prop
  | unnamed (h : c.config = none) : Configured c fs {}
  | named {path text table config} (h : c.config = some path) (ht : fs.readText path = .ok text)
      (hread : Toml.Table.read? text = some table) (hsaid : Config.SaidBy config table) : Configured c fs config

/-- What the command line and the configuration amount to. -/
structure Merged (c : Parse) (config : Config) (s : Settings) : Prop where
  rules_of_line : ∀ path, c.rules = some path → s.rules = some path
  rules_of_file : c.rules = none → s.rules = config.processing.rules
  format_of_line : ∀ f, c.format = some f → s.format = f
  format_of_file : c.format = none → s.format =
    if config.output.format = .json ∧ config.output.pretty = false then .compact else config.output.format
  strict : s.strict = true ↔ c.strict = true ∨ config.processing.strict = true
  strictRules : s.strictRules = true ↔ c.strictRules = true ∨ config.processing.strictRules = true
  persistRules : s.persistRules = true ↔ c.noPersist = false ∧ config.processing.persistRules = true
  threads_of_line : ∀ n, c.threads = some n → s.threads = n
  threads_of_file : c.threads = none → s.threads = config.processing.threads

/-- The settings of a run. -/
def Settled (c : Parse) (fs : FileSystem) (s : Settings) : Prop := ∃ config, c.Configured fs config ∧ c.Merged config s

variable {c : Parse} {fs : FileSystem} {config : Config} {s s' : Settings} {paths : List String}

/-! The configuration. -/

theorem configuration_of_configured (h : c.Configured fs config) : c.configuration fs = .ok config := by
  unfold configuration
  cases h with
  | unnamed h => rw [h]
  | named h ht hread hsaid =>
    rw [h]
    dsimp only
    rw [ht]
    dsimp only [Except.toOption, Option.bind]
    rw [Config.read?_eq_some_iff.2 ⟨_, hread, hsaid⟩]

theorem configuration_of_not_configured {path : String} (h : c.config = some path)
    (hnone : ∀ config, ¬ c.Configured fs config) : c.configuration fs = .error (.config path) := by
  unfold configuration
  rw [h]
  dsimp only
  cases hc : (fs.readText path).toOption.bind Config.read? with
  | none => rfl
  | some config =>
    obtain ⟨text, ht, hr⟩ := Option.bind_eq_some_iff.1 hc
    cases hread : fs.readText path with
    | error e =>
      rw [hread] at ht
      cases ht
    | ok text' =>
      rw [hread] at ht
      obtain rfl := Option.some.inj ht
      obtain ⟨table, htable, hsaid⟩ := Config.read?_eq_some_iff.1 hr
      exact absurd (.named h hread htable hsaid) (hnone config)

theorem configured_or_not (c : Parse) (fs : FileSystem) : (∃ config, c.Configured fs config) ∨
    ∃ path, c.config = some path ∧ ∀ config, ¬ c.Configured fs config := by
  by_cases h : ∃ config, c.Configured fs config
  · exact .inl h
  · rw [not_exists] at h
    cases hpath : c.config with
    | none => exact absurd (.unnamed hpath) (h {})
    | some path => exact .inr ⟨path, rfl, h⟩

theorem configuration_eq_ok_iff : c.configuration fs = .ok config ↔ c.Configured fs config := by
  refine ⟨fun h => ?_, configuration_of_configured⟩
  obtain ⟨config', hc⟩ | ⟨path, hpath, hnone⟩ := c.configured_or_not fs
  · rw [configuration_of_configured hc] at h
    exact Except.ok.inj h ▸ hc
  · rw [configuration_of_not_configured hpath hnone] at h
    cases h

/-! What goes before what. -/

theorem merged_settings (c : Parse) (config : Config) : c.Merged config (c.settings config) where
  rules_of_line path h := by simp [settings, h]
  rules_of_file h := by simp [settings, h]
  format_of_line f h := by simp [settings, h]
  format_of_file h := by simp [settings, h, Config.Output.effectiveFormat]
  strict := by simp [settings]
  strictRules := by simp [settings]
  persistRules := by simp [settings]
  threads_of_line n h := by simp [settings, h]
  threads_of_file h := by simp [settings, h]

/-- What one source of settings decides when it speaks, and another when it does not, is decided. -/
theorem eq_of_sources {α β : Type} {said : Option α} {a b : β} {f : α → β} {d : β} (ha : ∀ x, said = some x → a = f x)
    (ha' : said = none → a = d) (hb : ∀ x, said = some x → b = f x) (hb' : said = none → b = d) : a = b := by
  cases said with
  | none => exact (ha' rfl).trans (hb' rfl).symm
  | some x => exact (ha x rfl).trans (hb x rfl).symm

theorem Merged.eq (h : c.Merged config s) (h' : c.Merged config s') : s = s' := by
  have hrules := eq_of_sources h.rules_of_line h.rules_of_file h'.rules_of_line h'.rules_of_file
  have hformat := eq_of_sources h.format_of_line h.format_of_file h'.format_of_line h'.format_of_file
  have hstrict := Bool.eq_iff_iff.2 (h.strict.trans h'.strict.symm)
  have hstrictRules := Bool.eq_iff_iff.2 (h.strictRules.trans h'.strictRules.symm)
  have hpersist := Bool.eq_iff_iff.2 (h.persistRules.trans h'.persistRules.symm)
  have hthreads := eq_of_sources h.threads_of_line h.threads_of_file h'.threads_of_line h'.threads_of_file
  obtain ⟨_, _, _, _, _, _⟩ := s
  obtain ⟨_, _, _, _, _, _⟩ := s'
  rw [Settings.mk.injEq]
  exact ⟨hrules, hformat, hstrict, hstrictRules, hpersist, hthreads⟩

theorem merged_iff : c.Merged config s ↔ s = c.settings config := by
  constructor
  · intro h
    exact h.eq (c.merged_settings config)
  · rintro rfl
    exact c.merged_settings config

end BracketTree.Command.Parse
