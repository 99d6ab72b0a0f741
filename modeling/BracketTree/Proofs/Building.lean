import BracketTree.Parser
import BracketTree.Proofs.Findings

/-! Making a parser of rules. There is one if no finding stands in the way and the pattern compiles; the first finding
that does stand in the way is told before the pattern is looked at. -/

namespace BracketTree

/-- Whether a compiler takes the pattern of a vocabulary. -/
def Vocabulary.Compiles (v : Vocabulary) (compiler : Vocabulary.Compiler) : Prop :=
  ∀ pattern, v.pattern? = some pattern → compiler pattern = .ok ()

namespace Vocabulary
variable {v : Vocabulary} {compiler : Compiler} {pattern reason : String}

theorem compiles_unbounded (v : Vocabulary) : v.Compiles .unbounded := fun _ _ => rfl

theorem compile_of_compiles (h : v.Compiles compiler) : v.compile compiler = .ok () := by
  unfold compile
  cases hp : v.pattern? with
  | none => rfl
  | some pattern => exact h pattern hp

theorem compile_of_refused (hp : v.pattern? = some pattern) (h : compiler pattern = .error reason) :
    v.compile compiler = .error reason := by
  unfold compile
  rw [hp]
  exact h

theorem compiles_or_refused (v : Vocabulary) (compiler : Compiler) :
    v.Compiles compiler ∨ ∃ pattern reason, v.pattern? = some pattern ∧ compiler pattern = .error reason := by
  cases hp : v.pattern? with
  | none =>
    refine .inl fun pattern h => ?_
    rw [hp] at h
    cases h
  | some pattern =>
    cases hc : compiler pattern with
    | ok =>
      refine .inl fun other h => ?_
      obtain rfl := Option.some.inj (hp.symm.trans h)
      exact hc
    | error reason => exact .inr ⟨pattern, reason, rfl, hc⟩

end Vocabulary

namespace Parser
variable {compiler : Vocabulary.Compiler} {r : Rules} {mode : Mode} {strict : Bool}

theorem ofChecked_of_objection {i : Rules.Issue} (h : r.FirstObjection strict i) :
    ofChecked compiler r mode strict = .error (.issue i) := by
  unfold ofChecked
  rw [Rules.objection?_eq_some_iff.2 h]

theorem ofChecked_of_refused {pattern reason : String} (h : r.Unobjected strict)
    (hp : (vocabulary ⟨r, mode⟩).pattern? = some pattern) (hc : compiler pattern = .error reason) :
    ofChecked compiler r mode strict = .error (.pattern reason) := by
  unfold ofChecked
  rw [Rules.objection?_eq_none_iff.2 h]
  dsimp only
  rw [Vocabulary.compile_of_refused hp hc]

theorem ofChecked_of_compiles (h : r.Unobjected strict) (hc : (vocabulary ⟨r, mode⟩).Compiles compiler) :
    ofChecked compiler r mode strict = .ok ⟨r, mode⟩ := by
  unfold ofChecked
  rw [Rules.objection?_eq_none_iff.2 h]
  dsimp only
  rw [Vocabulary.compile_of_compiles hc]

/-- How making a parser goes. -/
theorem ofChecked_cases (compiler : Vocabulary.Compiler) (r : Rules) (mode : Mode) (strict : Bool) :
    (∃ refusal, ofChecked compiler r mode strict = .error refusal) ∨
      ofChecked compiler r mode strict = .ok ⟨r, mode⟩ := by
  cases ho : r.objection? strict with
  | some i => exact .inl ⟨_, ofChecked_of_objection (Rules.objection?_eq_some_iff.1 ho)⟩
  | none =>
    have hr := Rules.objection?_eq_none_iff.1 ho
    obtain hc | ⟨pattern, reason, hp, hc⟩ := Vocabulary.compiles_or_refused (vocabulary ⟨r, mode⟩) compiler
    · exact .inr (ofChecked_of_compiles hr hc)
    · exact .inl ⟨_, ofChecked_of_refused hr hp hc⟩

theorem exists_ofChecked_iff : (∃ p, ofChecked compiler r mode strict = .ok p) ↔
    r.Unobjected strict ∧ (vocabulary ⟨r, mode⟩).Compiles compiler := by
  constructor
  · rintro ⟨p, hp⟩
    cases ho : r.objection? strict with
    | some i =>
      rw [ofChecked_of_objection (Rules.objection?_eq_some_iff.1 ho)] at hp
      cases hp
    | none =>
      have hr := Rules.objection?_eq_none_iff.1 ho
      refine ⟨hr, ?_⟩
      obtain hc | ⟨pattern, reason, hpattern, hc⟩ := Vocabulary.compiles_or_refused (vocabulary ⟨r, mode⟩) compiler
      · exact hc
      · rw [ofChecked_of_refused hr hpattern hc] at hp
        cases hp
  · rintro ⟨hr, hc⟩
    exact ⟨_, ofChecked_of_compiles hr hc⟩

end Parser
end BracketTree
