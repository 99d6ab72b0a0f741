import BracketTree.Command.Outcome
import BracketTree.Proofs.Building

/-! Rules are judged in three places: when they are checked, when a parser is made of them, and by the command that says
what is wrong with a rule file. The command counts errors and warnings, the others look for the first finding that
stands in the way, and all come to the same verdict. -/

namespace BracketTree

namespace Command

/-- There is neither an error nor, if rules are judged strictly, a warning just if no finding stands in the way. -/
theorem verdict?_eq_none_iff {issues : List Rules.Issue} {strict : Bool} :
    verdict? issues strict = none ↔ ∀ i ∈ issues, ¬ i.Bars strict := by
  have hle : issues.countP (·.severity = .error) ≤ issues.length := List.countP_le_length
  cases strict with
  | false => simp [verdict?, Rules.Issue.Bars]
  | true =>
    have hnil : (∀ i ∈ issues, ¬ i.Bars true) ↔ issues.length = 0 := by
      simp [Rules.Issue.Bars, List.eq_nil_iff_forall_not_mem]
    rw [hnil, verdict?]
    simp only [Bool.true_and, Bool.or_eq_true, decide_eq_true_eq, ite_eq_right_iff, reduceCtorEq, imp_false]
    omega

theorem Validate.failure_run_eq_none_iff {c : Validate} {fs : FileSystem} {r : Rules}
    (h : Rules.load fs c.rules = .ok r) : (c.run fs).failure = none ↔ r.objection? c.strict = none := by
  rw [Rules.objection?_eq_none_iff, Rules.Unobjected, ← verdict?_eq_none_iff, run, h]
  dsimp only
  cases verdict? r.issues c.strict with
  | none => simp
  | some e => simp

/-- Every finding is made as often as there is occasion for it, the one about empty tokens, which alone is an error, in
front. So only an empty token stands in the way of lenient use, and nothing in the way of strict use of clean rules;
and on a rule file the command that judges it, the check of its rules and, if their pattern is not too large to compile,
the making of a parser agree. -/
theorem findings_exact_and_verdicts_agree (r : Rules) :
    (∀ i, r.issues.count i = r.occasions i) ∧ (r.issues.head? = some .emptyToken ↔ "" ∈ r.tokens) ∧
      (∀ i ∈ r.issues, i.severity = .error ↔ i = .emptyToken) ∧
      (r.objection? false = none ↔ "" ∉ r.tokens) ∧ (r.objection? true = none ↔ r.Clean) ∧
      (∀ i, r.objection? false = some i → r.objection? true = some i) ∧
      ∀ (fs : FileSystem) (c : Validate), Rules.load fs c.rules = .ok r →
        ((c.run fs).failure = none ↔ r.objection? c.strict = none) ∧
          ∀ compiler mode, (Parser.vocabulary ⟨r, mode⟩).Compiles compiler →
            ((∃ p, Parser.ofChecked compiler r mode c.strict = .ok p) ↔ r.objection? c.strict = none) := by
  refine ⟨r.count_issues, Rules.head?_issues_eq_emptyToken_iff, fun i _ => Rules.severity_eq_error_iff,
    Rules.objection?_lenient_eq_none_iff, Rules.objection?_strict_eq_none_iff,
    fun i => Rules.objection?_strict_of_lenient, ?_⟩
  intro fs c h
  refine ⟨Validate.failure_run_eq_none_iff h, ?_⟩
  intro compiler mode hsize
  rw [Parser.exists_ofChecked_iff, Rules.objection?_eq_none_iff, and_iff_left hsize]

theorem findings_exact_and_verdicts_agree_self_closing :
    let fs : FileSystem := { entries := [(["r.toml"], .file "extra = ['|', '|']\n[bounds]\n'|' = '|'".toUTF8)] }
    let r : Rules := { bounds := .ofList [("|", "|")], extra := ["|", "|"] }
    Rules.load fs "r.toml" = .ok r ∧
      r.issues.count (.selfClosing "|") = 1 ∧ r.issues.count (.openAndClose "|") = 0 ∧
      (Validate.run { rules := "r.toml" } fs).failure = none ∧
      (Validate.run { rules := "r.toml", strict := true } fs).failure ≠ none ∧ ¬ r.Clean ∧
      ¬ ∃ p, Parser.ofChecked .unbounded r .lenient true = .ok p := by
  intro fs r
  have hload : Rules.load fs "r.toml" = .ok r := by decide +kernel
  have hlenient : r.objection? false = none := by decide +kernel
  have hstrict : r.objection? true ≠ none := by decide +kernel
  obtain ⟨hcount, -, -, -, hclean, -, hagree⟩ := findings_exact_and_verdicts_agree r
  refine ⟨hload, (hcount _).trans ?_, (hcount _).trans ?_, ?_, ?_, ?_, ?_⟩
  · decide +kernel
  · decide +kernel
  · exact (hagree fs { rules := "r.toml" } hload).1.2 hlenient
  · exact fun h => hstrict ((hagree fs { rules := "r.toml", strict := true } hload).1.1 h)
  · exact fun h => hstrict (hclean.2 h)
  · intro h
    refine hstrict (((hagree fs { rules := "r.toml", strict := true } hload).2 .unbounded .lenient ?_).1 h)
    exact Vocabulary.compiles_unbounded _

end Command
end BracketTree
