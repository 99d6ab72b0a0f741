import BracketTree.Proofs.PathOrder
import BracketTree.Proofs.ReportOrder
import BracketTree.Proofs.Stages

/-! What a run means. Everything it tells is settled by the file system as the run finds it: the first stage that fails
decides, and if none fails, the report has for each input file, under its path, the tree of its text under the stored
rules. That the rule file is written back on the way does not show, unless it is an input file too; and who works on
the files does not show either, unless several of them fail. -/

namespace BracketTree.Command

/-- The trees of some files, each under the path of its file. -/
structure TreesOf (fs : FileSystem) (p : Parser) (paths : List String) (trees : StringMap Tree) : Prop where
  keys : trees.keys.Perm paths
  tree : ∀ path ∈ paths, ∃ text t,
    fs.readText path = .ok text ∧ p.parse text = .ok t ∧ trees.find? path = some t

namespace TreesOf
variable {fs : FileSystem} {p : Parser} {paths : List String} {trees trees' : StringMap Tree}

theorem find?_of_not_mem (h : TreesOf fs p paths trees) {path : String} (hp : path ∉ paths) :
    trees.find? path = none := by
  cases ht : trees.find? path with
  | none => rfl
  | some t =>
    have hk : path ∈ trees.keys := List.mem_map_of_mem (StringMap.mem_of_find?_eq_some ht)
    exact absurd (h.keys.mem_iff.1 hk) hp

theorem eq (h : TreesOf fs p paths trees) (h' : TreesOf fs p paths trees') : trees = trees' := by
  apply StringMap.eq_of_find?_eq
  intro path
  by_cases hp : path ∈ paths
  · obtain ⟨text, t, ht, hparse, hfind⟩ := h.tree path hp
    obtain ⟨text', t', ht', hparse', hfind'⟩ := h'.tree path hp
    obtain rfl := Except.ok.inj (ht.symm.trans ht')
    obtain rfl := Except.ok.inj (hparse.symm.trans hparse')
    rw [hfind, hfind']
  · rw [h.find?_of_not_mem hp, h'.find?_of_not_mem hp]

end TreesOf

section
variable {fs : FileSystem} {p : Parser} {paths : List String} {w : Workers} {n : Nat} {rep : Report}
  {trees : StringMap Tree}

end

namespace Parse

/-- Whether a run comes to its input files: nothing is held against its rules, and their pattern is not too large. -/
structure Ready (compiler : Vocabulary.Compiler) (c : Parse) (fs : FileSystem) (s : Settings) (paths : List String)
    (r : Rules) : Prop extends c.GoesBy fs s paths r where
  unobjected : r.Unobjected s.strictRules
  compiles : (s.parser r).vocabulary.Compiles compiler

/-- How an outcome shows a failure, or a text that has been brought to where it belongs. -/
def Shows (c : Parse) (o : Outcome) : Except Failure String → Prop
  | .error e => o.failure = some e ∧ o.stdout = ""
  | .ok text =>
    o.failure = none ∧
      if c.output = "-" then o.stdout = text else o.stdout = "" ∧ o.files.read c.output = .ok text.toUTF8

section
variable {compiler : Vocabulary.Compiler} {c : Parse} {fs : FileSystem} {s : Settings} {r : Rules}
  {paths : List String} {verdict : Except Failure String}

end

end Parse
end BracketTree.Command
