import BracketTree.Proofs.InTurn
import BracketTree.Proofs.PathOrder

/-! The files that patterns stand for, as a set in order. Every pattern has to be well made and stand for a file, and
the first that does not is told. Otherwise a file is there, under some spelling of its path, just when a pattern stands
for it, and as what strictly increases is determined by what is in it, neither the order of the patterns nor how often
one is given makes a difference. -/

namespace BracketTree.Inputs
variable {fs : FileSystem} {pattern path p q : String} {paths ps qs : List String}

/-- Whether a pattern is made as patterns have to be. No file is looked at for that. -/
def IsPattern (pattern : String) : Prop := ∃ parts, Wildcard.components pattern = .ok parts

/-- Whether a pattern stands for a path that leads to a file. -/
def Matches (fs : FileSystem) (pattern path : String) : Prop :=
  ∃ paths, Wildcard.search fs pattern = .ok paths ∧ path ∈ paths ∧ fs.isFile path = true

/-- What can be wrong with a pattern, as an error that names it. -/
inductive Fault (fs : FileSystem) (pattern : String) : Error → Prop
  | invalid {e : Wildcard.Error} : Wildcard.components pattern = .error e → Fault fs pattern (.invalidPattern pattern e)
  | notFound : IsPattern pattern → (∀ path, ¬ Matches fs pattern path) → Fault fs pattern (.notFound pattern)

def Usable (fs : FileSystem) (pattern : String) : Prop := IsPattern pattern ∧ ∃ path, Matches fs pattern path

/-! One pattern. -/

theorem search_of_components_error {e : Wildcard.Error} (h : Wildcard.components pattern = .error e) :
    Wildcard.search fs pattern = .error e := by
  unfold Wildcard.search
  rw [h]
  rfl

theorem exists_search_of_isPattern (fs : FileSystem) (h : IsPattern pattern) :
    ∃ paths, Wildcard.search fs pattern = .ok paths := by
  obtain ⟨parts, hparts⟩ := h
  unfold Wildcard.search
  rw [hparts]
  exact ⟨_, rfl⟩

theorem Matches.isPattern (h : Matches fs pattern path) : IsPattern pattern := by
  obtain ⟨paths, hsearch, -⟩ := h
  cases hparts : Wildcard.components pattern with
  | ok parts => exact ⟨parts, hparts⟩
  | error e =>
    rw [search_of_components_error hparts] at hsearch
    cases hsearch

theorem matches_iff_of_search (h : Wildcard.search fs pattern = .ok paths) :
    Matches fs pattern path ↔ path ∈ paths.filter fs.isFile := by
  simp [Matches, h]

/-- What is found for a pattern: the files it stands for, or what is wrong with it. -/
theorem found_cases (fs : FileSystem) (pattern : String) :
    (∃ e, found fs pattern = .error e ∧ Fault fs pattern e) ∨
      ∃ files, found fs pattern = .ok files ∧ Usable fs pattern ∧ ∀ path, path ∈ files ↔ Matches fs pattern path := by
  cases hparts : Wildcard.components pattern with
  | error e =>
    refine .inl ⟨.invalidPattern pattern e, ?_, .invalid hparts⟩
    rw [found, search_of_components_error hparts]
  | ok parts =>
    obtain ⟨paths, hsearch⟩ := exists_search_of_isPattern fs ⟨parts, hparts⟩
    rw [found, hsearch]
    dsimp only
    cases hfiles : paths.filter fs.isFile with
    | nil =>
      refine .inl ⟨.notFound pattern, rfl, .notFound ⟨parts, hparts⟩ fun path hm => ?_⟩
      rw [matches_iff_of_search hsearch, hfiles] at hm
      cases hm
    | cons file files =>
      have hm : ∀ path, path ∈ file :: files ↔ Matches fs pattern path := by
        intro path
        rw [matches_iff_of_search hsearch, hfiles]
      exact .inr ⟨file :: files, rfl, ⟨⟨parts, hparts⟩, file, (hm file).1 List.mem_cons_self⟩, hm⟩

theorem Fault.not_usable {e : Error} (h : Fault fs pattern e) : ¬ Usable fs pattern := by
  rintro ⟨hp, path, hm⟩
  cases h with
  | invalid he =>
    obtain ⟨parts, hparts⟩ := hp
    rw [hparts] at he
    cases he
  | notFound _ hnone => exact hnone path hm

theorem Fault.unique {d e : Error} (hd : Fault fs pattern d) (he : Fault fs pattern e) : d = e := by
  cases hd with
  | invalid hd =>
    cases he with
    | invalid he => rw [Except.error.inj (hd.symm.trans he)]
    | notFound hp =>
      obtain ⟨parts, hparts⟩ := hp
      rw [hparts] at hd
      cases hd
  | notFound hp =>
    cases he with
    | invalid he =>
      obtain ⟨parts, hparts⟩ := hp
      rw [hparts] at he
      cases he
    | notFound => rfl

theorem exists_found_iff : (∃ files, found fs pattern = .ok files) ↔ Usable fs pattern := by
  rcases found_cases fs pattern with ⟨e, he, hfault⟩ | ⟨files, hfiles, husable, -⟩
  · simp [he, hfault.not_usable]
  · simp [hfiles, husable]

theorem found_eq_error_iff {e : Error} : found fs pattern = .error e ↔ Fault fs pattern e := by
  rcases found_cases fs pattern with ⟨d, hd, hfault⟩ | ⟨files, hfiles, husable, -⟩
  · rw [hd, Except.error.injEq]
    exact ⟨fun h => h ▸ hfault, hfault.unique⟩
  · rw [hfiles]
    exact iff_of_false (by simp) fun h => h.not_usable husable

theorem mem_of_found {files : List String} (h : found fs pattern = .ok files) :
    path ∈ files ↔ Matches fs pattern path := by
  rcases found_cases fs pattern with ⟨e, he, -⟩ | ⟨files', hfiles, -, hmem⟩
  · rw [he] at h
    cases h
  · obtain rfl := Except.ok.inj (h.symm.trans hfiles)
    exact hmem path

/-! Dropping what is the same. -/

theorem same_refl (p : String) : same p p = true := decide_eq_true rfl

theorem same_iff : same p q = true ↔ Path.components p = Path.components q := decide_eq_true_iff

theorem mem_of_mem_dropSame (h : q ∈ dropSame p ps) : q ∈ ps := by
  induction ps generalizing p with
  | nil => cases h
  | cons r ps ih =>
    rw [dropSame] at h
    split_ifs at h
    · exact List.mem_cons_of_mem r (ih h)
    · rcases List.mem_cons.1 h with rfl | h
      · exact List.mem_cons_self
      · exact List.mem_cons_of_mem r (ih h)

theorem exists_same_of_mem (h : q ∈ p :: ps) : ∃ r ∈ p :: dropSame p ps, same q r = true := by
  induction ps generalizing p with
  | nil => exact ⟨q, h, same_refl q⟩
  | cons r ps ih =>
    rcases List.mem_cons.1 h with rfl | h
    · exact ⟨q, List.mem_cons_self, same_refl q⟩
    rw [dropSame]
    split_ifs with hs
    · rcases List.mem_cons.1 h with rfl | h
      · exact ⟨p, List.mem_cons_self, same_iff.2 (same_iff.1 hs).symm⟩
      · exact ih (List.mem_cons_of_mem p h)
    · obtain ⟨s, hmem, hsame⟩ := ih h
      exact ⟨s, List.mem_cons_of_mem p hmem, hsame⟩

theorem mem_of_mem_distinct (h : q ∈ distinct ps) : q ∈ ps := by
  cases ps with
  | nil => cases h
  | cons p ps =>
    rcases List.mem_cons.1 h with rfl | h
    · exact List.mem_cons_self
    · exact List.mem_cons_of_mem p (mem_of_mem_dropSame h)

theorem exists_same_mem_distinct (h : q ∈ ps) : ∃ r ∈ distinct ps, same q r = true := by
  cases ps with
  | nil => cases h
  | cons p ps => exact exists_same_of_mem h

/-- What strictly increases is determined by what is in it. -/
theorem components_eq_of_pairwise (hp : ps.Pairwise Precedes) (hq : qs.Pairwise Precedes)
    (h : ∀ c, c ∈ ps.map Path.components ↔ c ∈ qs.map Path.components) :
    ps.map Path.components = qs.map Path.components := by
  have hpairwise : ∀ {rs : List String}, rs.Pairwise Precedes →
      (rs.map Path.components).Pairwise fun a b => Path.before a b = true := fun hr => List.pairwise_map.2 hr
  have hnodup : ∀ {rs : List String}, rs.Pairwise Precedes → (rs.map Path.components).Nodup := by
    intro rs hr
    refine (hpairwise hr).imp ?_
    rintro a b hab rfl
    rw [Path.before_irrefl] at hab
    cases hab
  have hperm := (List.perm_ext_iff_of_nodup (hnodup hp) (hnodup hq)).2 h
  refine hperm.eq_of_pairwise ?_ (hpairwise hp) (hpairwise hq)
  intro a b _ _ hab hba
  have haa := Path.before_trans hab hba
  rw [Path.before_irrefl] at haa
  cases haa

/-! All patterns. -/

variable {patterns : List String}

theorem resolve_eq_map (fs : FileSystem) (patterns : List String) : resolve fs patterns =
    (patterns.mapM (found fs)).map fun pss => distinct (pss.flatten.mergeSort inOrder) := by
  unfold resolve
  cases patterns.mapM (found fs) <;> rfl

theorem exists_resolve_iff : (∃ paths, resolve fs patterns = .ok paths) ↔ ∀ p ∈ patterns, Usable fs p := by
  have hfound : (∀ p ∈ patterns, Usable fs p) ↔ ∃ pss, patterns.mapM (found fs) = .ok pss := by
    simp only [exists_mapM_ok_iff, exists_found_iff]
  rw [hfound, resolve_eq_map]
  cases patterns.mapM (found fs) <;> simp [Except.map]

theorem resolve_eq_error_iff {e : Error} : resolve fs patterns = .error e ↔
    ∃ before p after, patterns = before ++ p :: after ∧ (∀ q ∈ before, Usable fs q) ∧ Fault fs p e := by
  have hfound : resolve fs patterns = .error e ↔ patterns.mapM (found fs) = .error e := by
    rw [resolve_eq_map]
    cases patterns.mapM (found fs) <;> simp [Except.map]
  simp only [hfound, mapM_eq_error_iff, exists_found_iff, found_eq_error_iff]

/-- No path is made up, and none that a pattern stands for is left out. -/
theorem mem_resolve (h : resolve fs patterns = .ok paths) :
    (∀ path ∈ paths, ∃ p ∈ patterns, Matches fs p path) ∧
      ∀ p ∈ patterns, ∀ path, Matches fs p path → ∃ q ∈ paths, same path q = true := by
  rw [resolve_eq_map] at h
  cases hm : patterns.mapM (found fs) with
  | error e => rw [hm] at h; cases h
  | ok pss =>
    rw [hm] at h
    obtain rfl := Except.ok.inj h
    have hmem : ∀ path, path ∈ pss.flatten.mergeSort inOrder ↔ ∃ p ∈ patterns, Matches fs p path := by
      intro path
      rw [List.mem_mergeSort, List.mem_flatten]
      constructor
      · rintro ⟨files, hfiles, hpath⟩
        obtain ⟨p, hp, hfound⟩ := (mem_of_mapM_ok hm).1 hfiles
        exact ⟨p, hp, (mem_of_found hfound).1 hpath⟩
      · rintro ⟨p, hp, hpath⟩
        obtain ⟨files, hfound⟩ := exists_found_iff.2 ⟨hpath.isPattern, path, hpath⟩
        exact ⟨files, (mem_of_mapM_ok hm).2 ⟨p, hp, hfound⟩, (mem_of_found hfound).2 hpath⟩
    refine ⟨fun path hpath => (hmem path).1 (mem_of_mem_distinct hpath), ?_⟩
    intro p hp path hpath
    exact exists_same_mem_distinct ((hmem path).2 ⟨p, hp, hpath⟩)

theorem mem_components_resolve (h : resolve fs patterns = .ok paths) (c : List Path.Component) :
    c ∈ paths.map Path.components ↔ ∃ p ∈ patterns, ∃ q, Matches fs p q ∧ Path.components q = c := by
  obtain ⟨hsound, hcomplete⟩ := mem_resolve h
  rw [List.mem_map]
  constructor
  · rintro ⟨q, hq, hc⟩
    obtain ⟨p, hp, hm⟩ := hsound q hq
    exact ⟨p, hp, q, hm, hc⟩
  · rintro ⟨p, hp, q, hm, hc⟩
    obtain ⟨r, hr, hqr⟩ := hcomplete p hp q hm
    exact ⟨r, hr, (same_iff.1 hqr).symm.trans hc⟩

/-- Neither the order of the patterns nor how often one is given makes a difference. -/
theorem components_resolve_congr {patterns' : List String} (hsame : ∀ p, p ∈ patterns' ↔ p ∈ patterns)
    (h : resolve fs patterns = .ok paths) :
    ∃ paths', resolve fs patterns' = .ok paths' ∧ paths'.map Path.components = paths.map Path.components := by
  have husable : ∀ p ∈ patterns', Usable fs p := fun p hp => exists_resolve_iff.1 ⟨paths, h⟩ p ((hsame p).1 hp)
  obtain ⟨paths', h'⟩ := exists_resolve_iff.2 husable
  refine ⟨paths', h', components_eq_of_pairwise (pairwise_resolve h') (pairwise_resolve h) fun c => ?_⟩
  rw [mem_components_resolve h', mem_components_resolve h]
  simp only [hsame]

/-- The files that patterns stand for are a set in order. They are found if every pattern is well made and stands for a
file, and otherwise the first pattern that does not is told. They strictly increase, one of them has the components of a
path if a pattern stands for such a path, and only the set of patterns matters. -/
theorem resolve_ordered_set (fs : FileSystem) (patterns : List String) :
    ((∃ paths, resolve fs patterns = .ok paths) ↔ ∀ p ∈ patterns, IsPattern p ∧ ∃ path, Matches fs p path) ∧
      (∀ paths, resolve fs patterns = .ok paths →
        paths.Pairwise Precedes ∧
        (∀ path ∈ paths, ∃ p ∈ patterns, Matches fs p path) ∧
        (∀ path, (∃ q ∈ paths, same q path = true) ↔ ∃ p ∈ patterns, ∃ q, Matches fs p q ∧ same q path = true) ∧
        ∀ patterns' : List String, (∀ p, p ∈ patterns' ↔ p ∈ patterns) →
          ∃ paths', resolve fs patterns' = .ok paths' ∧ paths'.map Path.components = paths.map Path.components) ∧
      ∀ e, resolve fs patterns = .error e ↔
        ∃ before p after, patterns = before ++ p :: after ∧
          (∀ q ∈ before, IsPattern q ∧ ∃ path, Matches fs q path) ∧ Fault fs p e := by
  refine ⟨exists_resolve_iff, fun paths h => ?_, fun e => resolve_eq_error_iff⟩
  refine ⟨pairwise_resolve h, (mem_resolve h).1, fun path => ?_, fun _ hsame => components_resolve_congr hsame h⟩
  simpa only [List.mem_map, same_iff] using mem_components_resolve h (Path.components path)

/-- A file in a directory, and one whose name is that of the directory with more behind it. -/
def besideDirectory : FileSystem :=
  { entries := [(["s"], .directory), (["s", "a"], .file "a".toUTF8), (["s-x"], .file "x".toUTF8)] }

theorem resolve_ordered_set_beside_directory :
    resolve besideDirectory ["s/./a", "s-x"] = .ok ["s/./a", "s-x"] ∧ Precedes "s/./a" "s-x" ∧ "s-x" < "s/./a" ∧
      (∃ paths, resolve besideDirectory ["s-x", "s/./a", "s-x"] = .ok paths ∧
        paths.map Path.components = [[.name "s", .name "a"], [.name "s-x"]]) ∧
      resolve besideDirectory ["s-x", "s", "[x"] = .error (.notFound "s") := by
  have ha : found besideDirectory "s/./a" = .ok ["s/./a"] := by with_unfolding_all rfl
  have hs : found besideDirectory "s-x" = .ok ["s-x"] := by with_unfolding_all rfl
  have hresolve : resolve besideDirectory ["s/./a", "s-x"] = .ok ["s/./a", "s-x"] := by
    have hfound : ["s/./a", "s-x"].mapM (found besideDirectory) = .ok [["s/./a"], ["s-x"]] := by
      rw [mapM_eq_ok_iff, List.map_cons, List.map_cons, List.map_nil, ha, hs]
      rfl
    rw [resolve_eq_map, hfound]
    change Except.ok (distinct (List.mergeSort ["s/./a", "s-x"] inOrder)) = _
    rw [List.mergeSort_of_pairwise (by decide +kernel)]
    exact congrArg Except.ok (by decide +kernel)
  obtain ⟨-, hset, -⟩ := resolve_ordered_set besideDirectory ["s/./a", "s-x"]
  obtain ⟨hpairwise, -, -, hcongr⟩ := hset _ hresolve
  refine ⟨hresolve, (List.pairwise_cons.1 hpairwise).1 _ List.mem_cons_self, by decide +kernel, ?_, ?_⟩
  · obtain ⟨paths, hpaths, hcomponents⟩ := hcongr ["s-x", "s/./a", "s-x"] fun p => by simp [or_comm]
    exact ⟨paths, hpaths, hcomponents.trans (by decide +kernel)⟩
  · obtain ⟨-, -, herror⟩ := resolve_ordered_set besideDirectory ["s-x", "s", "[x"]
    have hd : found besideDirectory "s" = .error (.notFound "s") := by with_unfolding_all rfl
    refine (herror _).2 ⟨["s-x"], "s", ["[x"], rfl, ?_, found_eq_error_iff.1 hd⟩
    rw [List.forall_mem_singleton]
    exact exists_found_iff.1 ⟨_, hs⟩

end BracketTree.Inputs
