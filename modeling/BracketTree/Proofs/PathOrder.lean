import BracketTree.Inputs
import BracketTree.StringMap
import Mathlib.Tactic.SplitIfs

/-! The order of paths. Components are in order by kind and name, and lists of components by their first difference;
of two lists one comes first unless they are the same. So input files in order, from which those with the same
components as the one before have been dropped, strictly increase, and none of them stands there twice. -/

namespace BracketTree

namespace Path

namespace Component
variable {a b c : Component}

theorem before_irrefl (a : Component) : a.before a = false := by
  cases a with
  | name s => exact decide_eq_false (String.lt_irrefl s)
  | root => rfl
  | current => rfl
  | parent => rfl

theorem before_trans (hab : a.before b = true) (hbc : b.before c = true) : a.before c = true := by
  cases a <;> cases b <;> cases c
  case name.name.name =>
    exact decide_eq_true (String.lt_trans (of_decide_eq_true hab) (of_decide_eq_true hbc))
  all_goals simp_all [before, rank]

theorem before_or_before (hne : a ≠ b) : a.before b = true ∨ b.before a = true := by
  cases a <;> cases b
  case name.name s t =>
    by_cases h : s < t
    · exact .inl (decide_eq_true h)
    · refine .inr (decide_eq_true (StringMap.lt_of_not_lt_of_ne h ?_))
      rintro rfl
      exact hne rfl
  all_goals simp_all [before, rank]

end Component

theorem before_irrefl (as : List Component) : before as as = false := by
  induction as with
  | nil => rfl
  | cons a as ih => rw [before, if_pos rfl, ih]

theorem before_trans {as bs cs : List Component} (hab : before as bs = true) (hbc : before bs cs = true) :
    before as cs = true := by
  induction as generalizing bs cs with
  | nil =>
    cases cs with
    | nil => cases bs <;> cases hbc
    | cons c cs => rfl
  | cons a as ih =>
    cases bs with
    | nil => cases hab
    | cons b bs =>
      cases cs with
      | nil => cases hbc
      | cons c cs =>
        rw [before] at hab hbc ⊢
        by_cases hb : a = b
        · subst hb
          rw [if_pos rfl] at hab
          split_ifs at hbc ⊢
          · exact ih hab hbc
          · exact hbc
        · rw [if_neg hb] at hab
          by_cases hc : b = c
          · subst hc
            rwa [if_neg hb]
          · rw [if_neg hc] at hbc
            have hac := Component.before_trans hab hbc
            have hne : a ≠ c := by
              rintro rfl
              rw [Component.before_irrefl] at hac
              cases hac
            rwa [if_neg hne]

theorem before_or_before {as bs : List Component} (hne : as ≠ bs) : before as bs = true ∨ before bs as = true := by
  induction as generalizing bs with
  | nil =>
    cases bs with
    | nil => exact absurd rfl hne
    | cons b bs => exact .inl rfl
  | cons a as ih =>
    cases bs with
    | nil => exact .inr rfl
    | cons b bs =>
      rw [before, before]
      by_cases hb : a = b
      · subst hb
        rw [if_pos rfl, if_pos rfl]
        apply ih
        rintro rfl
        exact hne rfl
      · rw [if_neg hb, if_neg (Ne.symm hb)]
        exact Component.before_or_before hb

end Path

namespace Inputs
variable {p q r : String}

/-- Whether a path comes before another and is not the same. -/
def Precedes (p q : String) : Prop := Path.before (Path.components p) (Path.components q) = true

theorem Precedes.ne (h : Precedes p q) : p ≠ q := by
  rintro rfl
  rw [Precedes, Path.before_irrefl] at h
  cases h

theorem Precedes.trans (hpq : Precedes p q) (hqr : Precedes q r) : Precedes p r := Path.before_trans hpq hqr

theorem inOrder_iff : inOrder p q = true ↔ ¬ Precedes q p := by
  rw [inOrder, Bool.not_eq_true', Precedes, Bool.not_eq_true]

theorem precedes_of_inOrder (h : inOrder p q = true) (hs : same p q = false) : Precedes p q := by
  have hne : Path.components p ≠ Path.components q := of_decide_eq_false hs
  rcases Path.before_or_before hne with hb | hb
  · exact hb
  · exact absurd hb (inOrder_iff.1 h)

theorem precedes_congr_left (hs : same p q = true) : Precedes p r ↔ Precedes q r := by
  have he : Path.components p = Path.components q := of_decide_eq_true hs
  rw [Precedes, Precedes, he]

theorem inOrder_trans (p q r : String) (hpq : inOrder p q = true) (hqr : inOrder q r = true) :
    inOrder p r = true := by
  rw [inOrder_iff] at *
  intro hrp
  cases hs : same q r with
  | true => exact hpq ((precedes_congr_left hs).2 hrp)
  | false => exact hpq ((precedes_of_inOrder (inOrder_iff.2 hqr) hs).trans hrp)

theorem inOrder_total (p q : String) : (inOrder p q || inOrder q p) = true := by
  rw [Bool.or_eq_true, inOrder_iff, inOrder_iff]
  by_cases h : Precedes q p
  · exact .inr fun h' => (h.trans h').ne rfl
  · exact .inl h

/-- What follows in order strictly increases when what is the same is dropped. -/
theorem pairwise_dropSame {ps : List String} (h : (p :: ps).Pairwise (fun a b => inOrder a b = true)) :
    (p :: dropSame p ps).Pairwise Precedes := by
  induction ps generalizing p with
  | nil => exact List.pairwise_singleton _ _
  | cons q ps ih =>
    obtain ⟨hp, hps⟩ := List.pairwise_cons.1 h
    rw [dropSame]
    split_ifs with hs
    · apply ih
      exact List.pairwise_cons.2 ⟨fun r hr => hp r (List.mem_cons_of_mem q hr), (List.pairwise_cons.1 hps).2⟩
    · have hpq := precedes_of_inOrder (hp q List.mem_cons_self) (Bool.eq_false_iff.2 hs)
      have hq := ih hps
      refine List.pairwise_cons.2 ⟨?_, hq⟩
      intro r hr
      rcases List.mem_cons.1 hr with rfl | hr
      · exact hpq
      · exact hpq.trans ((List.pairwise_cons.1 hq).1 r hr)

theorem pairwise_resolve {fs : FileSystem} {patterns paths : List String} (h : resolve fs patterns = .ok paths) :
    paths.Pairwise Precedes := by
  unfold resolve at h
  cases hf : patterns.mapM (found fs) with
  | error e => rw [hf] at h; cases h
  | ok pss =>
    rw [hf] at h
    obtain rfl := Except.ok.inj h
    have hs := List.pairwise_mergeSort inOrder_trans inOrder_total pss.flatten
    revert hs
    cases pss.flatten.mergeSort inOrder with
    | nil => exact fun _ => .nil
    | cons p ps => exact pairwise_dropSame

/-- Files that are found in order stay in it. -/
theorem resolve_of_pairwise {fs : FileSystem} {patterns : List String} {pss : List (List String)}
    (hf : patterns.mapM (found fs) = .ok pss) (hs : pss.flatten.Pairwise fun p q => inOrder p q) :
    resolve fs patterns = .ok (distinct pss.flatten) := by
  unfold resolve
  rw [hf]
  change Except.ok (distinct (pss.flatten.mergeSort inOrder)) = _
  rw [List.mergeSort_of_pairwise hs]

end Inputs
end BracketTree
