import BracketTree.Proofs.Lossless
import BracketTree.Proofs.SideBySide

/-! A text can be cut at a separator. A character that is a token by itself and stands in no other token is met by the
splitter wherever it occurs, so the pieces behind it are those of the rest of the text, further on by as many bytes
as lie before. If every group before it has ended, grouping starts afresh behind it. -/

namespace BracketTree

/-- A piece as it stands in a text with `n` more bytes in front. -/
def Piece.shift (n : Nat) (p : Piece) : Piece := { p with offset := p.offset + n }

namespace Vocabulary

/-- A character that is a token and stands in no other one. -/
structure Separates (ts : List String) (c : Char) : Prop where
  mem : String.singleton c ∈ ts
  alone : ∀ t ∈ ts, c ∈ t.toList → t = String.singleton c

theorem byteLength_append (cs ds : List Char) : byteLength (cs ++ ds) = byteLength cs + byteLength ds := by
  induction cs with
  | nil => exact (Nat.zero_add _).symm
  | cons c cs ih => rw [List.cons_append, byteLength_cons, byteLength_cons, ih, Nat.add_assoc]

section
variable {ts : List String} {c : Char} {start : Nat} {cs ds : List Char} {t : String} {ps qs : List Piece}

theorem toList_singleton (c : Char) : (String.singleton c).toList = [c] := by simp

/-- No token that begins before a separator reaches it. -/
theorem Separates.begins_iff (h : Separates ts c) (hcs : cs ≠ []) :
    Begins ts (cs ++ c :: ds) t ↔ Begins ts cs t := by
  constructor
  · rintro ⟨ht, hne, hp⟩
    refine ⟨ht, hne, ?_⟩
    have hc : cs ++ [c] <+: cs ++ c :: ds := ⟨ds, by simp⟩
    rcases List.prefix_or_prefix_of_prefix hp hc with hp | hp
    · rcases List.prefix_concat_iff.1 hp with he | hp
      · have hs := h.alone t ht (by rw [he]; simp)
        rw [hs, toList_singleton] at he
        exact absurd (List.append_left_eq_self.1 he.symm) hcs
      · exact hp
    · have hs := h.alone t ht (hp.subset (by simp))
      rw [hs, toList_singleton] at hp
      have hlen := hp.length_le
      simp only [List.length_append, List.length_singleton] at hlen
      exact absurd (List.length_eq_zero_iff.1 (by omega)) hcs
  · rintro ⟨ht, hne, hp⟩
    exact ⟨ht, hne, hp.trans (List.prefix_append _ _)⟩

theorem Separates.free (h : Separates ts c) (ds : List Char) {rest : List Char} (hf : Free ts cs rest) :
    Free ts cs (rest ++ c :: ds) := by
  intro u v he hv t hb
  rw [← List.append_assoc, h.begins_iff (by simp [hv])] at hb
  exact hf u v he hv t hb

theorem Separates.longestAt (h : Separates ts c) (ds : List Char) (hcs : cs ≠ []) (ht : LongestAt ts cs t) :
    LongestAt ts (cs ++ c :: ds) t where
  begins := (h.begins_iff hcs).2 ht.begins
  length_le u hu := ht.length_le u ((h.begins_iff hcs).1 hu)

/-- A token that begins with a separator is the separator. -/
theorem Separates.longestAt_self (h : Separates ts c) :
    LongestAt ts ((String.singleton c).toList ++ ds) (String.singleton c) where
  begins := ⟨h.mem, by simp, List.prefix_append _ _⟩
  length_le u hu := by
    obtain ⟨hu, hne, hp⟩ := hu
    rw [toList_singleton] at hp
    cases hl : u.toList with
    | nil => exact absurd (String.toList_eq_nil_iff.1 hl) hne
    | cons d us =>
      rw [hl] at hp
      obtain ⟨rfl, -⟩ := List.cons_prefix_cons.1 hp
      rw [h.alone u hu (by rw [hl]; exact List.mem_cons_self)]

theorem Segmented.append_separator (h : Separates ts c) (hps : Segmented ts start cs ps)
    (hqs : Segmented ts (start + byteLength cs + c.utf8Size) ds qs) :
    Segmented ts start (cs ++ c :: ds) (ps ++ ⟨true, String.singleton c, start + byteLength cs⟩ :: qs) := by
  induction hps with
  | @last start content hf =>
    have hf' : Free ts content ((String.singleton c).toList ++ ds) := by
      rw [toList_singleton]
      exact h.free ds hf
    have hb : byteLength (String.singleton c).toList = c.utf8Size := by
      rw [toList_singleton]
      rfl
    have ht := Segmented.token hf' h.longestAt_self (hb.symm ▸ hqs)
    rwa [toList_singleton] at ht
  | @token start content rest t ps hf ht hps ih =>
    have hne : t.toList ++ rest ≠ [] := by
      intro hnil
      exact ht.begins.2.1 (String.toList_eq_nil_iff.1 (List.append_eq_nil_iff.1 hnil).1)
    have hoff : start + byteLength (content ++ (t.toList ++ rest)) =
        start + byteLength content + byteLength t.toList + byteLength rest := by
      rw [byteLength_append, byteLength_append]
      omega
    rw [hoff] at hqs ⊢
    have hf' := h.free ds hf
    have ht' := h.longestAt ds hne ht
    rw [List.append_assoc] at hf' ht'
    rw [List.append_assoc, List.append_assoc]
    exact .token hf' ht' (ih hqs)

theorem Segmented.shift (n : Nat) (h : Segmented ts start cs ps) :
    Segmented ts (start + n) cs (ps.map (Piece.shift n)) := by
  induction h with
  | last hf => exact .last hf
  | @token start content rest t ps hf ht _ ih =>
    have h1 : start + byteLength content + byteLength t.toList + n =
        start + n + byteLength content + byteLength t.toList := by omega
    have h2 : start + byteLength content + n = start + n + byteLength content := by omega
    rw [h1] at ih
    rw [List.map_cons, List.map_cons]
    simp only [Piece.shift, h2]
    exact .token hf ht ih

end

/-- The pieces before a separator, the separator, and the pieces behind it. -/
theorem split_append_separator {ts : List String} {c : Char} (h : Separates ts c) (a b : String) :
    (ofTokens ts).split (a ++ String.singleton c ++ b) =
      (ofTokens ts).split a ++ ⟨true, String.singleton c, a.utf8ByteSize⟩ ::
        ((ofTokens ts).split b).map (Piece.shift (a ++ String.singleton c).utf8ByteSize) := by
  have ha := split_eq_iff_segmented.1 (Eq.refl ((ofTokens ts).split a))
  have hb := split_eq_iff_segmented.1 (Eq.refl ((ofTokens ts).split b))
  have hn : 0 + byteLength a.toList + c.utf8Size = (a ++ String.singleton c).utf8ByteSize := by
    rw [String.utf8ByteSize_append, String.utf8ByteSize_singleton, byteLength_toList, Nat.zero_add]
  have hb' := hb.shift (a ++ String.singleton c).utf8ByteSize
  rw [Nat.zero_add] at hb'
  have hab := ha.append_separator h (by rw [hn]; exact hb')
  rw [Nat.zero_add, byteLength_toList] at hab
  refine split_eq_iff_segmented.2 ?_
  rw [String.toList_append, String.toList_append, toList_singleton, List.append_assoc]
  exact hab

end Vocabulary

namespace Grouping

/-- An error as it is told of a text with `n` more bytes in front. -/
def Error.shift (n : Nat) : Error → Error
  | unexpectedClose token offset => unexpectedClose token (offset + n)
  | unbalanced depth token offset => unbalanced depth token (offset + n)

def Opening.shift (n : Nat) (o : Opening) : Opening := { o with offset := o.offset + n }

namespace Cursor

/-- A cursor as it is with `n` more bytes in front, and with other nodes, the last one first, in front of its
tree. -/
def behindFrom (base : List Node) (n : Nat) : List (Opening × List Node) → List Node → Cursor
  | [], here => ⟨here ++ base, []⟩
  | (o, before) :: around, here => { (behindFrom base n around before).enter (o.shift n) with here }

def behind (base : List Node) (n : Nat) (c : Cursor) : Cursor := behindFrom base n c.around c.here

section
variable (base : List Node) (n : Nat) (c : Cursor)

theorem put_behind (x : Node) : (c.behind base n).put x = (c.put x).behind base n := by
  obtain ⟨here, _ | ⟨l, around⟩⟩ := c
  · rfl
  · rfl

theorem leave_behind : (c.behind base n).leave = c.leave.behind base n := by
  obtain ⟨here, _ | ⟨⟨o, before⟩, around⟩⟩ := c
  · rfl
  · exact put_behind base n ⟨before, around⟩ (.group here.reverse)

theorem awaits_behind (t : String) : (c.behind base n).awaits t = c.awaits t := by
  obtain ⟨here, _ | ⟨l, around⟩⟩ := c
  · rfl
  · rfl

theorem length_around_behind : (c.behind base n).around.length = c.around.length := by
  obtain ⟨here, around⟩ := c
  induction around generalizing here with
  | nil => rfl
  | cons l around ih => exact congrArg (· + 1) (ih l.2)

theorem tree_behind : (c.behind base n).tree = base.reverse ++ c.tree := by
  obtain ⟨here, around⟩ := c
  induction around generalizing here with
  | nil => exact List.reverse_append
  | cons l around ih =>
    -- ending a group leaves the tree as it is, and there is one group less around the cursor
    rw [← tree_leave, leave_behind, ← tree_leave ⟨here, l :: around⟩]
    exact ih _

theorem openAt_behind (g : Grouping) (p : Piece) :
    (c.behind base n).openAt g (p.shift n) = (c.openAt g p).behind base n := by
  have ht : (p.shift n).text = p.text := rfl
  unfold openAt
  rw [ht]
  cases g.bounds.find? p.text with
  | none => rfl
  | some closer => rfl

theorem leafAt_behind (g : Grouping) (p : Piece) :
    (c.behind base n).leafAt g (p.shift n) = (c.leafAt g p).behind base n := by
  unfold leafAt
  change (if g.strip.contains p.text then _ else _) = _
  split_ifs
  · rfl
  · exact put_behind base n c _

theorem step_behind (g : Grouping) (p : Piece) :
    (c.behind base n).step g (p.shift n) = (c.step g p).behind base n := by
  unfold step
  change (if p.text = "" then _ else _) = _
  split_ifs with he
  · rfl
  · rw [openAt_behind, leafAt_behind]
    unfold closeAt
    rw [awaits_behind]
    change (if ((c.openAt g p).leafAt g p).awaits p.text then _ else _) = _
    split_ifs
    · exact leave_behind base n _
    · rfl

theorem close_behind :
    (c.behind base n).close = (c.close.mapError (Error.shift n)).map (base.reverse ++ ·) := by
  have ht := tree_behind base n c
  have hl := length_around_behind base n c
  obtain ⟨here, _ | ⟨l, around⟩⟩ := c
  · exact congrArg Except.ok ht
  · exact congrArg (fun k => Except.error (Error.unbalanced k l.1.token (l.1.offset + n))) hl

end

theorem follows_behind (g : Grouping) (base : List Node) (n : Nat) :
    Follows g g (Piece.shift n) (Error.shift n) (base.reverse ++ ·) (behind base n) where
  step c p := step_behind base n c g p
  strays c p := by
    unfold strays
    rw [awaits_behind]
    rfl
  blame_stray _ := rfl
  tree c := tree_behind base n c
  close c := close_behind base n c

end Cursor

theorem kept_reverse (g : Grouping) (t : String) : (g.kept t).reverse = g.kept t := by
  unfold kept
  split_ifs <;> rfl

section
variable {g : Grouping} {ps : List Piece} {t : Tree} {p : Piece}

/-- Where strict grouping succeeds, the cursor ends up outside all groups, behind the tree. -/
theorem foldlM_of_groupStrict (h : g.groupStrict ps = .ok t) :
    ps.foldlM (Cursor.strictStep g) {} = .ok ⟨t.reverse, []⟩ := by
  rw [groupStrict_eq] at h
  cases hc : ps.foldlM (Cursor.strictStep g) {} with
  | error e => rw [hc] at h; cases h
  | ok c =>
    rw [hc] at h
    obtain ⟨here, _ | ⟨l, around⟩⟩ := c
    · obtain rfl : here.reverse = t := Except.ok.inj h
      rw [List.reverse_reverse]
    · cases h

/-- A token without a part in the pairs, behind a tree that is complete. -/
theorem step_separator (hne : p.text ≠ "") (hk : g.bounds.contains p.text = false) (n : Nat) :
    Cursor.step g ⟨t.reverse, []⟩ p = Cursor.behind (t ++ g.kept p.text).reverse n {} := by
  rw [Cursor.step_plain _ hne ((StringMap.contains_eq_false_iff _ _).1 hk) rfl, List.reverse_append, kept_reverse]
  rfl

theorem group_append_separator (h : g.groupStrict ps = .ok t) (hne : p.text ≠ "")
    (hk : g.bounds.contains p.text = false) (n : Nat) (qs : List Piece) :
    g.group (ps ++ p :: qs.map (Piece.shift n)) = t ++ g.kept p.text ++ g.group qs := by
  have hps := Cursor.foldl_eq_of_foldlM g (foldlM_of_groupStrict h)
  rw [group_eq, List.foldl_append, hps, List.foldl_cons, step_separator hne hk n,
    (Cursor.follows_behind g _ n).tree_foldl, List.reverse_reverse, group_eq]

theorem groupStrict_append_separator (h : g.groupStrict ps = .ok t) (hne : p.text ≠ "")
    (hk : g.bounds.contains p.text = false) (hv : p.text ∉ g.bounds.values) (n : Nat) (qs : List Piece) :
    g.groupStrict (ps ++ p :: qs.map (Piece.shift n)) =
      ((g.groupStrict qs).mapError (Error.shift n)).map (t ++ g.kept p.text ++ ·) := by
  have hs : Cursor.strays g ⟨t.reverse, []⟩ p = false := by simp [Cursor.strays, hv]
  have hrun := (Cursor.follows_behind g (t ++ g.kept p.text).reverse n).foldlM {} qs
  rw [List.reverse_reverse, ← groupStrict_eq] at hrun
  rw [groupStrict_eq, List.foldlM_append, foldlM_of_groupStrict h, ← hrun, ← step_separator hne hk n]
  change (Cursor.strictStep g ⟨t.reverse, []⟩ p >>= _) >>= _ = _
  rw [Cursor.strictStep, hs]
  rfl

end
end Grouping

namespace Parser

theorem pieces_append_separator (r : Rules) (c : Char)
    (hc : String.singleton c ∈ r.extra ∨ String.singleton c ∈ r.strip)
    (halone : ∀ t ∈ r.tokens, c ∈ t.toList → t = String.singleton c) (a b : String) :
    pieces r (a ++ String.singleton c ++ b) = pieces r a ++ ⟨true, String.singleton c, a.utf8ByteSize⟩ ::
      (pieces r b).map (Piece.shift (a ++ String.singleton c).utf8ByteSize) := by
  have hmem : ∀ t, t ∈ r.bounds.entries.flatMap (fun e => [e.1, e.2]) ++ r.separators ↔ t ∈ r.tokens := by
    intro t
    simp only [Rules.tokens, Rules.separators, List.mem_append, List.mem_eraseDups, or_assoc]
  refine Vocabulary.split_append_separator ⟨(hmem _).2 ?_, fun t ht => halone t ((hmem t).1 ht)⟩ a b
  simp only [Rules.tokens, List.mem_append]
  tauto

/-- Parsing goes over a separator as if the text ended before it and another text began behind it, if strict parsing
accepts what is before it. -/
theorem parse_append_separator (r : Rules) (c : Char)
    (hc : String.singleton c ∈ r.extra ∨ String.singleton c ∈ r.strip)
    (hk : r.bounds.contains (String.singleton c) = false) (hv : String.singleton c ∉ r.bounds.values)
    (halone : ∀ t ∈ r.tokens, c ∈ t.toList → t = String.singleton c)
    (a b : String) (t : Tree) (ha : parse ⟨r, .strict⟩ a = .ok t) :
    ∃ u, parse ⟨r, .lenient⟩ b = .ok u ∧
      let whole : Tree :=
        t ++ (if r.strip.contains (String.singleton c) then [] else [.leaf (String.singleton c)]) ++ u
      parse ⟨r, .lenient⟩ (a ++ String.singleton c ++ b) = .ok whole ∧
        (∀ v, parse ⟨r, .strict⟩ b = .ok v →
          parse ⟨r, .strict⟩ (a ++ String.singleton c ++ b) = .ok whole) ∧
        ∀ e, parse ⟨r, .strict⟩ b = .error e →
          parse ⟨r, .strict⟩ (a ++ String.singleton c ++ b) =
            .error (e.shift (a ++ String.singleton c).utf8ByteSize) := by
  have hne : String.singleton c ≠ "" := by simp
  have ha' : Grouping.groupStrict ⟨r.bounds, r.strip⟩ (pieces r a) = .ok t := ha
  have hl := Grouping.group_append_separator (p := ⟨true, String.singleton c, a.utf8ByteSize⟩) ha' hne hk
    (a ++ String.singleton c).utf8ByteSize (pieces r b)
  have hs := Grouping.groupStrict_append_separator (p := ⟨true, String.singleton c, a.utf8ByteSize⟩) ha' hne hk hv
    (a ++ String.singleton c).utf8ByteSize (pieces r b)
  rw [← pieces_append_separator r c hc halone] at hl hs
  refine ⟨_, rfl, congrArg Except.ok hl, fun v hb => ?_, fun e hb => ?_⟩
  · refine hs.trans ?_
    change Grouping.groupStrict ⟨r.bounds, r.strip⟩ (pieces r b) = .ok v at hb
    rw [hb, ← Grouping.tree_eq_of_groupStrict hb]
    rfl
  · refine hs.trans ?_
    change Grouping.groupStrict ⟨r.bounds, r.strip⟩ (pieces r b) = .error e at hb
    rw [hb]
    rfl

/-- A group that lacks its end, behind a character of two bytes and a line break. -/
theorem parse_append_separator_line_break :
    let r : Rules := ⟨.ofList [("(", ")")], ["\n", "=="], [";"]⟩
    let text := "é(x)" ++ String.singleton '\n' ++ "(y;"
    parse ⟨r, .strict⟩ "é(x)" = .ok [.leaf "é", .group [.leaf "(", .leaf "x", .leaf ")"]] ∧
      parse ⟨r, .strict⟩ "(y;" = .error (.unbalanced 1 "(" 0) ∧
      parse ⟨r, .lenient⟩ text = .ok [.leaf "é", .group [.leaf "(", .leaf "x", .leaf ")"], .leaf "\n",
        .group [.leaf "(", .leaf "y"]] ∧
      parse ⟨r, .strict⟩ text = .error (.unbalanced 1 "(" 6) := by
  intro r text
  have ha : parse ⟨r, .strict⟩ "é(x)" = .ok [.leaf "é", .group [.leaf "(", .leaf "x", .leaf ")"]] := by
    decide +kernel
  have hb : parse ⟨r, .strict⟩ "(y;" = .error (.unbalanced 1 "(" 0) := by decide +kernel
  have hu : parse ⟨r, .lenient⟩ "(y;" = .ok [.group [.leaf "(", .leaf "y"]] := by decide +kernel
  obtain ⟨u, hu', hl, -, hs⟩ := parse_append_separator r '\n' (.inl (by decide)) (by decide) (by decide) (by decide)
    "é(x)" "(y;" _ ha
  obtain rfl := Except.ok.inj (hu.symm.trans hu')
  exact ⟨ha, hb, hl, hs _ hb⟩

end Parser
end BracketTree
