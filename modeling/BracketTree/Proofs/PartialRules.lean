import BracketTree.Proofs.RulesRoundTrip

/-! Rule sets of which a JSON document says only some parts. The members of the document may come in any order, and with
other members among them that are passed over, whatever their values are. What is said of a part is taken, what is not
said is as in a rule set of which nothing is said, and nothing may be said twice. -/

namespace BracketTree.Rules

/-- The parts of a rule set. -/
inductive Part where
  | bounds
  | extra
  | strip
deriving DecidableEq, Repr

namespace Part

def name : Part → String
  | bounds => "bounds"
  | extra => "extra"
  | strip => "strip"

def ofName? : String → Option Part
  | "bounds" => some bounds
  | "extra" => some extra
  | "strip" => some strip
  | _ => none

theorem ofName?_eq_some_iff {s : String} {p : Part} : ofName? s = some p ↔ s = p.name := by
  constructor
  · intro h
    unfold ofName? at h
    split at h <;> cases h <;> rfl
  · rintro rfl
    cases p <;> rfl

/-- The part that a member with this key says, if it says one. -/
def ofKey? (key : List StringUnit) : Option Part := (StringUnit.text? key).bind ofName?

theorem ofKey?_eq_some_iff {key : List StringUnit} {p : Part} :
    ofKey? key = some p ↔ StringUnit.text? key = some p.name := by
  simp [ofKey?, Option.bind_eq_some_iff, ofName?_eq_some_iff]

/-- Whether a value says that a part is as in some rules: an array of strings for the tokens of a list, or an object
with a member for each pair, in any order. -/
def SaidBy (r : Rules) (j : Json) : Part → Prop
  | bounds => ∃ (ms : List (List StringUnit × Json)) (es : List (String × String)),
      j = .object ms ∧ es.Perm r.bounds.entries ∧
      ms.map (fun m => (StringUnit.text? m.1, m.2.text?)) = es.map fun e => (some e.1, some e.2)
  | extra => ∃ js, j = .array js ∧ js.map Json.text? = r.extra.map some
  | strip => ∃ js, j = .array js ∧ js.map Json.text? = r.strip.map some

end Part

/-- The parts that members say, in the order in which they say them. -/
def partsOf (ms : List (List StringUnit × Json)) : List Part := ms.filterMap fun m => Part.ofKey? m.1

def only (r : Rules) (parts : List Part) : Rules where
  bounds := if .bounds ∈ parts then r.bounds else ∅
  extra := if .extra ∈ parts then r.extra else ["\n"]
  strip := if .strip ∈ parts then r.strip else []

/-! What a value says is what is read. -/

section
variable {r : Rules} {j : Json}

theorem boundsOfJson?_of_saidBy (h : Part.SaidBy r j .bounds) : boundsOfJson? j = some r.bounds := by
  obtain ⟨ms, es, rfl, hperm, hms⟩ := h
  have hpairs : ms.map boundOfJson? = es.map some := by
    have hread : boundOfJson? = (fun p => p.1.bind fun o => p.2.bind fun c => some (o, c)) ∘
        fun m => (StringUnit.text? m.1, m.2.text?) := rfl
    rw [hread, ← List.map_map, hms, List.map_map]
    rfl
  rw [boundsOfJson?, mapM_eq_some_of_map hpairs, Option.map_some, StringMap.ofList_of_perm hperm]

theorem texts?_of_map {js : List Json} {ts : List String} (h : js.map Json.text? = ts.map some) :
    (Json.array js).texts? = some ts := mapM_eq_some_of_map h

end

/-! One member. -/

namespace Partial

def has (q : Partial) : Part → Bool
  | .bounds => q.bounds?.isSome
  | .extra => q.extra?.isSome
  | .strip => q.strip?.isSome

/-- What has been said when some parts of some rules have. -/
def of (r : Rules) (parts : List Part) : Partial where
  bounds? := if .bounds ∈ parts then some r.bounds else none
  extra? := if .extra ∈ parts then some r.extra else none
  strip? := if .strip ∈ parts then some r.strip else none

theorem rules_of (r : Rules) (parts : List Part) : (of r parts).rules = r.only parts := by
  unfold rules of only
  dsimp only
  congr 1
  · split_ifs <;> rfl
  · split_ifs <;> rfl
  · split_ifs <;> rfl

section
variable {r : Rules} {q q' : Partial} {m : List StringUnit × Json} {p : Part} {parts : List Part}

theorem addMember_said (hk : Part.ofKey? m.1 = some p) (hp : p ∉ parts) (hj : p.SaidBy r m.2) :
    (of r parts).addMember m = some (of r (p :: parts)) := by
  rw [Part.ofKey?_eq_some_iff] at hk
  cases p with
  | bounds => simp [addMember, hk, Part.name, of, hp, boundsOfJson?_of_saidBy hj]
  | extra =>
    obtain ⟨js, hjs, hts⟩ := hj
    simp [addMember, hk, Part.name, of, hp, hjs, texts?_of_map hts]
  | strip =>
    obtain ⟨js, hjs, hts⟩ := hj
    simp [addMember, hk, Part.name, of, hp, hjs, texts?_of_map hts]

theorem addMember_other {name : String} (hk : StringUnit.text? m.1 = some name) (hn : Part.ofName? name = none) :
    q.addMember m = some q := by
  unfold Part.ofName? at hn
  split at hn
  case h_4 => simp [addMember, hk]
  all_goals cases hn

/-- What a member does when it is taken in: it is passed over, or it says a part of which nothing has been said. -/
theorem addMember_cases (h : q.addMember m = some q') :
    Part.ofKey? m.1 = none ∧ q' = q ∨
      ∃ p, Part.ofKey? m.1 = some p ∧ q.has p = false ∧ q'.has p = true ∧ ∀ p', p' ≠ p → q'.has p' = q.has p' := by
  cases hk : Part.ofKey? m.1 with
  | none =>
    cases hname : StringUnit.text? m.1 with
    | none => simp [addMember, hname] at h
    | some name =>
      rw [Part.ofKey?, hname, Option.bind_some] at hk
      exact .inl ⟨rfl, Option.some.inj (h.symm.trans (addMember_other hname hk))⟩
  | some p =>
    refine .inr ⟨p, rfl, ?_⟩
    rw [Part.ofKey?_eq_some_iff] at hk
    cases p with
    | bounds =>
      obtain ⟨hnone, b, -, rfl⟩ : q.bounds? = none ∧
          ∃ b, boundsOfJson? m.2 = some b ∧ { q with bounds? := some b } = q' := by
        simpa [addMember, hk, Part.name, Option.bind_eq_some_iff] using h
      refine ⟨by simp [has, hnone], rfl, fun p' hp' => ?_⟩
      cases p' with
      | bounds => exact absurd rfl hp'
      | _ => rfl
    | extra =>
      obtain ⟨hnone, ts, -, rfl⟩ : q.extra? = none ∧
          ∃ ts, m.2.texts? = some ts ∧ { q with extra? := some ts } = q' := by
        simpa [addMember, hk, Part.name, Option.bind_eq_some_iff] using h
      refine ⟨by simp [has, hnone], rfl, fun p' hp' => ?_⟩
      cases p' with
      | extra => exact absurd rfl hp'
      | _ => rfl
    | strip =>
      obtain ⟨hnone, ts, -, rfl⟩ : q.strip? = none ∧
          ∃ ts, m.2.texts? = some ts ∧ { q with strip? := some ts } = q' := by
        simpa [addMember, hk, Part.name, Option.bind_eq_some_iff] using h
      refine ⟨by simp [has, hnone], rfl, fun p' hp' => ?_⟩
      cases p' with
      | strip => exact absurd rfl hp'
      | _ => rfl

end
end Partial

/-! All members. -/

section
variable {r : Rules} {ms : List (List StringUnit × Json)} {text : String}

theorem partsOf_cons_of_none {m : List StringUnit × Json} (h : Part.ofKey? m.1 = none) :
    partsOf (m :: ms) = partsOf ms := List.filterMap_cons_none h

theorem partsOf_cons_of_some {m : List StringUnit × Json} {p : Part} (h : Part.ofKey? m.1 = some p) :
    partsOf (m :: ms) = p :: partsOf ms := List.filterMap_cons_some h

/-- Whether each member of a document either says a part as it is in some rules, or has another name. -/
def Describes (r : Rules) (ms : List (List StringUnit × Json)) : Prop :=
  ∀ m ∈ ms, ∃ name, StringUnit.text? m.1 = some name ∧ ∀ p : Part, name = p.name → p.SaidBy r m.2

theorem foldlM_addMember {parts : List Part} (h : Describes r ms) (hnodup : (partsOf ms ++ parts).Nodup) :
    ms.foldlM Partial.addMember (.of r parts) = some (.of r ((partsOf ms).reverse ++ parts)) := by
  induction ms generalizing parts with
  | nil => rfl
  | cons m ms ih =>
    obtain ⟨name, hname, hsaid⟩ := h m List.mem_cons_self
    have hrest : Describes r ms := fun n hn => h n (List.mem_cons_of_mem m hn)
    rw [List.foldlM_cons]
    cases hk : Part.ofName? name with
    | none =>
      have hkey : Part.ofKey? m.1 = none := by rw [Part.ofKey?, hname, Option.bind_some, hk]
      rw [partsOf_cons_of_none hkey] at hnodup ⊢
      rw [Partial.addMember_other hname hk]
      exact ih hrest hnodup
    | some p =>
      have hkey : Part.ofKey? m.1 = some p := by rw [Part.ofKey?, hname, Option.bind_some, hk]
      rw [partsOf_cons_of_some hkey] at hnodup ⊢
      have hp : p ∉ parts := fun hmem => (List.nodup_cons.1 hnodup).1 (List.mem_append_right _ hmem)
      have hj := hsaid p (Part.ofName?_eq_some_iff.1 hk)
      rw [Partial.addMember_said hkey hp hj, List.reverse_cons, List.append_assoc]
      exact ih hrest (List.perm_middle.nodup_iff.2 hnodup)

/-- Where all members can be taken in, none says what has been said, or what another says. -/
theorem nodup_of_foldlM_addMember {q q' : Partial} (h : ms.foldlM Partial.addMember q = some q') :
    (partsOf ms).Nodup ∧ ∀ p ∈ partsOf ms, q.has p = false := by
  induction ms generalizing q with
  | nil => exact ⟨.nil, List.forall_mem_nil _⟩
  | cons m ms ih =>
    rw [List.foldlM_cons] at h
    obtain ⟨q₁, hstep, hrun⟩ := Option.bind_eq_some_iff.1 h
    obtain ⟨hnodup, hnew⟩ := ih hrun
    rcases Partial.addMember_cases hstep with ⟨hkey, rfl⟩ | ⟨p, hkey, hp, hp₁, hothers⟩
    · rw [partsOf_cons_of_none hkey]
      exact ⟨hnodup, hnew⟩
    · have hnot : p ∉ partsOf ms := by
        intro hmem
        rw [hnew p hmem] at hp₁
        cases hp₁
      rw [partsOf_cons_of_some hkey]
      refine ⟨List.nodup_cons.2 ⟨hnot, hnodup⟩, List.forall_mem_cons.2 ⟨hp, fun p' hp' => ?_⟩⟩
      have hne : p' ≠ p := by
        rintro rfl
        exact hnot hp'
      rw [← hothers p' hne, hnew p' hp']

theorem read?_of_spelledBy (h : (Json.object ms).SpelledBy text) :
    read? text .json = (ms.foldlM Partial.addMember {}).map (·.rules) := by
  rw [read?, h.read?_eq]
  rfl

/-- A JSON document that says some parts of a rule set, among members with other names, is read as the rules of which
only these parts are kept. A document that says a part twice, however it does, cannot be read. -/
theorem read?_described (r : Rules) :
    (∀ ms text, (Json.object ms).SpelledBy text → Describes r ms → (partsOf ms).Nodup →
      read? text .json = some (r.only (partsOf ms))) ∧
    ∀ ms text, (Json.object ms).SpelledBy text → ¬ (partsOf ms).Nodup → read? text .json = none := by
  refine ⟨fun ms text ht h hnodup => ?_, fun ms text ht hnodup => ?_⟩
  · have hstart : ({} : Partial) = .of r [] := rfl
    rw [read?_of_spelledBy ht, hstart, foldlM_addMember h (by rwa [List.append_nil]), Option.map_some,
      Partial.rules_of, List.append_nil]
    simp [only]
  · rw [read?_of_spelledBy ht]
    cases hrun : ms.foldlM Partial.addMember {} with
    | none => rfl
    | some q => exact absurd (nodup_of_foldlM_addMember hrun).1 hnodup

end

/-- The text of a document is one that its members spell, if no character in it has to be spelled as a code. -/
theorem spelledBy_render_of_reread {ms : List (List StringUnit × Json)} (h : (Json.object ms).Spelled)
    (hread : (Json.object ms).reread = .object ms) (l : Json.Layout) :
    (Json.object ms).SpelledBy ((Json.object ms).render l) := by
  have hs := h.spelledBy_render l
  rwa [hread] at hs

def named (ms : List (String × Json)) : List (List StringUnit × Json) := ms.map fun m => Json.member m.1 m.2

/-- A member that is passed over, with half a surrogate pair and a number too large in it, and two parts. -/
def twoParts : List (List StringUnit × Json) :=
  named [("x", .array [.string [.code 0xd800], .number ['1', 'e', '9', '9', '9']]), ("strip", .ofTexts [" "]),
    ("bounds", .object (named [("(", .ofText ")")]))]

def twoPartsText : String :=
  "\x7b\"x\":[\"\\ud800\",1e999],\"strip\":[\" \"],\"bounds\":\x7b\"(\":\")\"\x7d\x7d"

theorem spelledBy_twoPartsText : (Json.object twoParts).SpelledBy twoPartsText := by
  have hx : (Json.array [.string [.code 0xd800], .number ['1', 'e', '9', '9', '9']]).Spelled := by
    refine .array (List.forall_mem_cons.2 ⟨.string ?_, List.forall_mem_singleton.2 (.number ?_ ?_)⟩)
    · exact List.forall_mem_singleton.2 (by decide : 0xd800 < 0x10000)
    · decide
    · exact List.all_eq_true.1 (by decide)
  have hbounds : (Json.object (named [("(", .ofText ")")])).Spelled :=
    Json.spelled_members (List.forall_mem_singleton.2 (Json.spelled_ofText ")"))
  have hspelled : (Json.object twoParts).Spelled := by
    apply Json.spelled_members
    simp only [List.forall_mem_cons]
    exact ⟨hx, Json.spelled_ofTexts [" "], hbounds, List.forall_mem_nil _⟩
  have htext : (Json.object twoParts).render .compact = twoPartsText := by decide +kernel
  rw [← htext]
  exact spelledBy_render_of_reread hspelled rfl .compact

theorem read?_described_two_parts :
    let r : Rules := { bounds := .ofList [("(", ")")], extra := [","], strip := [" "] }
    Describes r twoParts ∧ partsOf twoParts = [.strip, .bounds] ∧
      read? twoPartsText .json = some { bounds := .ofList [("(", ")")], extra := ["\n"], strip := [" "] } ∧
      read? "\x7b\"extra\":[],\"extra\":[]\x7d" .json = none := by
  intro r
  obtain ⟨hread, htwice⟩ := read?_described r
  have hdescribes : Describes r twoParts := by
    simp only [Describes, twoParts, named, List.map_cons, List.map_nil, List.forall_mem_cons]
    refine ⟨⟨"x", by decide, ?_⟩, ⟨"strip", by decide, ?_⟩, ⟨"bounds", by decide, ?_⟩, List.forall_mem_nil _⟩
    · intro p h
      cases p <;> exact absurd h (by decide)
    · intro p h
      cases p with
      | strip => exact ⟨_, rfl, by decide⟩
      | _ => exact absurd h (by decide)
    · intro p h
      cases p with
      | bounds => exact ⟨_, [("(", ")")], rfl, by decide, by decide⟩
      | _ => exact absurd h (by decide)
  have hparts : partsOf twoParts = [.strip, .bounds] := by decide +kernel
  refine ⟨hdescribes, hparts, ?_, ?_⟩
  · rw [hread _ _ spelledBy_twoPartsText hdescribes (by rw [hparts]; decide), hparts]
    rfl
  · have hspelled : (Json.object (named [("extra", .array []), ("extra", .array [])])).Spelled := by
      apply Json.spelled_members
      simp only [List.forall_mem_cons]
      exact ⟨Json.spelled_ofTexts [], Json.spelled_ofTexts [], List.forall_mem_nil _⟩
    exact htwice _ _ (spelledBy_render_of_reread hspelled rfl .compact) (by decide +kernel)

end BracketTree.Rules
