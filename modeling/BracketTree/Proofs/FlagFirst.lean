import BracketTree.CommandLine
import Mathlib.Tactic.Push
import Mathlib.Tactic.SplitIfs

/-! A flag in front of all other arguments. What the arguments make is changed by the flag and by nothing else, if the
change can be made before or after any other switch is used, and if the flag is not among the arguments already. So
whoever adds the flag need not know where the arguments would allow it. -/

namespace BracketTree.CommandLine
variable {α : Type}

/-- Whether a change can be made before as well as after a switch is used. -/
def Use.Commutes (f : α → α) : Use α → Prop
  | flag set => ∀ a, set (f a) = f (set a)
  | count set => ∀ a, set (f a) = f (set a)
  | value set => ∀ v a, set v (f a) = (set v a).map f
  | help => True

/-- A flag that makes some change, which commutes with everything that the grammar has. -/
structure Grammar.HasFlag (g : Grammar α) (n : String) (f : α → α) : Prop where
  idempotent : ∀ a, f (f a) = f a
  flag : ∀ s ∈ g.switches, s.name = n → s.use = .flag f
  commutes : ∀ s ∈ g.switches, s.use.Commutes f
  free : ∀ add ∈ g.free, ∀ v a, add v (f a) = f (add v a)

namespace Reading

/-- The same with the flag used before everything else. -/
def mark (f : α → α) (n : String) (r : Reading α) : Reading α :=
  { r with result := f r.result, used := r.used ++ [n] }

@[simp] theorem pending_mark (f : α → α) (n : String) (r : Reading α) : (r.mark f n).pending = r.pending := rfl

@[simp] theorem trailing_mark (f : α → α) (n : String) (r : Reading α) : (r.mark f n).trailing = r.trailing := rfl

/-- What has been read is in keeping with the flag: a switch that waits is another and commutes with it, and if the
flag has been used, it has been heeded. -/
structure Fits (f : α → α) (n : String) (r : Reading α) : Prop where
  pending : ∀ p ∈ r.pending, p.name ≠ n ∧ ∀ v a, p.set v (f a) = (p.set v a).map f
  used : n ∈ r.used → f r.result = r.result

/-- Reading on leads from `r` to `next`, and with the flag before everything else to `next'`, which is the same with the
flag before it, unless the flag has been used on the way. -/
def Keeps (f : α → α) (n : String) (r : Reading α) (next next' : Except Stop (Reading α)) : Prop :=
  ∀ r', next = .ok r' → r'.Fits f n ∧ (n ∈ r.used → n ∈ r'.used) ∧ (n ∉ r'.used → next' = .ok (r'.mark f n))

section
variable {f : α → α} {n : String} {r : Reading α}

theorem keeps_error (e : Stop) (next' : Except Stop (Reading α)) : Keeps f n r (.error e) next' := by
  intro r' h
  cases h

theorem keeps_ok (hr : r.Fits f n) : Keeps f n r (.ok r) (.ok (r.mark f n)) := by
  intro r' h
  cases h
  exact ⟨hr, id, fun _ => rfl⟩

theorem Keeps.bind {next next' : Except Stop (Reading α)} {go : Reading α → Except Stop (Reading α)}
    (h : Keeps f n r next next') (hgo : ∀ r' : Reading α, r'.Fits f n → Keeps f n r' (go r') (go (r'.mark f n))) :
    Keeps f n r (next >>= go) (next' >>= go) := by
  intro r'' hrun
  cases next with
  | error e => cases hrun
  | ok r' =>
    obtain ⟨hr', hused, hmark⟩ := h r' rfl
    obtain ⟨hr'', hused', hmark'⟩ := hgo r' hr' r'' hrun
    refine ⟨hr'', fun hm => hused' (hused hm), ?_⟩
    intro hm
    rw [hmark fun hm' => hm (hused' hm')]
    exact hmark' hm

theorem keeps_once {name : String} {set : α → Except Stop α} (hr : r.Fits f n)
    (hset : ∀ a, set (f a) = (set a).map f) (hname : name = n → ∀ a b, set a = .ok b → f b = b) :
    Keeps f n r (r.once name set) ((r.mark f n).once name set) := by
  intro r' h
  unfold once at h ⊢
  split_ifs at h with hused
  cases hb : set r.result with
  | error e =>
    rw [hb] at h
    cases h
  | ok b =>
    rw [hb] at h
    obtain rfl := Except.ok.inj h
    refine ⟨⟨hr.pending, ?_⟩, List.mem_cons_of_mem name, ?_⟩
    · intro hm
      rcases List.mem_cons.1 hm with rfl | hm
      · exact hname rfl _ _ hb
      · have hfb := hset r.result
        rw [hr.used hm, hb] at hfb
        exact (Except.ok.inj hfb).symm
    · intro hm
      have hne : n ≠ name := fun he => hm (he ▸ List.mem_cons_self)
      have hused' : name ∉ (r.mark f n).used := by
        change name ∉ r.used ++ [n]
        rw [List.mem_append, List.mem_singleton, not_or]
        exact ⟨hused, hne.symm⟩
      rw [if_neg hused']
      change (set (f r.result) >>= _) = _
      rw [hset, hb]
      rfl

theorem keeps_result {set : α → α} (hr : r.Fits f n) (hset : ∀ a, set (f a) = f (set a)) :
    Keeps f n r (.ok { r with result := set r.result })
      (.ok { r.mark f n with result := set (r.mark f n).result }) := by
  intro r' h
  cases h
  refine ⟨⟨hr.pending, ?_⟩, id, ?_⟩
  · intro hm
    change f (set r.result) = set r.result
    rw [← hset, hr.used hm]
  · intro _
    change Except.ok { r.mark f n with result := set (f r.result) } = _
    rw [hset]
    rfl

theorem keeps_pending {p : Pending α} (hr : r.Fits f n) (hname : p.name ≠ n)
    (hset : ∀ v a, p.set v (f a) = (p.set v a).map f) :
    Keeps f n r (.ok { r with pending := some p }) (.ok { r.mark f n with pending := some p }) := by
  intro r' h
  cases h
  refine ⟨⟨?_, hr.used⟩, id, fun _ => rfl⟩
  intro q hq
  cases hq
  exact ⟨hname, hset⟩

theorem keeps_settle (hr : r.Fits f n) : Keeps f n r r.settle (r.mark f n).settle := by
  unfold settle
  rw [pending_mark]
  cases hp : r.pending with
  | none => exact keeps_ok hr
  | some p =>
    obtain ⟨hname, hset⟩ := hr.pending p hp
    dsimp only
    cases p.value with
    | none => exact keeps_error _ _
    | some v =>
      have hsettled : Fits f n { r with pending := none } := ⟨by simp, hr.used⟩
      exact keeps_once hsettled (hset v) fun he => absurd he hname

theorem keeps_give {name v : String} {set : String → α → Except Stop α} (hr : r.Fits f n) (hname : name ≠ n)
    (hset : ∀ v a, set v (f a) = (set v a).map f) :
    Keeps f n r (r.give name v set) ((r.mark f n).give name v set) := by
  apply (keeps_settle hr).bind
  intro r' hr'
  exact keeps_once hr' (hset v) fun he => absurd he hname

theorem keeps_wait {name : String} {set : String → α → Except Stop α} (hr : r.Fits f n) (hname : name ≠ n)
    (hset : ∀ v a, set v (f a) = (set v a).map f) :
    Keeps f n r (r.wait name set) ((r.mark f n).wait name set) := by
  apply (keeps_settle hr).bind
  intro r' hr'
  exact keeps_pending hr' hname hset

end
end Reading

namespace Grammar
open Reading
variable {g : Grammar α} {f : α → α} {n : String} {r : Reading α}

/-- A switch with a value is not the flag. -/
theorem HasFlag.name_ne (hg : g.HasFlag n f) {s : Switch α} (hs : s ∈ g.switches) {set : String → α → Except Stop α}
    (hu : s.use = .value set) : s.name ≠ n := by
  intro he
  rw [hg.flag s hs he] at hu
  cases hu

theorem keeps_alone (hg : g.HasFlag n f) {s : Switch α} (hs : s ∈ g.switches) (hr : r.Fits f n) :
    Keeps f n r (alone r s) (alone (r.mark f n) s) := by
  have hc := hg.commutes s hs
  unfold alone
  cases hu : s.use with
  | flag set =>
    rw [hu] at hc
    apply (keeps_settle hr).bind
    intro r' hr'
    apply keeps_once hr'
    · intro a
      rw [hc a]
      rfl
    · rintro he a b hb
      have hset := hg.flag s hs he
      rw [hu] at hset
      obtain rfl := Use.flag.inj hset
      obtain rfl := Except.ok.inj hb
      exact hg.idempotent a
  | count set =>
    rw [hu] at hc
    apply (keeps_settle hr).bind
    intro r' hr'
    exact keeps_result hr' hc
  | value set =>
    rw [hu] at hc
    exact keeps_wait hr (hg.name_ne hs hu) hc
  | help =>
    apply (keeps_settle hr).bind
    intro r' _
    exact keeps_error _ _

theorem keeps_word (hg : g.HasFlag n f) (hr : r.Fits f n) (cs : List Char) :
    Keeps f n r (g.word r cs) (g.word (r.mark f n) cs) := by
  unfold word
  dsimp only
  cases hf : g.switches.find? (·.name = String.ofList (cs.takeWhile (· ≠ '='))) with
  | none => exact keeps_error _ _
  | some s =>
    have hs := List.mem_of_find?_eq_some hf
    have hc := hg.commutes s hs
    dsimp only
    cases cs.dropWhile (· ≠ '=') with
    | nil => exact keeps_alone hg hs hr
    | cons d v =>
      cases hu : s.use with
      | value set =>
        rw [hu] at hc
        exact keeps_give hr (hg.name_ne hs hu) hc
      | flag set => exact keeps_error _ _
      | count set => exact keeps_error _ _
      | help => exact keeps_error _ _

/-- What follows the letter of a switch with a value is the value. -/
theorem letters_value {s : Switch α} {set : String → α → Except Stop α} {c d : Char}
    (hf : g.switches.find? (·.letter = some c) = some s) (hu : s.use = .value set) (r : Reading α) (v : List Char) :
    g.letters r (c :: d :: v) = r.give s.name (String.ofList (if d = '=' then v else d :: v)) set := by
  rw [letters, hf]
  dsimp only
  rw [hu]
  split_ifs with hd
  · subst hd
    rfl
  · simp

theorem letters_alone {s : Switch α} {c : Char} {cs : List Char}
    (hf : g.switches.find? (·.letter = some c) = some s) (hu : ∀ set, s.use = .value set → cs = [])
    (r : Reading α) : g.letters r (c :: cs) = alone r s >>= (g.letters · cs) := by
  rw [letters, hf]
  dsimp only
  cases hs : s.use with
  | value set =>
    obtain rfl := hu set hs
    rfl
  | flag set => rfl
  | count set => rfl
  | help => rfl

theorem keeps_letters (hg : g.HasFlag n f) (hr : r.Fits f n) (cs : List Char) :
    Keeps f n r (g.letters r cs) (g.letters (r.mark f n) cs) := by
  induction cs generalizing r with
  | nil => exact keeps_ok hr
  | cons c cs ih =>
    cases hf : g.switches.find? (·.letter = some c) with
    | none =>
      rw [letters, hf]
      exact keeps_error _ _
    | some s =>
      have hs := List.mem_of_find?_eq_some hf
      by_cases hu : ∀ set, s.use = .value set → cs = []
      · rw [letters_alone hf hu, letters_alone hf hu]
        apply (keeps_alone hg hs hr).bind
        intro r' hr'
        exact ih hr'
      · push Not at hu
        obtain ⟨set, hu, hne⟩ := hu
        obtain ⟨d, v, rfl⟩ := List.exists_cons_of_ne_nil hne
        have hc := hg.commutes s hs
        rw [hu] at hc
        rw [letters_value hf hu, letters_value hf hu]
        exact keeps_give hr (hg.name_ne hs hu) hc

theorem keeps_takeFree (hg : g.HasFlag n f) (hr : r.Fits f n) (arg : String) :
    Keeps f n r (g.takeFree r arg) (g.takeFree (r.mark f n) arg) := by
  unfold takeFree
  cases hf : g.free with
  | none => exact keeps_error _ _
  | some add =>
    apply (keeps_settle hr).bind
    intro r' hr'
    exact keeps_result hr' (hg.free add hf arg)

theorem keeps_step (hg : g.HasFlag n f) (hr : r.Fits f n) (arg : String) :
    Keeps f n r (g.step r arg) (g.step (r.mark f n) arg) := by
  unfold step
  rw [trailing_mark]
  split_ifs with ht
  · exact keeps_takeFree hg hr arg
  split
  · intro r' h
    cases h
    exact ⟨⟨hr.pending, hr.used⟩, id, fun _ => rfl⟩
  · exact keeps_word hg hr _
  · exact keeps_letters hg hr _
  · rw [pending_mark]
    cases hp : r.pending with
    | none => exact keeps_takeFree hg hr arg
    | some p =>
      obtain ⟨hname, hset⟩ := hr.pending p hp
      obtain ⟨name, set, value⟩ := p
      cases value with
      | none => exact @keeps_pending _ f n r { name, set, value := some arg } hr hname hset
      | some v => exact keeps_takeFree hg hr arg

theorem keeps_foldlM (hg : g.HasFlag n f) (hr : r.Fits f n) (args : List String) :
    Keeps f n r (args.foldlM g.step r) (args.foldlM g.step (r.mark f n)) := by
  induction args generalizing r with
  | nil => exact keeps_ok hr
  | cons arg args ih =>
    rw [List.foldlM_cons, List.foldlM_cons]
    apply (keeps_step hg hr arg).bind
    intro r' hr'
    exact ih hr'

/-- A flag that does something can be put before arguments that have not done it. -/
theorem read_flag_first (hg : g.HasFlag n f) {start a : α} {flag : String} {args : List String}
    (hflag : g.step { result := start } flag = .ok (Reading.mark f n { result := start }))
    (h : g.read start args = .ok a) (ha : f a ≠ a) : g.read start (flag :: args) = .ok (f a) := by
  have hstart : Fits f n { result := start } := ⟨by simp, by simp⟩
  have hkeeps : Keeps f n { result := start } (args.foldlM g.step { result := start } >>= settle)
      (args.foldlM g.step (Reading.mark f n { result := start }) >>= settle) := by
    apply (keeps_foldlM hg hstart args).bind
    intro r' hr'
    exact keeps_settle hr'
  unfold read at h ⊢
  rw [List.foldlM_cons, hflag]
  change (args.foldlM g.step (Reading.mark f n { result := start }) >>= fun r => r.settle >>= fun r => .ok r.result) = _
  change (args.foldlM g.step { result := start } >>= fun r => r.settle >>= fun r => .ok r.result) = _ at h
  rw [← bind_assoc] at h ⊢
  cases hrun : args.foldlM g.step { result := start } >>= settle with
  | error e =>
    rw [hrun] at h
    cases h
  | ok r =>
    rw [hrun] at h
    obtain rfl := Except.ok.inj h
    obtain ⟨hr, -, hmark⟩ := hkeeps r hrun
    rw [hmark fun hm => ha (hr.used hm)]
    rfl

end Grammar

/-! The flag that has the rule file left as it is. -/

theorem commutes_pathValue {f : α → α} {set : String → α → α} (h : ∀ v a, set v (f a) = f (set v a)) :
    (pathValue set).Commutes f := by
  intro v a
  dsimp only
  split_ifs with hv
  · rfl
  · rw [h]
    rfl

/-- The same command, but the rule file is left as it is. -/
abbrev withNoPersist (c : Command.Parse) : Command.Parse := { c with noPersist := true }

theorem hasFlag_parseGrammar : parseGrammar.HasFlag "no-persist" withNoPersist where
  idempotent _ := rfl
  flag := by simp [parseGrammar, helpSwitch]
  commutes := by
    unfold parseGrammar
    simp only [List.forall_mem_cons]
    refine ⟨commutes_pathValue fun _ _ => rfl, commutes_pathValue fun _ _ => rfl, ?format, fun _ => rfl, fun _ => rfl,
      fun _ => rfl, ?threads, commutes_pathValue fun _ _ => rfl, fun _ => rfl, fun _ => rfl, trivial,
      List.forall_mem_nil _⟩
    case format =>
      intro v c
      dsimp only
      cases Report.Format.ofName? v <;> rfl
    case threads =>
      intro v c
      dsimp only
      cases threads? v <;> rfl
  free := by
    intro add hadd v c
    cases hadd
    rfl

/-- What is left to do when all arguments have been read. -/
def complete (environment : Option String) (c : Command.Parse) : Except Stop Command.Parse :=
  if c.rules = none ∧ environment = some "" then .error .badValue
  else if c.inputs.isEmpty then .error .missingArgument
  else .ok { c with rules := c.rules.or environment }

theorem parse_eq (environment : Option String) (args : List String) :
    parse environment args = parseGrammar.read {} args >>= complete environment := by
  unfold parse
  cases parseGrammar.read {} args with
  | error e => rfl
  | ok c =>
    obtain ⟨inputs, rules, _⟩ := c
    cases rules with
    | some path => cases inputs <;> rfl
    | none =>
      cases environment with
      | none => cases inputs <;> rfl
      | some path =>
        by_cases hp : path = ""
        · subst hp
          rfl
        · cases inputs <;> simp [complete, hp, bind, Except.bind]

theorem complete_withNoPersist {environment : Option String} {c c' : Command.Parse}
    (h : complete environment c = .ok c') :
    c'.noPersist = c.noPersist ∧ complete environment (withNoPersist c) = .ok (withNoPersist c') := by
  unfold complete at h ⊢
  dsimp only at h ⊢
  split_ifs at h ⊢
  obtain rfl := Except.ok.inj h
  exact ⟨rfl, rfl⟩

/-- What is said about parsing can be said with the flag in front. -/
theorem parse_noPersist_first {environment : Option String} {args : List String} {c : Command.Parse}
    (h : parse environment args = .ok c) (hc : c.noPersist = false) :
    parse environment ("--no-persist" :: args) = .ok (withNoPersist c) := by
  rw [parse_eq] at h ⊢
  cases hread : parseGrammar.read {} args with
  | error e =>
    rw [hread] at h
    cases h
  | ok c₀ =>
    rw [hread] at h
    obtain ⟨hkept, hcomplete⟩ := complete_withNoPersist h
    have hne : withNoPersist c₀ ≠ c₀ := by
      intro he
      have hno := congrArg Command.Parse.noPersist he
      rw [← hkept, hc] at hno
      cases hno
    rw [Grammar.read_flag_first hasFlag_parseGrammar rfl hread hne]
    exact hcomplete

theorem read_noPersist_first {environment : Option String} {args : List String} {c : Command.Parse}
    (h : read environment ("parse" :: args) = .ok (.parse c)) (hc : c.noPersist = false) :
    read environment ("parse" :: "--no-persist" :: args) = .ok (.parse (withNoPersist c)) := by
  change (parse environment args).map Command.parse = _ at h
  change (parse environment ("--no-persist" :: args)).map Command.parse = _
  cases hp : parse environment args with
  | error e =>
    rw [hp] at h
    cases h
  | ok c' =>
    rw [hp] at h
    cases h
    rw [parse_noPersist_first hp hc]
    rfl

end BracketTree.CommandLine
