import BracketTree.Config

/-! What a configuration file says. A section has entries, each of which sets something, and an array in its place has
the values without the names, in order. What no entry sets is as it is without a file, and an entry that sets nothing
is refused. -/

namespace BracketTree.Config
open Toml

/-- The entries of a section. -/
def entries? (names : List String) : Value → Option Table
  | .table _ es => some es
  | v => v.items?.map names.zip

/-- The value under a name; if the name comes again, the last one. -/
def said? (es : Table) (name : String) : Option Value := es.reverse.lookup name

/-- Whether `b` is what a section says under a name, or what holds by default if it says nothing. -/
structure Says {β : Type} (es : Table) (name : String) (Means : Value → β → Prop) (default b : β) : Prop where
  of_some : ∀ v, said? es name = some v → Means v b
  of_none : said? es name = none → b = default

theorem said?_cons (e : String × Value) (es : Table) (name : String) :
    said? (e :: es) name = (said? es name).or (if e.1 = name then some e.2 else none) := by
  unfold said?
  rw [List.reverse_cons, List.lookup_append]
  congr 1
  obtain ⟨k, v⟩ := e
  rw [List.lookup_cons]
  by_cases h : k = name
  · rw [if_pos h, h, beq_self_eq_true]
  · rw [if_neg h, beq_false_of_ne fun he => h he.symm]
    rfl

theorem Says.unique {β : Type} {es : Table} {name : String} {Means : Value → β → Prop} {default b b' : β}
    (hm : ∀ v b b', Means v b → Means v b' → b = b') (h : Says es name Means default b)
    (h' : Says es name Means default b') : b = b' := by
  cases hs : said? es name with
  | none => exact (h.of_none hs).trans (h'.of_none hs).symm
  | some v => exact hm v b b' (h.of_some v hs) (h'.of_some v hs)

theorem mem_of_lookup {α β : Type} [BEq α] [LawfulBEq α] {xs : List (α × β)} {k : α} {x : β}
    (h : xs.lookup k = some x) : (k, x) ∈ xs := by
  obtain ⟨before, after, rfl, -⟩ := List.lookup_eq_some_iff.1 h
  exact List.mem_append_right before List.mem_cons_self

/-! Reading by a schema. -/

/-- Takes in one entry. -/
def Schema.take {α : Type} (schema : Schema α) (a : α) (e : String × Value) : Option α :=
  (schema.lookup e.1).bind fun set => set e.2 a

/-- Whether a schema takes in the entries that set something, and lets them set it. -/
def Schema.Follows {α : Type} (schema : Schema α) (Sets : String × Value → (α → α) → Prop) : Prop :=
  ∀ a a' e, schema.take a e = some a' ↔ ∃ set, Sets e set ∧ a' = set a

section
variable {α β : Type} {schema : Schema α} {Sets : String × Value → (α → α) → Prop} {es : Table} {a a' : α}

/-- An array is read as the table that gives its items the names of the settings. -/
theorem foldlM_zip_eq (hn : (schema.map (·.1)).Nodup) (vs : List Value) (a : α) :
    (vs.zip schema).foldlM (fun a e => e.2.2 e.1 a) a = ((schema.map (·.1)).zip vs).foldlM schema.take a := by
  -- The names that have been passed are kept, because each name is looked up in the whole schema.
  suffices h : ∀ before after, schema = before ++ after → ∀ vs a,
      (vs.zip after).foldlM (fun a e => e.2.2 e.1 a) a = ((after.map (·.1)).zip vs).foldlM schema.take a from
    h [] schema rfl vs a
  intro before after
  induction after generalizing before with
  | nil =>
    intro _ vs a
    cases vs <;> rfl
  | cons s after ih =>
    intro hs vs a
    cases vs with
    | nil => rfl
    | cons v vs =>
      have hlookup : schema.lookup s.1 = some s.2 := by
        refine List.lookup_eq_some_iff.2 ⟨before, after, hs, ?_⟩
        intro x hx
        rw [hs, List.map_append, List.map_cons, List.nodup_append] at hn
        simpa using (hn.2.2 x.1 (List.mem_map_of_mem hx) s.1 List.mem_cons_self).symm
      have htake : schema.take a (s.1, v) = s.2 v a := by
        unfold Schema.take
        rw [hlookup]
        rfl
      rw [List.map_cons, List.zip_cons_cons, List.zip_cons_cons, List.foldlM_cons, List.foldlM_cons, htake]
      congr 1
      funext b
      exact ih (before ++ [s]) (by rw [hs, List.append_assoc]; rfl) vs b

theorem read?_eq_some_iff_entries (hn : (schema.map (·.1)).Nodup) {v : Value} : schema.read? a v = some a' ↔
    ∃ es, entries? (schema.map (·.1)) v = some es ∧ es.foldlM schema.take a = some a' := by
  have harray : ∀ v : Value, (do (← v.items?).zip schema |>.foldlM (fun a e => e.2.2 e.1 a) a) = some a' ↔
      ∃ es, v.items?.map (schema.map (·.1)).zip = some es ∧ es.foldlM schema.take a = some a' := by
    intro v
    cases v.items? with
    | none => simp
    | some vs => simp [foldlM_zip_eq hn]
  cases v with
  | table o es =>
    constructor
    · intro h
      exact ⟨es, rfl, h⟩
    · rintro ⟨es', hes, h⟩
      obtain rfl := Option.some.inj hes
      exact h
  | _ => exact harray _

theorem Schema.Follows.exists_foldlM_iff (h : schema.Follows Sets) :
    (∃ a', es.foldlM schema.take a = some a') ↔ ∀ e ∈ es, ∃ set, Sets e set := by
  induction es generalizing a with
  | nil => simp
  | cons e es ih =>
    simp only [List.foldlM_cons, List.forall_mem_cons]
    constructor
    · rintro ⟨a', ha'⟩
      obtain ⟨b, hb, hrest⟩ := Option.bind_eq_some_iff.1 ha'
      obtain ⟨set, hset, -⟩ := (h a b e).1 hb
      exact ⟨⟨set, hset⟩, ih.1 ⟨a', hrest⟩⟩
    · rintro ⟨⟨set, hset⟩, hes⟩
      obtain ⟨a', ha'⟩ := ih.2 hes
      exact ⟨a', Option.bind_eq_some_iff.2 ⟨set a, (h a _ e).2 ⟨set, hset, rfl⟩, ha'⟩⟩

/-- What one name sets and no other touches is, in the end, what is said under the name. -/
theorem Schema.Follows.says (h : schema.Follows Sets) {name : String} {Means : Value → β → Prop} (get : α → β)
    (hset : ∀ e set a, Sets e set → e.1 = name → Means e.2 (get (set a)))
    (hkeep : ∀ e set a, Sets e set → e.1 ≠ name → get (set a) = get a)
    (hread : es.foldlM schema.take a = some a') : Says es name Means (get a) (get a') := by
  induction es generalizing a with
  | nil =>
    obtain rfl := Option.some.inj hread
    exact ⟨nofun, fun _ => rfl⟩
  | cons e es ih =>
    rw [List.foldlM_cons] at hread
    obtain ⟨b, hb, hread⟩ := Option.bind_eq_some_iff.1 hread
    obtain ⟨set, hsets, rfl⟩ := (h a b e).1 hb
    obtain ⟨hsome, hnone⟩ := ih hread
    constructor
    · intro v hv
      rw [said?_cons] at hv
      cases hs : said? es name with
      | some u =>
        rw [hs] at hv
        obtain rfl := Option.some.inj hv
        exact hsome _ hs
      | none =>
        rw [hs, Option.none_or] at hv
        split at hv
        next hname =>
          obtain rfl := Option.some.inj hv
          rw [hnone hs]
          exact hset e set a hsets hname
        next => cases hv
    · intro hv
      rw [said?_cons, Option.or_eq_none_iff] at hv
      obtain ⟨hs, he⟩ := hv
      rw [hnone hs]
      apply hkeep e set a hsets
      intro hname
      rw [if_pos hname] at he
      cases he

/-- What is said by some entries is what they are read as, if it is settled by them. -/
theorem Schema.Follows.read?_eq_some_iff (h : schema.Follows Sets) (hn : (schema.map (·.1)).Nodup)
    {SaidBy : α → Table → Prop} (hsaid : ∀ {a' es}, es.foldlM schema.take a = some a' → SaidBy a' es)
    (hentries : ∀ {a' es}, SaidBy a' es → ∀ e ∈ es, ∃ set, Sets e set)
    (heq : ∀ {a' a'' es}, SaidBy a' es → SaidBy a'' es → a' = a'') {v : Value} :
    schema.read? a v = some a' ↔ ∃ es, entries? (schema.map (·.1)) v = some es ∧ SaidBy a' es := by
  rw [read?_eq_some_iff_entries hn]
  constructor
  · rintro ⟨es, hes, hread⟩
    exact ⟨es, hes, hsaid hread⟩
  · rintro ⟨es, hes, hs⟩
    obtain ⟨a'', hread⟩ := h.exists_foldlM_iff.2 (hentries hs)
    obtain rfl := heq (hsaid hread) hs
    exact ⟨es, hes, hread⟩

end

theorem text?_eq_some_iff {v : Value} {s : String} : v.text? = some s ↔ v = .string s := by
  cases v <;> simp [Value.text?]

theorem boolean?_eq_some_iff {v : Value} {b : Bool} : boolean? v = some b ↔ v = .boolean b := by
  cases v <;> simp [boolean?]

theorem threads?_eq_some_iff {v : Value} {n : Nat} : threads? v = some n ↔ n < UInt64.size ∧ v = .integer n := by
  cases v with
  | integer m =>
    simp only [threads?, Option.ite_none_right_eq_some, Bool.and_eq_true, decide_eq_true_eq, Value.integer.injEq,
      Option.some.injEq]
    omega
  | _ => simp [threads?]

/-! How texts are processed. -/

namespace Processing

/-- What an entry sets. -/
inductive Sets : String × Value → (Processing → Processing) → Prop
  | rules (path) : Sets ("rules", .string path) fun p => { p with rules := some path }
  | strict (b) : Sets ("strict", .boolean b) fun p => { p with strict := b }
  | strictRules (b) : Sets ("strict_rules", .boolean b) fun p => { p with strictRules := b }
  | persistRules (b) : Sets ("persist_rules", .boolean b) fun p => { p with persistRules := b }
  | threads (n : Nat) (h : n < UInt64.size) : Sets ("threads", .integer n) fun p => { p with threads := n }

theorem follows : processingSchema.Follows Sets := by
  intro p p' e
  constructor
  · intro h
    obtain ⟨k, v⟩ := e
    obtain ⟨set, hset, h⟩ := Option.bind_eq_some_iff.1 h
    have hmem := mem_of_lookup hset
    simp only [processingSchema, List.mem_cons, Prod.mk.injEq, List.not_mem_nil, or_false] at hmem
    obtain ⟨rfl, rfl⟩ | ⟨rfl, rfl⟩ | ⟨rfl, rfl⟩ | ⟨rfl, rfl⟩ | ⟨rfl, rfl⟩ := hmem
    all_goals obtain ⟨x, hx, rfl⟩ := Option.map_eq_some_iff.1 h
    · obtain rfl := text?_eq_some_iff.1 hx
      exact ⟨_, .rules x, rfl⟩
    · obtain rfl := boolean?_eq_some_iff.1 hx
      exact ⟨_, .strict x, rfl⟩
    · obtain rfl := boolean?_eq_some_iff.1 hx
      exact ⟨_, .strictRules x, rfl⟩
    · obtain rfl := boolean?_eq_some_iff.1 hx
      exact ⟨_, .persistRules x, rfl⟩
    · obtain ⟨hn, rfl⟩ := threads?_eq_some_iff.1 hx
      exact ⟨_, .threads x hn, rfl⟩
  · rintro ⟨set, hset, rfl⟩
    cases hset with
    | rules | strict | strictRules | persistRules => rfl
    | threads n hn =>
      exact Option.bind_eq_some_iff.2 ⟨_, rfl, Option.map_eq_some_iff.2 ⟨n, threads?_eq_some_iff.2 ⟨hn, rfl⟩, rfl⟩⟩

structure SaidBy (p : Processing) (es : Table) : Prop where
  entries : ∀ e ∈ es, ∃ set, Sets e set
  rules : Says es "rules" (fun v path => ∃ s, v = .string s ∧ path = some s) none p.rules
  strict : Says es "strict" (fun v b => v = .boolean b) false p.strict
  strictRules : Says es "strict_rules" (fun v b => v = .boolean b) false p.strictRules
  persistRules : Says es "persist_rules" (fun v b => v = .boolean b) true p.persistRules
  threads : Says es "threads" (fun v (n : Nat) => v = .integer n) 0 p.threads

theorem saidBy_of_foldlM {es : Table} {p : Processing} (h : es.foldlM processingSchema.take {} = some p) :
    p.SaidBy es := by
  refine ⟨follows.exists_foldlM_iff.1 ⟨p, h⟩, follows.says rules ?_ ?_ h, follows.says strict ?_ ?_ h,
    follows.says strictRules ?_ ?_ h, follows.says persistRules ?_ ?_ h, follows.says threads ?_ ?_ h⟩
  all_goals
    intro e set p hset hname
    cases hset <;> simp_all

theorem SaidBy.eq {es : Table} {p p' : Processing} (h : p.SaidBy es) (h' : p'.SaidBy es) : p = p' := by
  have hboolean : ∀ (v : Value) (b b' : Bool), v = .boolean b → v = .boolean b' → b = b' := by
    rintro v b b' rfl h
    exact Value.boolean.inj h
  have hrules : p.rules = p'.rules := by
    refine h.rules.unique ?_ h'.rules
    rintro v path path' ⟨s, rfl, rfl⟩ ⟨s', hs, rfl⟩
    rw [Value.string.inj hs]
  have hthreads : p.threads = p'.threads := by
    refine h.threads.unique ?_ h'.threads
    rintro v n n' rfl hn
    exact Int.ofNat.inj (Value.integer.inj hn)
  have hstrict := h.strict.unique hboolean h'.strict
  have hstrictRules := h.strictRules.unique hboolean h'.strictRules
  have hpersist := h.persistRules.unique hboolean h'.persistRules
  obtain ⟨_, _, _, _, _⟩ := p
  obtain ⟨_, _, _, _, _⟩ := p'
  rw [Processing.mk.injEq]
  exact ⟨hrules, hstrict, hstrictRules, hpersist, hthreads⟩

/-- How texts are processed if the section is this value. -/
def SaidIn (p : Processing) (v : Value) : Prop :=
  ∃ es, entries? ["rules", "strict", "strict_rules", "persist_rules", "threads"] v = some es ∧ p.SaidBy es

theorem read?_eq_some_iff {v : Value} {p : Processing} : processingSchema.read? {} v = some p ↔ p.SaidIn v :=
  follows.read?_eq_some_iff (by decide) saidBy_of_foldlM SaidBy.entries SaidBy.eq

end Processing

/-! How the result is written. -/

namespace Output

inductive Sets : String × Value → (Output → Output) → Prop
  | format (v f) (h : format? v = some f) : Sets ("format", v) fun o => { o with format := f }
  | pretty (b) : Sets ("pretty", .boolean b) fun o => { o with pretty := b }

theorem follows : outputSchema.Follows Sets := by
  intro o o' e
  constructor
  · intro h
    obtain ⟨k, v⟩ := e
    obtain ⟨set, hset, h⟩ := Option.bind_eq_some_iff.1 h
    have hmem := mem_of_lookup hset
    simp only [outputSchema, List.mem_cons, Prod.mk.injEq, List.not_mem_nil, or_false] at hmem
    obtain ⟨rfl, rfl⟩ | ⟨rfl, rfl⟩ := hmem
    all_goals obtain ⟨x, hx, rfl⟩ := Option.map_eq_some_iff.1 h
    · exact ⟨_, .format v x hx, rfl⟩
    · obtain rfl := boolean?_eq_some_iff.1 hx
      exact ⟨_, .pretty x, rfl⟩
  · rintro ⟨set, hset, rfl⟩
    cases hset with
    | format v f h => exact Option.bind_eq_some_iff.2 ⟨_, rfl, Option.map_eq_some_iff.2 ⟨f, h, rfl⟩⟩
    | pretty => rfl

structure SaidBy (o : Output) (es : Table) : Prop where
  entries : ∀ e ∈ es, ∃ set, Sets e set
  format : Says es "format" (fun v f => format? v = some f) .json o.format
  pretty : Says es "pretty" (fun v b => v = .boolean b) true o.pretty

theorem saidBy_of_foldlM {es : Table} {o : Output} (h : es.foldlM outputSchema.take {} = some o) : o.SaidBy es := by
  refine ⟨follows.exists_foldlM_iff.1 ⟨o, h⟩, follows.says format ?_ ?_ h, follows.says pretty ?_ ?_ h⟩
  all_goals
    intro e set o hset hname
    cases hset <;> simp_all

theorem SaidBy.eq {es : Table} {o o' : Output} (h : o.SaidBy es) (h' : o'.SaidBy es) : o = o' := by
  have hformat : o.format = o'.format := by
    refine h.format.unique ?_ h'.format
    intro v f f' hf hf'
    exact Option.some.inj (hf.symm.trans hf')
  have hpretty : o.pretty = o'.pretty := by
    refine h.pretty.unique ?_ h'.pretty
    rintro v b b' rfl hb
    exact Value.boolean.inj hb
  obtain ⟨_, _⟩ := o
  obtain ⟨_, _⟩ := o'
  rw [Output.mk.injEq]
  exact ⟨hformat, hpretty⟩

def SaidIn (o : Output) (v : Value) : Prop := ∃ es, entries? ["format", "pretty"] v = some es ∧ o.SaidBy es

theorem read?_eq_some_iff {v : Value} {o : Output} : outputSchema.read? {} v = some o ↔ o.SaidIn v :=
  follows.read?_eq_some_iff (by decide) saidBy_of_foldlM SaidBy.entries SaidBy.eq

end Output

/-! The file as a whole. -/

inductive Sets : String × Value → (Config → Config) → Prop
  | processing (v p) (h : Processing.SaidIn p v) : Sets ("processing", v) fun c => { c with processing := p }
  | output (v o) (h : Output.SaidIn o v) : Sets ("output", v) fun c => { c with output := o }

theorem follows : schema.Follows Sets := by
  intro c c' e
  constructor
  · intro h
    obtain ⟨k, v⟩ := e
    obtain ⟨set, hset, h⟩ := Option.bind_eq_some_iff.1 h
    have hmem := mem_of_lookup hset
    simp only [schema, List.mem_cons, Prod.mk.injEq, List.not_mem_nil, or_false] at hmem
    obtain ⟨rfl, rfl⟩ | ⟨rfl, rfl⟩ := hmem
    all_goals obtain ⟨x, hx, rfl⟩ := Option.map_eq_some_iff.1 h
    · exact ⟨_, .processing v x (Processing.read?_eq_some_iff.1 hx), rfl⟩
    · exact ⟨_, .output v x (Output.read?_eq_some_iff.1 hx), rfl⟩
  · rintro ⟨set, hset, rfl⟩
    refine Option.bind_eq_some_iff.2 ?_
    cases hset with
    | processing v p h => exact ⟨_, rfl, Option.map_eq_some_iff.2 ⟨p, Processing.read?_eq_some_iff.2 h, rfl⟩⟩
    | output v o h => exact ⟨_, rfl, Option.map_eq_some_iff.2 ⟨o, Output.read?_eq_some_iff.2 h, rfl⟩⟩

/-- What a file with these sections configures. -/
structure SaidBy (config : Config) (t : Table) : Prop where
  entries : ∀ e ∈ t, ∃ set, Sets e set
  processing : Says t "processing" (fun v p => Processing.SaidIn p v) {} config.processing
  output : Says t "output" (fun v o => Output.SaidIn o v) {} config.output

theorem saidBy_of_foldlM {t : Table} {config : Config} (h : t.foldlM schema.take {} = some config) :
    config.SaidBy t := by
  refine ⟨follows.exists_foldlM_iff.1 ⟨config, h⟩, follows.says processing ?_ ?_ h, follows.says output ?_ ?_ h⟩
  all_goals
    intro e set c hset hname
    cases hset <;> simp_all

theorem SaidBy.eq {t : Table} {c c' : Config} (h : c.SaidBy t) (h' : c'.SaidBy t) : c = c' := by
  have hprocessing : c.processing = c'.processing := by
    refine h.processing.unique ?_ h'.processing
    intro v p p' hp hp'
    rw [← Processing.read?_eq_some_iff] at hp hp'
    exact Option.some.inj (hp.symm.trans hp')
  have houtput : c.output = c'.output := by
    refine h.output.unique ?_ h'.output
    intro v o o' ho ho'
    rw [← Output.read?_eq_some_iff] at ho ho'
    exact Option.some.inj (ho.symm.trans ho')
  obtain ⟨_, _⟩ := c
  obtain ⟨_, _⟩ := c'
  rw [Config.mk.injEq]
  exact ⟨hprocessing, houtput⟩

theorem read?_eq_some_iff {text : String} {config : Config} :
    read? text = some config ↔ ∃ t, Table.read? text = some t ∧ config.SaidBy t := by
  have htable : ∀ t, schema.read? {} (.table .heading t) = some config ↔ config.SaidBy t := by
    intro t
    rw [follows.read?_eq_some_iff (by decide) saidBy_of_foldlM SaidBy.entries SaidBy.eq]
    simp [entries?]
  unfold read?
  cases Table.read? text with
  | none => simp
  | some t => simp [htable]

end BracketTree.Config
