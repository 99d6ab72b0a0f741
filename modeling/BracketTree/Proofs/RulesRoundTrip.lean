import BracketTree.Proofs.JsonRoundTrip
import BracketTree.Proofs.Lookup
import BracketTree.Proofs.TomlDocument
import BracketTree.Rules.Format

/-! What is written of a rule set is read as that rule set, in either format. Both formats name all three parts, so no
part that is empty is taken for a part that is missing; and pairs are written in the order of their opening tokens,
each once, so that they make the same map again. -/

namespace BracketTree.Rules

theorem mapM_eq_some_of_map {α β : Type} {f : α → Option β} {xs : List α} {ys : List β}
    (h : xs.map f = ys.map some) : xs.mapM f = some ys := by
  induction xs generalizing ys with
  | nil =>
    cases ys with
    | nil => rfl
    | cons y ys => cases h
  | cons x xs ih =>
    cases ys with
    | nil => cases h
    | cons y ys =>
      obtain ⟨hx, hxs⟩ := List.cons.inj h
      rw [List.mapM_cons, hx, ih hxs]
      rfl

/-- What is undone for each item is undone for all of them. -/
theorem mapM_map_of_inverse {α β : Type} {f : α → β} {g : β → Option α} (h : ∀ x, g (f x) = some x)
    (xs : List α) : (xs.map f).mapM g = some xs :=
  mapM_eq_some_of_map (List.map_map.trans (List.map_congr_left fun x _ => h x))

/-! JSON. -/

theorem spelled_toJson (r : Rules) : r.toJson.Spelled := by
  apply Json.Spelled.object
  · intro m hm
    simp only [List.mem_cons, List.not_mem_nil, or_false] at hm
    rcases hm with rfl | rfl | rfl <;> exact StringUnit.fits_ofText _
  · intro m hm
    simp only [List.mem_cons, List.not_mem_nil, or_false] at hm
    obtain rfl | rfl | rfl := hm
    · exact Json.spelled_members fun e _ => Json.spelled_ofText e.2
    · exact Json.spelled_ofTexts r.extra
    · exact Json.spelled_ofTexts r.strip

theorem texts?_reread_ofTexts (ts : List String) : (Json.ofTexts ts).reread.texts? = some ts := by
  rw [Json.ofTexts, Json.reread, Json.texts?, Json.rereadItems_eq_map, List.map_map]
  exact mapM_map_of_inverse Json.text?_reread_ofText ts

theorem boundsOfJson?_reread (m : StringMap String) :
    boundsOfJson? (Json.object (m.entries.map fun e => Json.member e.1 (.ofText e.2))).reread = some m := by
  rw [Json.reread, boundsOfJson?, Json.rereadMembers_eq_map, List.map_map, mapM_map_of_inverse, Option.map_some,
    StringMap.ofList_entries]
  intro e
  simp [boundOfJson?, Json.member, StringUnit.text?_reread, Json.text?_reread_ofText]

theorem ofJson?_members {b e s : Json} {bounds : StringMap String} {extra strip : List String}
    (hb : boundsOfJson? b = some bounds) (he : e.texts? = some extra) (hs : s.texts? = some strip) :
    ofJson? (.object [
      ((StringUnit.ofText "bounds").map StringUnit.reread, b),
      ((StringUnit.ofText "extra").map StringUnit.reread, e),
      ((StringUnit.ofText "strip").map StringUnit.reread, s)]) = some ⟨bounds, extra, strip⟩ := by
  simp [ofJson?, Partial.addMember, Partial.rules, StringUnit.text?_reread, hb, he, hs]

theorem read?_render_json (r : Rules) : read? (r.render .json) .json = some r := by
  have hread : Json.read? (r.render .json) = some r.toJson.reread :=
    (spelled_toJson r).read?_render_eq_reread .pretty
  rw [read?, hread]
  exact ofJson?_members (boundsOfJson?_reread r.bounds) (texts?_reread_ofTexts r.extra)
    (texts?_reread_ofTexts r.strip)

/-! TOML. -/

/-- The lists of a rule set as a table. -/
def listTable (r : Rules) : Toml.Table :=
  [("extra", .array (r.extra.map .string)), ("strip", .array (r.strip.map .string))]

theorem toToml_eq (r : Rules) :
    r.toToml = String.ofList (Toml.writeLists "extra" "strip" "bounds" r.extra r.strip r.bounds.entries) := by
  simp [toToml, Toml.writeLists, Toml.writeSection, Toml.writePairs]

/-- The table a rule set is written as. -/
def toTable (r : Rules) : Toml.Table :=
  r.listTable ++ [("bounds", .table .heading (Toml.textTable r.bounds.entries))]

theorem read?_toToml (r : Rules) : Toml.Table.read? r.toToml = some r.toTable := by
  have hlists : r.listTable.Pairwise fun a b => a.1 ≠ b.1 := by simp [listTable]
  have hbounds : (Toml.textTable r.bounds.entries).Pairwise fun a b => a.1 ≠ b.1 := by
    rw [Toml.textTable, List.pairwise_map]
    exact r.bounds.sorted.imp fun h => String.ne_of_lt h
  rw [Toml.Table.read?, toToml_eq, Toml.read?_writeLists]
  exact Toml.table?_plainEntries hlists hbounds rfl

theorem texts?_strings (ts : List String) : Toml.Value.texts? (.array (ts.map .string)) = some ts :=
  mapM_map_of_inverse (f := Toml.Value.string) (g := Toml.Value.text?) (fun _ => rfl) ts

theorem boundsOfToml?_textTable (m : StringMap String) :
    boundsOfToml? (.table .heading (Toml.textTable m.entries)) = some m := by
  have hm : (Toml.textTable m.entries).mapM (fun e => e.2.text?.map (e.1, ·)) = some m.entries :=
    mapM_map_of_inverse (f := fun e => (e.1, Toml.Value.string e.2)) (fun _ => rfl) m.entries
  change ((Toml.textTable m.entries).mapM (fun e => e.2.text?.map (e.1, ·)) >>= fun es =>
    some (StringMap.ofList es)) = _
  rw [hm]
  exact congrArg some m.ofList_entries

theorem read?_render_toml (r : Rules) : read? (r.render .toml) .toml = some r := by
  have hread : Toml.Table.read? (r.render .toml) = some r.toTable := read?_toToml r
  have hsound : Toml.Value.areSoundEntries r.toTable = true := by
    simp [toTable, listTable, Toml.Value.areSoundEntries, Toml.Value.isSoundEntry, Toml.Value.isSound,
      Toml.Value.areSound_strings, Toml.Value.areSoundEntries_textTable]
  have hbounds : part r.toTable "bounds" ∅ boundsOfToml? = some r.bounds := boundsOfToml?_textTable r.bounds
  have hextra : part r.toTable "extra" ["\n"] Toml.Value.texts? = some r.extra := texts?_strings r.extra
  have hstrip : part r.toTable "strip" [] Toml.Value.texts? = some r.strip := texts?_strings r.strip
  rw [read?, hread]
  change ofToml? r.toTable = _
  rw [ofToml?, if_pos hsound]
  simp only [hbounds, hextra, hstrip]
  rfl

/-- What is written of a rule set is read as that rule set. -/
theorem read?_render (r : Rules) (f : Format) : read? (r.render f) f = some r := by
  cases f with
  | json => exact read?_render_json r
  | toml => exact read?_render_toml r

end BracketTree.Rules
