import BracketTree.Proofs.Simulation

/-! Two groupings side by side. When a map of cursors leads from each step of one grouping to a step of the other,
the two refuse the same pieces, and the map leads from the whole of one run to the whole of the other. -/

namespace BracketTree.Grouping

/-- What the other grouping makes of the pieces, the errors, the trees and the cursors of the first. -/
structure Cursor.Follows (g g' : Grouping) (move : Piece → Piece) (blame : Error → Error) (view : Tree → Tree)
    (other : Cursor → Cursor) : Prop where
  step : ∀ c p, (other c).step g' (move p) = other (c.step g p)
  strays : ∀ c p, (other c).strays g' (move p) = c.strays g p
  blame_stray : ∀ p : Piece,
    blame (.unexpectedClose p.text p.offset) = .unexpectedClose (move p).text (move p).offset
  tree : ∀ c, (other c).tree = view c.tree
  close : ∀ c, (other c).close = (c.close.mapError blame).map view

namespace Cursor.Follows
variable {g g' : Grouping} {move : Piece → Piece} {blame : Error → Error} {view : Tree → Tree}
  {other : Cursor → Cursor}

theorem foldl (h : Follows g g' move blame view other) (c : Cursor) (ps : List Piece) :
    (ps.map move).foldl (Cursor.step g') (other c) = other (ps.foldl (Cursor.step g) c) := by
  induction ps generalizing c with
  | nil => rfl
  | cons p ps ih =>
    rw [List.map_cons, List.foldl_cons, List.foldl_cons, h.step]
    exact ih (c.step g p)

theorem tree_foldl (h : Follows g g' move blame view other) (c : Cursor) (ps : List Piece) :
    ((ps.map move).foldl (Cursor.step g') (other c)).tree = view (ps.foldl (Cursor.step g) c).tree := by
  rw [h.foldl, h.tree]

theorem foldlM (h : Follows g g' move blame view other) (c : Cursor) (ps : List Piece) :
    ((ps.map move).foldlM (strictStep g') (other c) >>= Cursor.close) =
      ((ps.foldlM (strictStep g) c >>= Cursor.close).mapError blame).map view := by
  induction ps generalizing c with
  | nil => exact h.close c
  | cons p ps ih =>
    rw [List.map_cons, List.foldlM_cons, List.foldlM_cons, strictStep, strictStep, h.strays, h.step]
    cases c.strays g p with
    | true =>
      change Except.error _ = Except.error _
      rw [h.blame_stray]
    | false => exact ih (c.step g p)

end Cursor.Follows
end BracketTree.Grouping
