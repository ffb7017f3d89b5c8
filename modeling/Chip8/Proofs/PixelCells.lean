import Chip8.Proofs.PixelPoints

/-!
# Pixels on a terminal

The painter never repaints what it knows to be on the screen, so what a cell shows after a
picture depends on what it showed before. What carries the argument is that the painter is right
about the screen: each cell that the terminal has shows what the painter has sent for it. Painting
a picture keeps that, and so does another size, as it empties the screen or leaves the cells.

  * `get_set`, `get_crop` — one cell of a grid when it or another one is changed, or a part of
    the grid is cut off.
  * `Terminal.Shows` — what a cell of the alternate screen shows. `shows_draw` is the step from one
    picture to the next; `shows_drawAll` and `shows_paintAll` are what it comes to for whole runs,
    on a terminal of one size and on one that changes its size.
  * `getD_dotsOf` — the dot of a pixel has the colour of its state, since the points of all other
    pixels are painted elsewhere.

`every_pixel_painted_once` puts this together with the points of a picture.
-/

namespace Chip8

namespace Terminal

/-! ## Cells of a grid -/

section
variable {α : Type} (filler : α)

theorem getD_setIfInBounds {xs : Array α} {i : Nat} (lt : i < xs.size) (a : α) (j : Nat) :
    (xs.setIfInBounds i a).getD j filler = if j = i then a else xs.getD j filler := by
  simp only [Array.getD_eq_getD_getElem?, Array.getElem?_setIfInBounds, lt, if_true]
  by_cases same : i = j
  · simp only [same, if_true, Option.getD_some]
  · simp only [same, Ne.symm same, if_false]

theorem getD_modify {xs : Array α} {i : Nat} (lt : i < xs.size) (f : α → α) (j : Nat) :
    (xs.modify i f).getD j filler =
      if j = i then f (xs.getD i filler) else xs.getD j filler := by
  simp only [Array.getD_eq_getD_getElem?, Array.getElem?_modify]
  by_cases same : i = j
  · subst same
    simp only [if_true, Array.getElem?_eq_getElem lt, Option.map_some, Option.getD_some]
  · simp only [same, Ne.symm same, if_false]

theorem getD_take {xs : Array α} {i count : Nat} (lt : i < count) :
    (xs.take count).getD i filler = xs.getD i filler := by
  simp only [Array.getD_eq_getD_getElem?, Array.take_eq_extract, Array.getElem?_extract]
  split
  · rw [Nat.zero_add]
  · next past => rw [Array.getElem?_eq_none (by omega)]

end

namespace Grid

theorem getD_padTo {α : Type} (filler : α) (size : Nat) (xs : Array α) (i : Nat) :
    (padTo filler size xs).getD i filler = xs.getD i filler := by
  simp only [padTo, Array.getD_eq_getD_getElem?, Array.getElem?_append, Array.getElem?_replicate]
  split
  · rfl
  · next past =>
    rw [Array.getElem?_eq_none (Nat.not_lt.mp past)]
    split
    · rfl
    · rfl

theorem lt_size_padTo {α : Type} (filler : α) (i : Nat) (xs : Array α) :
    i < (padTo filler (i + 1) xs).size := by
  rw [padTo, Array.size_append, Array.size_replicate]
  omega

theorem get_set (g : Grid) (x y : Nat) (cell : Cell) (x' y' : Nat) :
    (g.set x y cell).get x' y' = if x' = x ∧ y' = y then cell else g.get x' y' := by
  rw [get, set, getD_modify #[] (lt_size_padTo #[] y g.rows), getD_padTo, getD_padTo]
  by_cases row : y' = y
  · rw [if_pos row, getD_setIfInBounds Cell.blank (lt_size_padTo Cell.blank x _), getD_padTo, get,
      row]
    simp only [and_true]
  · simp only [row, and_false, if_false, get]

theorem get_crop (g : Grid) {columns rows x y : Nat} (inside : x < columns ∧ y < rows) :
    (g.crop columns rows).get x y = g.get x y := by
  obtain ⟨left, below⟩ := inside
  have row : ((g.rows.take rows).map fun row => row.take columns).getD y #[] =
      (g.rows.getD y #[]).take columns := by
    have whole : (g.rows.take rows).getD y #[] = g.rows.getD y #[] := getD_take #[] below
    rw [← whole, Array.getD_eq_getD_getElem?, Array.getD_eq_getD_getElem?, Array.getElem?_map]
    cases (g.rows.take rows)[y]? with
    | none => simp
    | some row => rfl
  rw [get, crop, row, getD_take Cell.blank left, get]

end Grid

/-! ## One cell of the alternate screen -/

/-- The alternate screen of a terminal of some size is shown, and this is in one of its cells. -/
structure Shows (t : Terminal) (size : Size) (x y : Nat) (cell : Cell) : Prop where
  onAlternate : t.onAlternate = true
  columns : t.columns = size.1
  rows : t.rows = size.2
  shows : t.alternate.get x y = cell

variable {t : Terminal} {size : Size} {x y : Nat} {cell : Cell}

theorem Shows.shown_eq (h : t.Shows size x y cell) : t.shown.get x y = cell := by
  rw [shown, if_pos h.onAlternate, h.shows]

theorem Shows.clear (h : t.Shows size x y cell) : (t.apply .clear).Shows size x y .blank := by
  rw [apply, if_pos h.onAlternate]
  unfold remember
  split
  · exact ⟨h.onAlternate, h.columns, h.rows, rfl⟩
  · exact ⟨h.onAlternate, h.columns, h.rows, rfl⟩

theorem Shows.put (h : t.Shows size x y cell) (visible : x < size.1 ∧ y < size.2) (x' y' : Nat)
    (cell' : Cell) :
    (t.apply (.put x' y' cell')).Shows size x y (if x = x' ∧ y = y' then cell' else cell) := by
  rw [apply]
  split
  · next hidden =>
    -- what lies outside the terminal is not the cell in question
    have other : ¬ (x = x' ∧ y = y') := by
      rintro ⟨rfl, rfl⟩
      rw [h.columns, h.rows] at hidden
      omega
    rw [if_neg other]
    exact h
  · rw [if_pos h.onAlternate]
    exact ⟨h.onAlternate, h.columns, h.rows, by rw [Grid.get_set, h.shows]⟩

theorem Shows.resize (h : t.Shows size x y cell) (size' : Size)
    (visible : x < size'.1 ∧ y < size'.2) :
    (t.resize size'.1 size'.2).Shows size' x y cell :=
  ⟨h.onAlternate, rfl, rfl, (Grid.get_crop _ visible).trans h.shows⟩

/-- What is sent for one place of the box. -/
def change (before after : Nat → Nat → Cell) (place : Nat × Nat) : Option Op :=
  if before place.1 place.2 = after place.1 place.2 then none
  else some (.put place.1 place.2 (after place.1 place.2))

theorem Shows.puts (before after : Nat → Nat → Cell) (places : List (Nat × Nat))
    (h : t.Shows size x y cell) (visible : x < size.1 ∧ y < size.2) :
    (t.applyAll (places.filterMap (change before after))).Shows size x y
      (if (x, y) ∈ places ∧ before x y ≠ after x y then after x y else cell) := by
  induction places generalizing t cell with
  | nil => exact h
  | cons place rest ih =>
    by_cases same : before place.1 place.2 = after place.1 place.2
    · have quiet : change before after place = none := if_pos same
      rw [List.filterMap_cons_none quiet]
      have sent : ((x, y) ∈ place :: rest ∧ before x y ≠ after x y) ↔
          ((x, y) ∈ rest ∧ before x y ≠ after x y) := by
        refine and_congr_left fun differs => ?_
        rw [List.mem_cons, or_iff_right]
        rintro rfl
        exact differs same
      simp only [sent]
      exact ih h
    · have sends : change before after place =
          some (.put place.1 place.2 (after place.1 place.2)) := if_neg same
      rw [List.filterMap_cons_some sends]
      have later := ih (h.put visible place.1 place.2 (after place.1 place.2))
      by_cases here : (x, y) = place
      · subst here
        simp only [and_self, if_true, ite_self] at later
        simp only [List.mem_cons_self, ne_eq, same, not_false_eq_true, and_self, if_true]
        exact later
      · have elsewhere : ¬ (x = place.1 ∧ y = place.2) := fun same => here (Prod.ext same.1 same.2)
        rw [if_neg elsewhere] at later
        simp only [List.mem_cons, here, false_or]
        exact later

/-- Only the cells are sent that differ between two screens; then all cells of the box are as
they are to be. -/
theorem Shows.changes {before : Nat → Nat → Cell} (after : Nat → Nat → Cell)
    (h : t.Shows size x y (before x y)) (visible : x < size.1 ∧ y < size.2)
    (inBox : (x, y) ∈ boxPlaces) :
    (t.applyAll (changes before after)).Shows size x y (after x y) := by
  have sent := h.puts before after boxPlaces visible
  by_cases same : before x y = after x y
  · rw [if_neg (fun differs => differs.2 same), same] at sent
    exact sent
  · rw [if_pos ⟨inBox, same⟩] at sent
    exact sent

/-! ## Painting pictures -/

namespace Painter

variable {p : Painter}

theorem shows_fit (h : t.Shows size x y (p.sentCell x y)) (size' : Size) :
    (t.applyAll (p.fit size').2).Shows size x y ((p.fit size').1.sentCell x y) := by
  unfold fit
  split
  · exact h
  · exact h.clear

theorem shows_draw (h : t.Shows size x y (p.sentCell x y)) (size' : Size) (picture : Picture)
    (visible : x < size.1 ∧ y < size.2) (inBox : (x, y) ∈ boxPlaces) :
    (t.applyAll (p.draw size' picture).2).Shows size x y
      ((p.draw size' picture).1.sentCell x y) := by
  have painted := (shows_fit h size').changes (boxCell (dotsOf picture)) visible inBox
  show (t.applyAll ((p.fit size').2 ++ changes (p.fit size').1.sentCell _ ++ [.hideCursor])).Shows
    size x y (boxCell (dotsOf picture) x y)
  rw [applyAll_append, applyAll_append]
  -- hiding the cursor touches no cell
  exact ⟨painted.onAlternate, painted.columns, painted.rows, painted.shows⟩

theorem shows_takeOver (t : Terminal) (x y : Nat) :
    (t.applyAll (takeOver (t.columns, t.rows)).2).Shows (t.columns, t.rows) x y
      ((takeOver (t.columns, t.rows)).1.sentCell x y) := by
  have entered :
      ((t.apply .enterAlternate).apply .hideCursor).Shows (t.columns, t.rows) x y .blank :=
    ⟨rfl, rfl, rfl, rfl⟩
  exact entered.clear

/-- Pictures that are painted on a terminal of one size. -/
theorem shows_drawAll (h : t.Shows size x y (p.sentCell x y)) (size' : Size)
    (pictures : List Picture) (visible : x < size.1 ∧ y < size.2) (inBox : (x, y) ∈ boxPlaces) :
    (t.applyAll (p.drawAll size' pictures).2).Shows size x y
      ((p.drawAll size' pictures).1.sentCell x y) := by
  induction pictures generalizing p t with
  | nil => exact h
  | cons picture rest ih =>
    rw [drawAll, applyAll_append]
    exact ih (shows_draw h size' picture visible inBox)

theorem sentCell_drawAll (p : Painter) (size : Size) (earlier : List Picture) (last : Picture) :
    (p.drawAll size (earlier ++ [last])).1.sentCell = boxCell (dotsOf last) := by
  induction earlier generalizing p with
  | nil => rfl
  | cons picture rest ih => exact ih _

/-- Paint a picture on a terminal that has been given a size. -/
def paint (on : Painter × Terminal) (frame : Size × Picture) : Painter × Terminal :=
  let (p, ops) := on.1.draw frame.1 frame.2
  (p, (on.2.resize frame.1.1 frame.1.2).applyAll ops)

/-- Take a terminal over and paint pictures in order, on terminals of the sizes beside them. -/
def paintAll (t : Terminal) (frames : List (Size × Picture)) : Painter × Terminal :=
  let (p, ops) := takeOver (t.columns, t.rows)
  frames.foldl paint (p, t.applyAll ops)

/-- Painting goes on being right about a cell, on every terminal that has the cell. -/
theorem shows_paint {on : Painter × Terminal} (h : on.2.Shows size x y (on.1.sentCell x y))
    {frame : Size × Picture} (visible : x < frame.1.1 ∧ y < frame.1.2)
    (inBox : (x, y) ∈ boxPlaces) :
    (paint on frame).2.Shows frame.1 x y ((paint on frame).1.sentCell x y) :=
  shows_draw (h.resize frame.1 visible) frame.1 frame.2 visible inBox

theorem shows_foldl_paint (on : Painter × Terminal) (h : on.2.Shows size x y (on.1.sentCell x y))
    {frames : List (Size × Picture)} (visible : ∀ frame ∈ frames, x < frame.1.1 ∧ y < frame.1.2)
    (inBox : (x, y) ∈ boxPlaces) :
    ∃ size',
      (frames.foldl paint on).2.Shows size' x y ((frames.foldl paint on).1.sentCell x y) := by
  induction frames generalizing on size with
  | nil => exact ⟨size, h⟩
  | cons frame rest ih =>
    obtain ⟨now, later⟩ := List.forall_mem_cons.mp visible
    exact ih _ (shows_paint h now inBox) later

/-- The last of the pictures is in the cells that every terminal of the run had. -/
theorem shows_paintAll (t : Terminal) (frames : List (Size × Picture)) (last : Size × Picture)
    (visible : ∀ frame ∈ frames ++ [last], x < frame.1.1 ∧ y < frame.1.2)
    (inBox : (x, y) ∈ boxPlaces) :
    (paintAll t (frames ++ [last])).2.Shows last.1 x y (boxCell (dotsOf last.2) x y) := by
  obtain ⟨before, atLast⟩ := List.forall_mem_append.mp visible
  let taken := takeOver (t.columns, t.rows)
  obtain ⟨size, earlier⟩ := shows_foldl_paint (taken.1, t.applyAll taken.2)
    (shows_takeOver t x y) before inBox
  simp only [paintAll, List.foldl_append]
  exact shows_paint earlier (atLast last List.mem_cons_self) inBox

end Painter

/-! ## The dots of a picture -/

/-- Where the dot of a pixel is among all dots. -/
def spotIndex (s : Nat × Nat) : Nat := dotIndex s.1 s.2

variable {s : Nat × Nat} {dots : Dots}

theorem spotIndex_lt (inside : OnScreen s) : spotIndex s < Picture.width * Picture.height := by
  simp only [OnScreen, spotIndex, dotIndex, Picture.width, Picture.height] at inside ⊢
  omega

theorem spotIndex_inj {s' : Nat × Nat} (inside : OnScreen s) (inside' : OnScreen s') :
    spotIndex s = spotIndex s' ↔ s = s' := by
  refine ⟨fun same => ?_, congrArg spotIndex⟩
  simp only [OnScreen, spotIndex, dotIndex, Picture.width, Picture.height] at inside inside' same
  exact Prod.ext (by omega) (by omega)

theorem paintPoints_cons (colour : UInt8) (inside : OnScreen s) (points : List Point)
    (dots : Dots) :
    paintPoints colour (Point.ofSpot s :: points) dots =
      paintPoints colour points (dots.setIfInBounds (spotIndex s) (some colour)) := by
  rw [paintPoints, List.foldl_cons, dot?_ofSpot inside]
  rfl

/-- A dot gets the colour if its own spot is among those that are painted. -/
theorem getD_paintPoints (colour : UInt8) {painted : List (Nat × Nat)}
    (inside : ∀ s ∈ painted, OnScreen s) (size : dots.size = Picture.width * Picture.height)
    (here : OnScreen s) :
    (paintPoints colour (painted.map Point.ofSpot) dots).size = dots.size ∧
      (paintPoints colour (painted.map Point.ofSpot) dots).getD (spotIndex s) none =
        if s ∈ painted then some colour else dots.getD (spotIndex s) none := by
  induction painted generalizing dots with
  | nil => exact ⟨rfl, rfl⟩
  | cons first rest ih =>
    obtain ⟨firstInside, restInside⟩ := List.forall_mem_cons.mp inside
    have kept : (dots.setIfInBounds (spotIndex first) (some colour)).size = dots.size :=
      Array.size_setIfInBounds
    obtain ⟨same, later⟩ := ih restInside (kept.trans size)
    rw [List.map_cons, paintPoints_cons colour firstInside]
    refine ⟨same.trans kept, later.trans ?_⟩
    have placed : spotIndex first < dots.size := size ▸ spotIndex_lt firstInside
    simp only [getD_setIfInBounds none placed, spotIndex_inj here firstInside, List.mem_cons]
    by_cases now : s = first
    · simp only [now, if_true, ite_self, true_or]
    · simp only [now, if_false, false_or]

/-- The two lists of points are painted over each other, but no dot is in both. -/
theorem getD_dotsOf (picture : Picture) (inside : OnScreen s) :
    (dotsOf picture).getD (spotIndex s) none =
      some (if picture.pixel s.1 s.2 then white else black) := by
  have onScreen : ∀ lit, ∀ s ∈ (spots Picture.width Picture.height).filter
      (fun s => picture.pixel s.1 s.2 == lit), OnScreen s :=
    fun lit s kept => mem_spots.mp (List.mem_of_mem_filter kept)
  have kept : ∀ lit, s ∈ (spots Picture.width Picture.height).filter
      (fun s => picture.pixel s.1 s.2 == lit) ↔ picture.pixel s.1 s.2 = lit := by
    intro lit
    rw [List.mem_filter, beq_iff_eq]
    exact and_iff_right (mem_spots.mpr inside)
  have empty : (Array.replicate (Picture.width * Picture.height) (none : Colour)).size =
      Picture.width * Picture.height := Array.size_replicate
  -- black is painted first, so that what white leaves out is seen under it
  obtain ⟨size, off⟩ := getD_paintPoints black (onScreen false) empty inside
  obtain ⟨-, lit⟩ := getD_paintPoints white (onScreen true) (size.trans empty) inside
  rw [dotsOf, picture.points_eq, picture.points_eq, lit, off]
  simp only [kept]
  cases picture.pixel s.1 s.2 with
  | true => rfl
  | false => rfl

/-- The cell of a pixel in one state or the other. -/
def pixelCell (on : Bool) : Cell :=
  { character := dotCharacter, foreground := some (if on then white else black) }

/-- Inside the border of the box is the picture. -/
theorem boxCell_inside (picture : Picture) (inside : OnScreen s) :
    boxCell (dotsOf picture) (s.1 + 1) (s.2 + 1) = pixelCell (picture.pixel s.1 s.2) := by
  have notOnBorder : onBorder (s.1 + 1) (s.2 + 1) = false := by
    simp only [OnScreen, Picture.width, Picture.height] at inside
    simp only [onBorder, boxColumns, boxRows, Picture.width, Picture.height, Bool.or_eq_false_iff,
      beq_eq_false_iff_ne]
    omega
  have dot := getD_dotsOf picture inside
  rw [spotIndex] at dot
  rw [boxCell, if_neg (Bool.eq_false_iff.mp notOnBorder), Nat.add_sub_cancel, Nat.add_sub_cancel,
    dot, pixelCell]

theorem inside_mem_boxPlaces (inside : OnScreen s) : (s.1 + 1, s.2 + 1) ∈ boxPlaces := by
  show _ ∈ spots boxColumns boxRows
  simp only [OnScreen] at inside
  rw [mem_spots, boxColumns, boxRows]
  omega

end Terminal

namespace Picture

open Terminal Terminal.Painter

/-- Every pixel of a picture is one point, in the list of its own state; each list has its points
row by row, within the bounds of the canvas. So whatever was painted before on a terminal that is
large enough, each pixel of the last picture is in the cell of its own, in the colour of its
state, even if the terminal changed its size in between. Large enough for all of them is a terminal
that has the columns and rows of the box; the program is not made for a smaller one, of which the
last part says no more than what the painter would send to it. -/
theorem every_pixel_painted_once (picture : Picture) :
    (∀ x y : Nat, x < width → y < height →
      (picture.points true ++ picture.points false).count ⟨x, -y⟩ = 1 ∧
      (∀ lit, (⟨x, -y⟩ : Point) ∈ picture.points lit ↔ picture.pixel x y = lit) ∧
      (∀ (t : Terminal) (earlier : List Picture), x + 1 < t.columns ∧ y + 1 < t.rows →
        let (p, taking) := takeOver (t.columns, t.rows)
        let drawing := (p.drawAll (t.columns, t.rows) (earlier ++ [picture])).2
        (t.applyAll (taking ++ drawing)).shown.get (x + 1) (y + 1) =
          pixelCell (picture.pixel x y)) ∧
      ∀ (t : Terminal) (earlier : List (Size × Picture)) (size : Size),
        (∀ frame ∈ earlier ++ [(size, picture)], x + 1 < frame.1.1 ∧ y + 1 < frame.1.2) →
        (paintAll t (earlier ++ [(size, picture)])).2.shown.get (x + 1) (y + 1) =
          pixelCell (picture.pixel x y)) ∧
    (∀ lit, (picture.points lit).Pairwise Point.Before ∧ (picture.points lit).Nodup ∧
      ∀ point ∈ picture.points lit, Resolution.screen.Within point) ∧
    (picture.points true).length + (picture.points false).length = 2048 := by
  refine ⟨fun x y left below => ?_, fun lit => ?_, picture.length_points⟩
  · have inside : OnScreen (x, y) := ⟨left, below⟩
    have inBox := inside_mem_boxPlaces inside
    refine ⟨picture.count_points inside, fun lit => ?_, fun t earlier visible => ?_,
      fun t earlier size visible => ?_⟩
    · exact (picture.mem_points lit (s := (x, y))).trans (and_iff_right inside)
    · have painted := shows_drawAll (shows_takeOver t (x + 1) (y + 1)) (t.columns, t.rows)
        (earlier ++ [picture]) visible inBox
      rw [sentCell_drawAll, ← applyAll_append] at painted
      exact painted.shown_eq.trans (boxCell_inside picture inside)
    · have painted := shows_paintAll t earlier (size, picture) visible inBox
      exact painted.shown_eq.trans (boxCell_inside picture inside)
  · refine ⟨picture.pairwise_points lit, picture.nodup_points lit, fun point mem => ?_⟩
    obtain ⟨s, inside, rfl⟩ := picture.exists_spot_of_mem_points lit mem
    exact within_ofSpot inside

/-- Two pixels go on one after the other while the terminal is made smaller, until it has just the
columns and rows of the box. -/
theorem every_pixel_painted_once_on_shrinking_terminal :
    let frames : List (Size × Picture) :=
      [((100, 50), .blank), ((80, 40), Picture.blank.toggle 5 3)]
    let last : Size × Picture := ((boxColumns, boxRows), (Picture.blank.toggle 5 3).toggle 6 3)
    5 < width ∧ 3 < height ∧
    (∀ frame ∈ frames ++ [last], 5 + 1 < frame.1.1 ∧ 3 + 1 < frame.1.2) ∧
    (paintAll {} (frames ++ [last])).2.shown.get (5 + 1) (3 + 1) = pixelCell true := by
  intro frames last
  have visible : ∀ frame ∈ frames ++ [last], 5 + 1 < frame.1.1 ∧ 3 + 1 < frame.1.2 := by decide
  have lit : last.2.pixel 5 3 = true := by
    rw [pixel_toggle, pixel_toggle]
    decide
  refine ⟨by decide, by decide, visible, ?_⟩
  obtain ⟨-, -, -, shown⟩ := (every_pixel_painted_once last.2).1 5 3 (by decide) (by decide)
  rw [shown {} frames last.1 visible, lit]

end Picture

end Chip8
