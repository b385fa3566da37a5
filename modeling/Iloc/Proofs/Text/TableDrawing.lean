import Iloc.Proofs.Text.UniqueReading
import Iloc.Text.Table
import Mathlib.Data.List.DropRight
import Mathlib.Data.List.Forall2

namespace Iloc.Text

/-!
# Drawn tables

What a reader sees of a table is a sequence of lines: borders, and rows between
them.  The cells of a row are what stands between its bars, without the blanks
that fill a cell up to the width of its column.

All lines of a table are ruled alike.  A line is framed from one segment for each
column, and the segments of a column have the same length in all lines because
the width of the column is the largest that any of its cells needs.
-/

/-- The lines of a drawing, sorted into borders and rows. -/
structure Drawing where
  top : List Char
  heading : List Char
  middle : List Char
  rows : List (List Char)
  bottom? : Option (List Char)

namespace Drawing

/-- All lines, from top to bottom. -/
def lines (drawing : Drawing) : List (List Char) :=
  drawing.top :: drawing.heading :: drawing.middle ::
    (drawing.rows ++ drawing.bottom?.toList)

/-- The horizontal lines. -/
def borders (drawing : Drawing) : List (List Char) :=
  drawing.top :: drawing.middle :: drawing.bottom?.toList

/-- The lines that hold cells. -/
def cellLines (drawing : Drawing) : List (List Char) :=
  drawing.heading :: drawing.rows

end Drawing

/-- The character that separates and encloses the cells of a row. -/
def isBar (character : Char) : Bool :=
  character == '│'

/-- The characters of a border that a bar can meet. -/
def isJunction (character : Char) : Bool :=
  ['┌', '┬', '┐', '├', '┼', '┤', '└', '┴', '┘'].contains character

/-- A text without the blanks around it. -/
def strip (characters : List Char) : List Char :=
  (characters.dropWhile (· == ' ')).rdropWhile (· == ' ')

/-- The cells between the bars of a row. -/
def cellsOf (row : List Char) : List String :=
  (row.splitOn '│').tail.dropLast.map fun segment =>
    String.ofList (strip segment)

namespace Table

/-! ## Column widths -/

/-- Columns that are wide enough for the cells of a row. -/
def Fits
    (widths : List Nat)
    (row : List String) :
    Prop :=
  List.Forall₂ (fun cell width => cell.length ≤ width) row widths

/-- Columns made wide enough for one more row. -/
def widen
    (widths : List Nat)
    (row : List String) :
    List Nat :=
  widths.zipWith max (row.map String.length)

theorem columnWidths_eq
    (table : Table) :
    table.columnWidths =
      table.rows.foldl widen (table.header.map String.length) :=
  rfl

theorem fits_map_length
    (row : List String) :
    Fits (row.map String.length) row := by
  rw [Fits, List.forall₂_map_right_iff, List.forall₂_same]
  exact fun cell _ => Nat.le_refl cell.length

theorem length_widen
    {widths : List Nat}
    {row : List String}
    (sameLength : row.length = widths.length) :
    (widen widths row).length = widths.length := by
  simp [widen, sameLength]

/-- A row fits into columns that were widened for it. -/
theorem fits_widen
    {widths : List Nat}
    {row : List String}
    (sameLength : row.length = widths.length) :
    Fits (widen widths row) row := by
  induction row generalizing widths with
  | nil =>
      rw [List.length_nil, eq_comm, List.length_eq_zero_iff] at sameLength
      subst sameLength
      exact .nil
  | cons cell row inductionHypothesis =>
      cases widths with
      | nil => cases sameLength
      | cons width widths =>
          exact
            .cons (Nat.le_max_right width cell.length)
              (inductionHypothesis (Nat.succ.inj sameLength))

/-- What fits into columns still fits after they were widened. -/
theorem Fits.widen
    {widths : List Nat}
    {row other : List String}
    (fits : Fits widths row)
    (sameLength : other.length = widths.length) :
    Fits (widen widths other) row := by
  induction fits generalizing other with
  | nil => exact .nil
  | cons narrow _ inductionHypothesis =>
      cases other with
      | nil => cases sameLength
      | cons otherCell other =>
          exact
            .cons (Nat.le_trans narrow (Nat.le_max_left _ _))
              (inductionHypothesis (Nat.succ.inj sameLength))

/-- Widening for some rows makes room for them and for all that did fit. -/
theorem fits_foldl_widen
    {rows : List (List String)}
    {widths : List Nat}
    (sameLengths : ∀ row ∈ rows, row.length = widths.length) :
    (∀ row ∈ rows, Fits (rows.foldl widen widths) row) ∧
      ∀ row, Fits widths row → Fits (rows.foldl widen widths) row := by
  induction rows generalizing widths with
  | nil =>
      exact ⟨List.forall_mem_nil _, fun _ fits => fits⟩
  | cons first rows inductionHypothesis =>
      obtain ⟨firstLength, restLengths⟩ :=
        List.forall_mem_cons.mp sameLengths
      rw [← length_widen firstLength] at restLengths
      obtain ⟨restFit, stillFit⟩ := inductionHypothesis restLengths
      refine ⟨List.forall_mem_cons.mpr ⟨?_, restFit⟩, ?_⟩
      · exact stillFit first (fits_widen firstLength)
      · intro row fits
        exact stillFit row (fits.widen firstLength)

/-- A table with some columns, one cell in each row for each of them. -/
structure Regular (table : Table) : Prop where
  nonempty : table.header ≠ []
  rectangular : ∀ row ∈ table.rows, row.length = table.header.length
  plain :
    ∀ row ∈ table.header :: table.rows,
      ∀ cell ∈ row, IsPlainField cell

/-- The columns of a table are wide enough for all of its cells. -/
theorem Regular.fits
    {table : Table}
    (regular : table.Regular) :
    ∀ row ∈ table.header :: table.rows,
      Fits table.columnWidths row := by
  have sameLengths :
      ∀ row ∈ table.rows,
        row.length = (table.header.map String.length).length := by
    simpa using regular.rectangular
  obtain ⟨rowsFit, stillFit⟩ := fits_foldl_widen sameLengths
  rw [columnWidths_eq, List.forall_mem_cons]
  exact ⟨stillFit _ (fits_map_length table.header), rowsFit⟩

/-! ## Ruling -/

/-- Where the lines of a table have bars and junctions. -/
def ruling (widths : List Nat) : List Bool :=
  true ::
    ([true].intercalate
      (widths.map fun width => List.replicate (width + 2) false) ++
        [true])

theorem map_intercalate
    {Item Mark : Type}
    (mark : Item → Mark)
    (separator : List Item)
    (parts : List (List Item)) :
    (separator.intercalate parts).map mark =
      (separator.map mark).intercalate (parts.map (·.map mark)) := by
  induction parts with
  | nil =>
      rfl
  | cons first rest inductionHypothesis =>
      cases rest with
      | nil =>
          simp
      | cons second others =>
          simp only [List.map_cons] at inductionHypothesis
          simp only [List.intercalate_cons_cons, List.map_append,
            List.map_cons, inductionHypothesis]

/-- A frame is marked at its separators and in its segments. -/
theorem map_frame
    {Mark : Type}
    (mark : Char → Mark)
    (left middle right : Char)
    (segments : List (List Char)) :
    (frame left middle right segments).map mark =
      mark left ::
        ([mark middle].intercalate (segments.map (·.map mark)) ++
          [mark right]) := by
  simp only [frame, List.map_cons, List.map_append, map_intercalate,
    List.map_nil]

/-- A line is ruled if only its separators are marked. -/
theorem map_frame_eq_ruling
    {mark : Char → Bool}
    {left middle right : Char}
    {segments : List (List Char)}
    {widths : List Nat}
    (marked :
      mark left = true ∧ mark middle = true ∧ mark right = true)
    (unmarked :
      segments.map (·.map mark) =
        widths.map fun width => List.replicate (width + 2) false) :
    (frame left middle right segments).map mark = ruling widths := by
  obtain ⟨leftMarked, middleMarked, rightMarked⟩ := marked
  rw [map_frame, unmarked, leftMarked, middleMarked, rightMarked, ruling]

theorem map_isJunction_border
    {left middle right : Char}
    (junctions :
      isJunction left = true ∧ isJunction middle = true ∧
        isJunction right = true)
    (widths : List Nat) :
    (border left middle right widths).map isJunction = ruling widths := by
  refine map_frame_eq_ruling junctions ?_
  rw [List.map_map]
  refine List.map_congr_left fun width _ => ?_
  rw [Function.comp_apply, List.map_replicate]
  rfl

/-- A padded cell has one blank before it and at least one behind it. -/
theorem paddedCell_eq
    (cell : String)
    (width : Nat) :
    paddedCell cell width =
      [' '] ++ (cell.toList ++
        List.replicate (width - cell.length + 1) ' ') := by
  simp [paddedCell, List.rightpad, List.replicate_succ',
    String.length_toList]

/-- A cell that fits is filled up to the width of its column. -/
theorem length_paddedCell
    {cell : String}
    {width : Nat}
    (narrow : cell.length ≤ width) :
    (paddedCell cell width).length = width + 2 := by
  rw [← String.length_toList] at narrow
  simp only [paddedCell_eq, List.length_append, List.length_replicate,
    List.length_singleton, ← String.length_toList]
  omega

/-- The characters of a padded cell are its own and blanks. -/
theorem notMem_paddedCell
    {cell : String}
    {width : Nat}
    {character : Char}
    (notInCell : character ∉ cell.toList)
    (notBlank : character ≠ ' ') :
    character ∉ paddedCell cell width := by
  simp [paddedCell_eq, notInCell, notBlank]

/-- No bar stands within a cell. -/
theorem map_isBar_paddedCell
    {cell : String}
    {width : Nat}
    (plain : IsPlainField cell)
    (narrow : cell.length ≤ width) :
    (paddedCell cell width).map isBar =
      List.replicate (width + 2) false := by
  have noBar : '│' ∉ paddedCell cell width :=
    notMem_paddedCell (plain.notMem (by decide)) (by decide)
  rw [List.eq_replicate_iff, List.length_map, length_paddedCell narrow,
    List.forall_mem_map]
  refine ⟨rfl, fun character member => ?_⟩
  rw [isBar, beq_eq_false_iff_ne]
  rintro rfl
  exact noBar member

theorem map_isBar_rowLine
    {widths : List Nat}
    {row : List String}
    (fits : Fits widths row)
    (plain : ∀ cell ∈ row, IsPlainField cell) :
    (rowLine widths row).map isBar = ruling widths := by
  refine map_frame_eq_ruling (by decide) ?_
  induction fits with
  | nil => rfl
  | cons narrow _ inductionHypothesis =>
      obtain ⟨cellPlain, rowPlain⟩ := List.forall_mem_cons.mp plain
      rw [List.zipWith_cons_cons, List.map_cons, List.map_cons,
        inductionHypothesis rowPlain,
        map_isBar_paddedCell cellPlain narrow]

/-! ## Cells -/

/-- Stripping undoes padding. -/
theorem strip_paddedCell
    {cell : String}
    (plain : IsPlainField cell)
    (width : Nat) :
    strip (paddedCell cell width) = cell.toList := by
  have nonempty : cell.toList ≠ [] :=
    mt String.toList_eq_nil_iff.mp plain.nonempty
  have noBlank : ∀ character ∈ cell.toList, (character == ' ') = false := by
    intro character member
    rw [beq_eq_false_iff_ne]
    rintro rfl
    exact plain.notMem (by decide) member
  have before :=
    endsRun_of_refused nonempty noBlank
      (List.replicate (width - cell.length + 1) ' ')
  have behind :=
    endsRun_of_refused (List.reverse_ne_nil_iff.mpr nonempty)
      (fun character member =>
        noBlank character (List.mem_reverse.mp member))
      []
  rw [List.append_nil] at behind
  rw [paddedCell_eq, strip, dropWhile_run (by simp) before,
    List.rdropWhile, List.reverse_append, List.reverse_replicate,
    dropWhile_run (by simp) behind, List.reverse_reverse]

/-- A framed line is cut at its separators into its segments. -/
theorem splitOn_frame
    {separator : Char}
    {segments : List (List Char)}
    (nonempty : segments ≠ [])
    (unbroken : ∀ segment ∈ segments, separator ∉ segment) :
    (frame separator separator separator segments).splitOn separator =
      [] :: (segments ++ [[]]) := by
  have inside :=
    List.splitOn_intercalate separator unbroken nonempty
  have behind :=
    List.splitOn_append_cons_self ([separator].intercalate segments)
      ([] : List Char) (a := separator)
  have before :=
    List.splitOn_append_cons_self_of_not_mem
      (List.not_mem_nil : separator ∉ [])
      ([separator].intercalate segments ++ [separator])
  rw [inside, List.splitOn_nil] at behind
  rw [behind] at before
  exact before

/-- No character of a padded cell is refused by all fields. -/
theorem notMem_of_mem_zipWith
    {character : Char}
    (refused : isPlain character = false)
    (notBlank : character ≠ ' ')
    (widths : List Nat)
    {row : List String}
    (plain : ∀ cell ∈ row, IsPlainField cell) :
    ∀ segment ∈ row.zipWith paddedCell widths, character ∉ segment := by
  rw [← List.map_uncurry_zip_eq_zipWith, List.forall_mem_map]
  rintro ⟨cell, width⟩ member
  have cellPlain := plain cell (List.of_mem_zip member).1
  exact notMem_paddedCell (cellPlain.notMem refused) notBlank

/-- The cells of a row are read back from its line. -/
theorem cellsOf_rowLine
    {widths : List Nat}
    {row : List String}
    (nonempty : row ≠ [])
    (fits : Fits widths row)
    (plain : ∀ cell ∈ row, IsPlainField cell) :
    cellsOf (rowLine widths row) = row := by
  have stripped :
      (row.zipWith paddedCell widths).map
          (fun segment => String.ofList (strip segment)) =
        row := by
    clear nonempty
    induction fits with
    | nil => rfl
    | cons _ _ inductionHypothesis =>
        obtain ⟨cellPlain, rowPlain⟩ := List.forall_mem_cons.mp plain
        rw [List.zipWith_cons_cons, List.map_cons,
          inductionHypothesis rowPlain, strip_paddedCell cellPlain,
          String.ofList_toList]
  have someSegment : row.zipWith paddedCell widths ≠ [] := by
    intro none
    rw [none, List.map_nil] at stripped
    exact nonempty stripped.symm
  rw [cellsOf, rowLine,
    splitOn_frame someSegment
      (notMem_of_mem_zipWith (by decide) (by decide) widths plain),
    List.tail_cons, List.dropLast_concat, stripped]

/-! ## Lines -/

theorem notMem_intercalate
    {character separator : Char}
    {parts : List (List Char)}
    (separated : character ≠ separator)
    (notInside : ∀ part ∈ parts, character ∉ part) :
    character ∉ [separator].intercalate parts := by
  induction parts with
  | nil =>
      exact List.not_mem_nil
  | cons first rest inductionHypothesis =>
      obtain ⟨notFirst, notRest⟩ := List.forall_mem_cons.mp notInside
      cases rest with
      | nil =>
          rwa [List.intercalate_singleton]
      | cons second others =>
          have notLater := inductionHypothesis notRest
          simp [List.intercalate_cons_cons, notFirst, separated, notLater]

theorem notMem_frame
    {character left middle right : Char}
    {segments : List (List Char)}
    (notLeft : character ≠ left)
    (notMiddle : character ≠ middle)
    (notRight : character ≠ right)
    (notInside : ∀ segment ∈ segments, character ∉ segment) :
    character ∉ frame left middle right segments := by
  have notSegments := notMem_intercalate notMiddle notInside
  simp [frame, notLeft, notRight, notSegments]

/-- The segments of a border are drawn with one character. -/
theorem lineFeed_notMem_border
    {left middle right : Char}
    (notLeft : '\n' ≠ left)
    (notMiddle : '\n' ≠ middle)
    (notRight : '\n' ≠ right)
    (widths : List Nat) :
    '\n' ∉ border left middle right widths := by
  refine notMem_frame notLeft notMiddle notRight ?_
  rw [List.forall_mem_map]
  intro width _ member
  exact absurd (List.eq_of_mem_replicate member) (by decide)

theorem lineFeed_notMem_rowLine
    {row : List String}
    (plain : ∀ cell ∈ row, IsPlainField cell)
    (widths : List Nat) :
    '\n' ∉ rowLine widths row := by
  refine notMem_frame (by decide) (by decide) (by decide) ?_
  exact notMem_of_mem_zipWith (by decide) (by decide) widths plain

/-- The drawing of a table. -/
def drawing (table : Table) : Drawing where
  top := border '┌' '┬' '┐' table.columnWidths
  heading := rowLine table.columnWidths table.header
  middle := border '├' '┼' '┤' table.columnWidths
  rows := table.rows.map (rowLine table.columnWidths)
  bottom? :=
    if table.rows.isEmpty then
      none
    else
      some (border '└' '┴' '┘' table.columnWidths)

theorem lines_drawing
    (table : Table) :
    table.drawing.lines = table.lines := by
  rw [Drawing.lines, lines, drawing]
  dsimp only
  split <;> simp

/-- Without rows there is no border below them. -/
theorem length_lines_drawing
    (table : Table) :
    table.drawing.lines.length =
      if table.rows.length = 0 then 3 else table.rows.length + 4 := by
  cases rows : table.rows <;> simp [Drawing.lines, drawing, rows]

/-- If there is a border at the bottom, it is drawn like the others. -/
theorem eq_border_of_mem_bottom?
    {table : Table}
    {line : List Char}
    (member : line ∈ table.drawing.bottom?.toList) :
    line = border '└' '┴' '┘' table.columnWidths := by
  rw [Option.mem_toList, drawing] at member
  dsimp only at member
  split at member
  · cases member
  · exact (Option.some.inj member).symm

/-- Every border is ruled for the widths of the columns. -/
theorem map_isJunction
    (table : Table) :
    ∀ border ∈ table.drawing.borders,
      border.map isJunction = ruling table.columnWidths := by
  rw [Drawing.borders, List.forall_mem_cons, List.forall_mem_cons]
  refine ⟨map_isJunction_border (by decide) _,
    map_isJunction_border (by decide) _, ?_⟩
  intro border member
  rw [eq_border_of_mem_bottom? member]
  exact map_isJunction_border (by decide) _

namespace Regular

variable {table : Table}

/-- Every line of cells is ruled like the borders. -/
theorem map_isBar
    (regular : table.Regular) :
    ∀ line ∈ table.drawing.cellLines,
      line.map isBar = ruling table.columnWidths := by
  have ruled :
      ∀ row ∈ table.header :: table.rows,
        (rowLine table.columnWidths row).map isBar =
          ruling table.columnWidths :=
    fun row member =>
      map_isBar_rowLine (regular.fits row member)
        (regular.plain row member)
  obtain ⟨headerRuled, rowsRuled⟩ := List.forall_mem_cons.mp ruled
  rw [Drawing.cellLines, List.forall_mem_cons]
  exact ⟨headerRuled, List.forall_mem_map.mpr rowsRuled⟩

/-- The text of a table is cut into the lines of its drawing. -/
theorem splitOn_text
    (regular : table.Regular) :
    table.text.toList.splitOn '\n' = table.drawing.lines := by
  obtain ⟨headerPlain, rowsPlain⟩ :=
    List.forall_mem_cons.mp regular.plain
  have inline : ∀ line ∈ table.drawing.lines, '\n' ∉ line := by
    simp only [Drawing.lines, List.forall_mem_cons,
      List.forall_mem_append]
    refine ⟨?_, ?_, ?_, ?_, ?_⟩
    · exact
        lineFeed_notMem_border (by decide) (by decide) (by decide) _
    · exact lineFeed_notMem_rowLine headerPlain _
    · exact
        lineFeed_notMem_border (by decide) (by decide) (by decide) _
    · rw [drawing, List.forall_mem_map]
      exact fun row member =>
        lineFeed_notMem_rowLine (rowsPlain row member) _
    · intro line member
      rw [eq_border_of_mem_bottom? member]
      exact
        lineFeed_notMem_border (by decide) (by decide) (by decide) _
  rw [text, String.toList_ofList, ← lines_drawing]
  exact List.splitOn_intercalate '\n' inline (List.cons_ne_nil _ _)

/-- All lines of a table have the same number of characters. -/
theorem length_of_mem_lines
    (regular : table.Regular)
    {line : List Char}
    (member : line ∈ table.drawing.lines) :
    line.length = (ruling table.columnWidths).length := by
  have sorted :
      line ∈ table.drawing.borders ∨ line ∈ table.drawing.cellLines := by
    simp only [Drawing.lines, List.mem_cons, List.mem_append] at member
    simp only [Drawing.borders, Drawing.cellLines, List.mem_cons]
    tauto
  rcases sorted with isBorder | hasCells
  · rw [← map_isJunction table line isBorder, List.length_map]
  · rw [← regular.map_isBar line hasCells, List.length_map]

/-- No line feed ends the text of a table. -/
theorem getLast?_text_ne
    (regular : table.Regular) :
    table.text.toList.getLast? ≠ some '\n' := by
  intro ended
  obtain ⟨before, shape⟩ := List.getLast?_eq_some_iff.mp ended
  have split := regular.splitOn_text
  rw [shape, List.splitOn_append_cons_self, List.splitOn_nil] at split
  have empty : [] ∈ table.drawing.lines := by
    rw [← split]
    exact List.mem_append_right _ (List.mem_singleton_self [])
  cases regular.length_of_mem_lines empty

end Regular

end Table

end Iloc.Text
