import Iloc.Proofs.Listing.PlainDump
import Iloc.Proofs.Text.TableDrawing

namespace Iloc

/-!
# Table dumps

A program is dumped in two layouts, a plain one and a table.

```text
┌───────┬────────┬────────────┬──────────┬─────────────┐
│ index │ opcode │ operand1   │ operand2 │ destination │
├───────┼────────┼────────────┼──────────┼─────────────┤
│ 0     │ loadI  │ 4294967295 │ -        │ 7           │
└───────┴────────┴────────────┴──────────┴─────────────┘
```

Both show the fields of the same quadruples, so what is read from the rows of
the table is what is read from the lines of the plain dump, each behind its
number.
-/

namespace Program

/-- The cells of the heading. -/
def tableHeading : List String :=
  ["index", "opcode", "operand1", "operand2", "destination"]

/-- The cells of the row for an instruction. -/
def tableRow
    (instruction : Instruction)
    (index : Nat) :
    List String :=
  index.repr :: instruction.quadruple.fields

theorem header_toTable
    (program : Program) :
    program.toTable.header = tableHeading :=
  rfl

theorem rows_toTable
    (program : Program) :
    program.toTable.rows =
      program.toList.zipIdx.map fun entry =>
        tableRow entry.1 entry.2 :=
  rfl

/-- The table of a program has five columns and plain cells. -/
theorem regular_toTable
    (program : Program) :
    program.toTable.Regular where
  nonempty := List.cons_ne_nil _ _
  rectangular := by
    rw [header_toTable, rows_toTable, List.forall_mem_map]
    intro entry _
    rfl
  plain := by
    rw [header_toTable, rows_toTable, List.forall_mem_cons,
      List.forall_mem_map]
    constructor
    · decide
    · rintro ⟨instruction, index⟩ _
      rw [tableRow, List.forall_mem_cons]
      exact ⟨.repr index, fun _ => Quadruple.isPlainField_of_mem_fields⟩

/-- The row for an instruction is drawn at the place of the instruction. -/
theorem getElem?_rows_drawing
    {program : Program}
    {index : Nat}
    {instruction : Instruction}
    (atIndex : program.toList[index]? = some instruction) :
    program.toTable.drawing.rows[index]? =
      some
        (Text.Table.rowLine program.toTable.columnWidths
          (tableRow instruction index)) := by
  rw [Text.Table.drawing, List.getElem?_map, rows_toTable,
    List.getElem?_map, List.getElem?_zipIdx, atIndex]
  simp

/-- The row of an instruction shows its number and its fields. -/
theorem cellsOf_rowLine_tableRow
    {program : Program}
    {index : Nat}
    {instruction : Instruction}
    (atIndex : program.toList[index]? = some instruction) :
    Text.cellsOf
        (Text.Table.rowLine program.toTable.columnWidths
          (tableRow instruction index)) =
      index.repr :: Text.fields instruction.text := by
  have regular := program.regular_toTable
  have isRow :
      tableRow instruction index ∈
        program.toTable.header :: program.toTable.rows := by
    refine List.mem_cons_of_mem _ ?_
    rw [rows_toTable, List.mem_map]
    refine ⟨(instruction, index), ?_, rfl⟩
    rw [List.mem_zipIdx_iff_getElem?]
    exact atIndex
  have nonempty : tableRow instruction index ≠ [] :=
    List.cons_ne_nil _ _
  rw [Text.Table.cellsOf_rowLine nonempty (regular.fits _ isRow)
      (regular.plain _ isRow),
    tableRow, Instruction.text, Quadruple.fields_text]

theorem cellsOf_heading
    (program : Program) :
    Text.cellsOf program.toTable.drawing.heading = tableHeading := by
  have regular := program.regular_toTable
  have isHeader :
      tableHeading ∈ program.toTable.header :: program.toTable.rows :=
    List.mem_cons_self
  exact
    Text.Table.cellsOf_rowLine (List.cons_ne_nil _ _)
      (regular.fits _ isHeader) (regular.plain _ isHeader)

theorem length_rows_toTable
    (program : Program) :
    program.toTable.rows.length = program.size := by
  rw [rows_toTable, List.length_map, List.length_zipIdx,
    Array.length_toList]

end Program

/--
The table of a program is rectangular and agrees with the plain dump.

Its lines are two borders with the heading between them, one row for every
instruction, and a border at the bottom unless there is no row.  No line feed
ends the last of them.  They all have the same number of characters, and the
bars of every row stand where every border has its junctions.  The cells of a
row, without the blanks around them, are the number of the row and the fields of
the line at that place of the plain dump.
-/
theorem tableDump_agrees_with_plainDump
    (program : Program) :
    ∃ (drawing : Text.Drawing) (records : List String),
      program.tableDump.toList.splitOn '\n' = drawing.lines ∧
        Text.wholeLines? program.plainDump = some records ∧
        drawing.lines.length =
          (if program.size = 0 then 3 else program.size + 4) ∧
        program.tableDump.toList.getLast? ≠ some '\n' ∧
        (∃ width, ∀ line ∈ drawing.lines, line.length = width) ∧
        (∀ border ∈ drawing.borders, ∀ line ∈ drawing.cellLines,
          border.map Text.isJunction = line.map Text.isBar) ∧
        Text.cellsOf drawing.heading =
          ["index", "opcode", "operand1", "operand2", "destination"] ∧
        drawing.rows.length = program.size ∧
        ∀ index < program.size, ∃ row record,
          drawing.rows[index]? = some row ∧
            records[index]? = some record ∧
            Text.cellsOf row = index.repr :: Text.fields record := by
  have regular := program.regular_toTable
  refine ⟨program.toTable.drawing, program.toList.map Instruction.text,
    regular.splitOn_text, program.wholeLines?_plainDump,
    ?_, regular.getLast?_text_ne,
    ⟨_, fun line => regular.length_of_mem_lines⟩, ?_,
    program.cellsOf_heading, ?_, ?_⟩
  · rw [Text.Table.length_lines_drawing, program.length_rows_toTable]
  · intro border isBorder line hasCells
    rw [Text.Table.map_isJunction _ border isBorder,
      regular.map_isBar line hasCells]
  · rw [Text.Table.drawing, List.length_map, program.length_rows_toTable]
  · intro index inside
    have atIndex :
        program.toList[index]? = some program[index] := by
      rw [Array.getElem?_toList, Array.getElem?_eq_getElem inside]
    refine ⟨_, program[index].text,
      Program.getElem?_rows_drawing atIndex, ?_,
      Program.cellsOf_rowLine_tableRow atIndex⟩
    rw [List.getElem?_map, atIndex, Option.map_some]

end Iloc
