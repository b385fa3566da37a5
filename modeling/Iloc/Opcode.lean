namespace Iloc

/-!
# Opcodes

ILOC has ten opcodes.  They fall into five statement classes, and each class
has one fixed statement form.  The opcode table lists all ten in the order that
numbers them; the number of an opcode is its position in that table, and its
mnemonic is the word that spells it in source text.

The two directions between opcodes and words are inverse to each other, so a
word is a mnemonic exactly when the table finds an opcode for it.
-/

/-- Opcodes that move a value between a register and memory. -/
inductive MemOp where
  | load
  | store
  deriving Repr, DecidableEq

/-- Opcodes that combine two registers into a third. -/
inductive ArithOp where
  | add
  | sub
  | mult
  | lshift
  | rshift
  deriving Repr, DecidableEq

/-- Statement classes.  Every opcode of a class takes the same operands. -/
inductive OpClass where
  | memOp
  | loadI
  | arithOp
  | output
  | nop
  deriving Repr, DecidableEq

namespace OpClass

/-- The name of a class in token listings and diagnostics. -/
def name : OpClass → String
  | .memOp => "MEMOP"
  | .loadI => "LOADI"
  | .arithOp => "ARITHOP"
  | .output => "OUTPUT"
  | .nop => "NOP"

end OpClass

/-- The opcodes of the language, grouped by statement class. -/
inductive Opcode where
  | mem (op : MemOp)
  | loadI
  | arith (op : ArithOp)
  | output
  | nop
  deriving Repr, DecidableEq

namespace Opcode

/-- The opcode table. -/
def table : List Opcode :=
  [ .mem .load,
    .loadI,
    .mem .store,
    .arith .add,
    .arith .sub,
    .arith .mult,
    .arith .lshift,
    .arith .rshift,
    .output,
    .nop ]

/-- The number of an opcode is its position in the table, counting from zero. -/
def index (opcode : Opcode) : Nat :=
  table.idxOf opcode

/-- The class that decides an opcode's statement form. -/
def opClass : Opcode → OpClass
  | .mem _ => .memOp
  | .loadI => .loadI
  | .arith _ => .arithOp
  | .output => .output
  | .nop => .nop

/-- The word that spells an opcode in source text. -/
def mnemonic : Opcode → String
  | .mem .load => "load"
  | .mem .store => "store"
  | .loadI => "loadI"
  | .arith .add => "add"
  | .arith .sub => "sub"
  | .arith .mult => "mult"
  | .arith .lshift => "lshift"
  | .arith .rshift => "rshift"
  | .output => "output"
  | .nop => "nop"

/-- The opcode that a word spells.  Case matters and no abbreviation counts. -/
def ofMnemonic? (word : String) : Option Opcode :=
  table.find? fun opcode => opcode.mnemonic == word

/-- Every opcode stands in the table. -/
theorem mem_table
    (opcode : Opcode) :
    opcode ∈ table := by
  rcases opcode with ⟨_ | _⟩ | _ | ⟨_ | _ | _ | _ | _⟩ | _ | _
  all_goals simp [table]

/-- Looking up an opcode's mnemonic returns that opcode. -/
@[simp]
theorem ofMnemonic?_mnemonic
    (opcode : Opcode) :
    ofMnemonic? opcode.mnemonic = some opcode := by
  rcases opcode with ⟨_ | _⟩ | _ | ⟨_ | _ | _ | _ | _⟩ | _ | _
  all_goals rfl

/-- A word is found exactly when it is the mnemonic of the opcode found. -/
theorem ofMnemonic?_eq_some_iff
    {word : String}
    {opcode : Opcode} :
    ofMnemonic? word = some opcode ↔ opcode.mnemonic = word := by
  constructor
  · intro found
    have spelled :=
      List.find?_some found
    exact eq_of_beq spelled
  · intro spelling
    subst spelling
    exact ofMnemonic?_mnemonic opcode

end Opcode

end Iloc
