namespace Iloc.Text

/-!
# Lines

Text that is made of whole lines, each of which a line feed ends.
-/

/-- The text of some lines, the last one ended like all others. -/
def unlines (lines : List String) : String :=
  String.join (lines.map (· ++ "\n"))

end Iloc.Text
