import Iloc.CommandLine.Options
import Mathlib.Data.List.Basic

namespace Iloc.CommandLine

/-!
# What arguments give

Arguments are read one after the other, and each adds something to the notes: a
flag, all flags of a group, or the name of a file.  So the options that a list
of arguments amounts to can be told from the arguments without reading them in
order.  A field is set if its flag is given, by itself or in a group, and the
file is the one argument that is no flag.
-/

/-- The flags of an argument, each by itself: a long one, or those of a group. -/
def spelledFlags (argument : String) : List String :=
  match argument.toList with
  | '-' :: '-' :: _ => [argument]
  | '-' :: letters => letters.map fun letter => s!"-{letter}"
  | _ => []

/-- The flags that arguments give, up to the argument that ends the flags. -/
def givenFlags (arguments : List String) : List String :=
  (arguments.takeWhile (· ≠ "--")).flatMap spelledFlags

/-- Whether an argument is the name of a file, if it can be a flag. -/
def isFileName (argument : String) : Bool :=
  match argument.toList with
  | '-' :: _ :: _ => false
  | _ => true

/-- The names of files that arguments give. -/
def givenFiles (arguments : List String) : List String :=
  (arguments.takeWhile (· ≠ "--")).filter isFileName ++
    (arguments.dropWhile (· ≠ "--")).tail

/-- What goes well in two steps has gone well in the first. -/
theorem exists_of_bind_eq_ok
    {ε α β : Type}
    {first : Except ε α}
    {next : α → Except ε β}
    {result : β}
    (done : (first >>= next) = .ok result) :
    ∃ middle, first = .ok middle ∧ next middle = .ok result := by
  cases first with
  | error failure => cases done
  | ok middle => exact ⟨middle, rfl, done⟩

/-- No two flags are spelled alike. -/
theorem Flag.spelling_injective :
    Function.Injective Flag.spelling := by
  intro flag other same
  cases flag <;> cases other <;> first | rfl | simp [spelling] at same

section given

variable {argument : String} (noEnd : argument ≠ "--")

include noEnd

theorem givenFlags_cons
    (arguments : List String) :
    givenFlags (argument :: arguments) =
      spelledFlags argument ++ givenFlags arguments := by
  rw [givenFlags, List.takeWhile_cons_of_pos (by simp [noEnd])]
  exact List.flatMap_cons

theorem givenFiles_cons
    (arguments : List String) :
    givenFiles (argument :: arguments) =
      [argument].filter isFileName ++ givenFiles arguments := by
  rw [givenFiles, List.takeWhile_cons_of_pos (by simp [noEnd]),
    List.dropWhile_cons_of_pos (by simp [noEnd]),
    ← List.singleton_append, List.filter_append, List.append_assoc]
  rfl

end given

namespace Notes

/-- Some flags and names have been added to what has been taken note of. -/
structure Adds
    (notes later : Notes)
    (flags files : List String) :
    Prop where
  flags_eq :
    later.flags.map Flag.spelling =
      flags.reverse ++ notes.flags.map Flag.spelling
  files_eq : later.file?.toList = notes.file?.toList ++ files
  flagsEnded_eq : later.flagsEnded = notes.flagsEnded

namespace Adds

variable {notes middle later : Notes}

theorem nothing : notes.Adds notes [] [] :=
  ⟨rfl, (List.append_nil _).symm, rfl⟩

theorem trans
    {flags files moreFlags moreFiles : List String}
    (first : notes.Adds middle flags files)
    (second : middle.Adds later moreFlags moreFiles) :
    notes.Adds later (flags ++ moreFlags) (files ++ moreFiles) where
  flags_eq := by
    rw [second.flags_eq, first.flags_eq, List.reverse_append,
      List.append_assoc]
  files_eq := by
    rw [second.files_eq, first.files_eq, List.append_assoc]
  flagsEnded_eq := second.flagsEnded_eq.trans first.flagsEnded_eq

end Adds

variable {notes later : Notes}

theorem adds_addFile
    {name : String}
    (added : notes.addFile name = .ok later) :
    notes.Adds later [] [name] := by
  rw [addFile] at added
  cases file : notes.file? with
  | some other =>
      rw [file] at added
      cases added
  | none =>
      rw [file] at added
      cases added
      exact ⟨rfl, by rw [file]; rfl, rfl⟩

/-- A flag is taken note of unless it decides the answer. -/
theorem adds_addFlag
    {flag : Flag}
    (added : notes.addFlag flag = .ok later) :
    notes.Adds later [flag.spelling] [] ∧
      flag ≠ .help ∧ flag ≠ .version := by
  rw [addFlag.eq_def] at added
  split at added
  · cases added
  split at added
  · cases added
  · cases added
  · rename_i other notHelp notVersion
    split at added
    · cases added
    · cases added
      exact
        ⟨⟨rfl, (List.append_nil _).symm, rfl⟩, notHelp, notVersion⟩

/-- The letter of a flag that is taken note of is how the flag is spelled. -/
theorem spelling_of_ofLetter?
    {letter : Char}
    {flag : Flag}
    (isFlag : Flag.ofLetter? letter = some flag)
    (notHelp : flag ≠ .help)
    (notVersion : flag ≠ .version) :
    flag.spelling = s!"-{letter}" := by
  rw [Flag.ofLetter?.eq_def] at isFlag
  split at isFlag <;> cases isFlag
  · rfl
  · rfl
  · rfl
  · contradiction
  · contradiction

/-- So is the long name of a flag. -/
theorem spelling_of_ofName?
    {name : String}
    {flag : Flag}
    (isFlag : Flag.ofName? name = some flag)
    (notHelp : flag ≠ .help)
    (notVersion : flag ≠ .version) :
    flag.spelling = s!"--{name}" := by
  rw [Flag.ofName?.eq_def] at isFlag
  split at isFlag <;> cases isFlag
  · rfl
  · contradiction
  · contradiction

/-- A group adds the flags of its letters. -/
theorem adds_addLetters
    {letters : List Char}
    (added : notes.addLetters letters = .ok later) :
    notes.Adds later (letters.map fun letter => s!"-{letter}") [] := by
  induction letters generalizing notes with
  | nil =>
      cases added
      exact .nothing
  | cons letter letters inductionHypothesis =>
      rw [addLetters] at added
      split at added
      · cases added
      · rename_i flag isFlag
        obtain ⟨middle, first, others⟩ := exists_of_bind_eq_ok added
        obtain ⟨adds, notHelp, notVersion⟩ := adds_addFlag first
        rw [spelling_of_ofLetter? isFlag notHelp notVersion] at adds
        exact adds.trans (inductionHypothesis others)

/-- A long flag adds itself. -/
theorem adds_addLong
    {body : List Char}
    (added : notes.addLong body = .ok later) :
    notes.Adds later [String.ofList ('-' :: '-' :: body)] [] := by
  rw [addLong] at added
  split at added
  · cases added
  · rename_i flag isFlag noValue
    obtain ⟨adds, notHelp, notVersion⟩ := adds_addFlag added
    have whole : body.takeWhile (· != '=') = body := by
      have split :
          body.takeWhile (· != '=') ++ body.dropWhile (· != '=') = body :=
        List.takeWhile_append_dropWhile
      rw [noValue, List.append_nil] at split
      exact split
    rw [spelling_of_ofName? isFlag notHelp notVersion, whole] at adds
    have spelled :
        s!"--{String.ofList body}" = String.ofList ('-' :: '-' :: body) := by
      rw [← String.toList_inj]
      simp [toString]
    rw [spelled] at adds
    exact adds
  · cases added

/-- What one argument adds, unless it ends the flags or stands behind that. -/
theorem adds_add
    {argument : String}
    (added : notes.add argument = .ok later)
    (mayBeFlag : notes.flagsEnded = false)
    (noEnd : argument ≠ "--") :
    notes.Adds later (spelledFlags argument)
      ([argument].filter isFileName) := by
  rw [add, mayBeFlag] at added
  simp only [Bool.false_eq_true, ↓reduceIte] at added
  have spelled : String.ofList argument.toList = argument :=
    String.ofList_toList
  rw [List.filter_cons, List.filter_nil, spelledFlags.eq_def,
    isFileName.eq_def]
  split at added
  · rename_i isEnd
    rw [isEnd] at spelled
    exact absurd spelled.symm noEnd
  · rename_i body _ isLong
    rw [isLong] at spelled ⊢
    rw [← spelled]
    exact adds_addLong added
  · rename_i letter letters _ notLong isGroup
    have adds := adds_addLetters added
    rw [isGroup]
    split
    · rename_i isLong
      cases isLong
      exact absurd rfl notLong
    · rename_i sameGroup
      cases sameGroup
      exact adds
    · rename_i noGroup
      exact absurd rfl (noGroup _)
  · rename_i notEnd notLong notGroup
    have adds := adds_addFile added
    have isName :
        (match argument.toList with
          | '-' :: _ :: _ => false
          | _ => true) = true := by
      split
      · rename_i isGroup
        exact absurd isGroup (notGroup _ _)
      · rfl
    rw [isName]
    split
    · rename_i isLong
      exact absurd isLong (notLong _)
    · rename_i letters _ isGroup
      cases letters with
      | nil => exact adds
      | cons letter letters => exact absurd isGroup (notGroup _ _)
    · exact adds

/-- Behind the argument that ends the flags there are only names of files. -/
theorem adds_foldlM_of_flagsEnded
    {arguments : List String}
    (added : arguments.foldlM add notes = .ok later)
    (noFlags : notes.flagsEnded = true) :
    notes.Adds later [] arguments := by
  induction arguments generalizing notes with
  | nil =>
      cases added
      exact .nothing
  | cons argument arguments inductionHypothesis =>
      rw [List.foldlM_cons] at added
      obtain ⟨middle, first, others⟩ := exists_of_bind_eq_ok added
      rw [add, noFlags] at first
      have adds := adds_addFile first
      exact
        adds.trans
          (inductionHypothesis others (adds.flagsEnded_eq.trans noFlags))

/-- What a list of arguments adds. -/
theorem adds_foldlM
    {arguments : List String}
    (added : arguments.foldlM add notes = .ok later)
    (mayBeFlag : notes.flagsEnded = false) :
    later.flags.map Flag.spelling =
        (givenFlags arguments).reverse ++
          notes.flags.map Flag.spelling ∧
      later.file?.toList = notes.file?.toList ++ givenFiles arguments := by
  induction arguments generalizing notes with
  | nil =>
      cases added
      exact ⟨rfl, (List.append_nil _).symm⟩
  | cons argument arguments inductionHypothesis =>
      rw [List.foldlM_cons] at added
      obtain ⟨middle, first, others⟩ := exists_of_bind_eq_ok added
      by_cases isEnd : argument = "--"
      · subst isEnd
        rw [add, mayBeFlag] at first
        cases first
        have adds := adds_foldlM_of_flagsEnded others rfl
        exact ⟨adds.flags_eq, adds.files_eq⟩
      · have adds := adds_add first mayBeFlag isEnd
        obtain ⟨flags, files⟩ :=
          inductionHypothesis others (adds.flagsEnded_eq.trans mayBeFlag)
        rw [flags, files, adds.flags_eq, adds.files_eq,
          givenFlags_cons isEnd, givenFiles_cons isEnd,
          List.reverse_append, List.append_assoc, List.append_assoc]
        exact ⟨rfl, rfl⟩

end Notes

/-- The options are what the arguments give. -/
structure Options.ReadFrom
    (options : Options)
    (arguments : List String) :
    Prop where
  scan : options.modes.scan = true ↔ "-s" ∈ givenFlags arguments
  parse : options.modes.parse = true ↔ "-p" ∈ givenFlags arguments
  dump : options.modes.dump = true ↔ "-r" ∈ givenFlags arguments
  plain : options.plain = true ↔ "--plain" ∈ givenFlags arguments
  file : givenFiles arguments = [options.file]

/-- Arguments that are accepted set the fields of their flags. -/
theorem Options.readFrom_of_ofArguments
    {arguments : List String}
    {options : Options}
    (accepted : ofArguments arguments = .ok options) :
    options.ReadFrom arguments := by
  rw [ofArguments] at accepted
  obtain ⟨notes, noted, amounts⟩ := exists_of_bind_eq_ok accepted
  obtain ⟨flags, files⟩ := Notes.adds_foldlM noted rfl
  have spelled :
      notes.flags.map Flag.spelling = (givenFlags arguments).reverse :=
    flags.trans (List.append_nil _)
  have given (flag : Flag) :
      flag ∈ notes.flags ↔ flag.spelling ∈ givenFlags arguments := by
    rw [← List.mem_map_of_injective Flag.spelling_injective, spelled]
    exact List.mem_reverse
  rw [Notes.toOptions] at amounts
  split at amounts
  · cases amounts
  · cases amounts
  · rename_i file _ named
    cases amounts
    rw [named] at files
    exact
      ⟨decide_eq_true_iff.trans (given .scan),
        decide_eq_true_iff.trans (given .parse),
        decide_eq_true_iff.trans (given .dump),
        decide_eq_true_iff.trans (given .plain), files.symm⟩

end Iloc.CommandLine
