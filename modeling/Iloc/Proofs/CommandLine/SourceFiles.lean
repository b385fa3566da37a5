import Iloc.FileTree
import Iloc.Proofs.CommandLine.Consistency
import Mathlib.Data.List.TakeWhile

namespace Iloc

/-!
# Reading source files

A run reads its file before it does anything else, and a run whose arguments
are refused reads none.  In a tree of files a path either leads to a file that
holds the encoding of a text, and then the run works on that text and on no
other, or the run fails and names the path as it was given.

What a system refuses of a path is refused of it in every tree: no file is
reached by a path that is empty, too long or marked with a NUL character, or
that has a component that is too long for a name.
-/

variable
  {tree : FileTree}
  {content : ByteArray}
  {path source : String}
  {cause : ReadCause}
  {error : ReadError}

/-- A content is read as the text whose encoding it is. -/
theorem decodeSource_eq_ok_iff :
    decodeSource content = .ok source ↔ content = source.toUTF8 := by
  rw [decodeSource, String.fromUTF8?]
  split
  · rename_i text decoded
    split at decoded
    · cases decoded
      constructor
      · intro same
        cases same
        rfl
      · intro encodes
        exact congrArg Except.ok (String.toByteArray_inj.mp encodes)
    · cases decoded
  · rename_i undecoded
    split at undecoded
    · cases undecoded
    · rename_i invalid
      constructor
      · exact nofun
      · intro encodes
        exact absurd (encodes ▸ source.isValidUTF8) invalid

/-- The paths that no system refuses for how they are written. -/
theorem pathFault?_eq_none_iff :
    pathFault? path = none ↔
      '\x00' ∉ path.toList ∧ path ≠ "" ∧
        path.utf8ByteSize ≤ maxPathBytes := by
  rw [pathFault?]
  split
  · rename_i marked
    refine iff_of_false nofun fun written => ?_
    exact written.1 (List.contains_iff_mem.mp marked)
  split
  · rename_i blank
    exact iff_of_false nofun fun written => written.2.1 blank
  split
  · rename_i long
    exact iff_of_false nofun fun written => Nat.not_lt.mpr written.2.2 long
  · rename_i unmarked nonempty short
    exact iff_of_true rfl
      ⟨mt List.contains_iff_mem.mpr unmarked, nonempty,
        Nat.not_lt.mp short⟩

namespace FileTree

/-- Where a path leads somewhere, its components can be names. -/
theorem utf8ByteSize_le_of_follow
    {place components : List String}
    {entry : FileEntry}
    (followed : tree.follow place components = .ok entry) :
    ∀ component ∈ components,
      component.utf8ByteSize ≤ maxComponentBytes := by
  -- A path that climbs out goes on in another tree.
  induction components generalizing tree place with
  | nil =>
      exact List.forall_mem_nil _
  | cons component components inductionHypothesis =>
      rw [List.forall_mem_cons]
      rw [follow] at followed
      split at followed
      · cases followed
      · cases followed
      split at followed
      · rename_i stationary
        refine ⟨?_, inductionHypothesis followed⟩
        rcases Bool.or_eq_true_iff.mp stationary with isEmpty | isDot
        · rw [eq_of_beq isEmpty]
          decide
        · rw [eq_of_beq isDot]
          decide
      split at followed
      · rename_i climbs
        refine ⟨?_, ?_⟩
        · rw [climbs]
          decide
        split at followed
        · exact inductionHypothesis followed
        · exact inductionHypothesis followed
      split at followed
      · cases followed
      · rename_i short
        exact ⟨Nat.not_lt.mp short, inductionHypothesis followed⟩

/-- The paths that can lead to something in a tree of files. -/
structure Admits (path : String) : Prop where
  unmarked : '\x00' ∉ path.toList
  nonempty : path ≠ ""
  short : path.utf8ByteSize ≤ maxPathBytes
  components :
    ∀ component ∈ path.splitOn "/",
      component.utf8ByteSize ≤ maxComponentBytes

theorem admits_of_resolve
    {entry : FileEntry}
    (resolved : tree.resolve path = .ok entry) :
    Admits path := by
  rw [resolve] at resolved
  split at resolved
  · cases resolved
  · rename_i faultless
    obtain ⟨unmarked, nonempty, short⟩ :=
      pathFault?_eq_none_iff.mp faultless
    exact
      ⟨unmarked, nonempty, short, utf8ByteSize_le_of_follow resolved⟩

/-- A source is read where a path leads to a file with its encoding. -/
theorem readSource_eq_ok_iff :
    tree.readSource path = .ok source ↔
      tree.resolve path = .ok (.file source.toUTF8) := by
  have forgets
      (read : Except ReadCause String) :
      read.mapError (ReadError.mk path) = .ok source ↔
        read = .ok source := by
    cases read <;> simp [Except.mapError]
  rw [readSource, forgets]
  cases tree.resolve path with
  | error cause =>
      exact iff_of_false nofun nofun
  | ok entry =>
      cases entry with
      | directory =>
          exact iff_of_false nofun nofun
      | file content =>
          dsimp only
          rw [decodeSource_eq_ok_iff, Except.ok.injEq,
            FileEntry.file.injEq]

/-- A failure to read names the path as it was given. -/
theorem path_of_readSource_eq_error
    (failed : tree.readSource path = .error error) :
    error.path = path := by
  have names
      (read : Except ReadCause String)
      (refused : read.mapError (ReadError.mk path) = .error error) :
      error.path = path := by
    cases read with
    | ok source => cases refused
    | error cause =>
        cases refused
        rfl
  exact names _ failed

/-- What a component of a path is if it leads further down. -/
structure IsName (component : String) : Prop where
  moves : isStationary component = false
  descends : component ≠ ".."
  short : component.utf8ByteSize ≤ maxComponentBytes

/-- A way down through directories leads to the place that it spells. -/
theorem follow_of_isName
    {place components : List String}
    (names : ∀ component ∈ components, IsName component)
    (above :
      ∀ passed, passed <+: components → passed ≠ components →
        tree.entry? (place ++ passed) = some .directory) :
    tree.follow place components =
      match tree.entry? (place ++ components) with
      | some entry => .ok entry
      | none => .error .notFound := by
  induction components generalizing place with
  | nil =>
      rw [List.append_nil]
      exact follow.eq_1 tree place
  | cons component components inductionHypothesis =>
      obtain ⟨isName, others⟩ := List.forall_mem_cons.mp names
      have inside : tree.entry? place = some .directory := by
        rw [← List.append_nil place]
        exact above [] List.nil_prefix (List.cons_ne_nil _ _).symm
      have below :=
        @inductionHypothesis (place ++ [component]) others ?_
      · rw [follow, inside]
        dsimp only
        rw [if_neg (Bool.eq_false_iff.mp isName.moves),
          if_neg isName.descends, if_neg (Nat.not_lt.mpr isName.short),
          below, List.append_assoc, List.singleton_append]
      · intro passed isPrefix proper
        rw [List.append_assoc, List.singleton_append]
        exact above (component :: passed)
          (List.cons_prefix_cons.mpr ⟨rfl, isPrefix⟩)
          fun same => proper (List.cons.inj same).2

/-- An entry of a tree in whose way no other one stands. -/
structure ListsAlone
    (tree : FileTree)
    (place : List String)
    (entry : FileEntry) :
    Prop where
  listed : (place, entry) ∈ tree.entries
  alone :
    ∀ other ∈ tree.entries, other.1 <+: place → other = (place, entry)

namespace ListsAlone

variable {place : List String} {entry : FileEntry}

theorem entry?_eq
    (lists : tree.ListsAlone place entry) :
    tree.entry? place = some entry := by
  unfold entry?
  cases found : tree.entries.lookup place with
  | none =>
      have unlisted :=
        List.lookup_eq_none_iff.mp found _ lists.listed
      exact absurd rfl (bne_iff_ne.mp unlisted)
  | some other =>
      obtain ⟨before, after, parts, -⟩ :=
        List.lookup_eq_some_iff.mp found
      have isEntry :=
        lists.alone (place, other) (by simp [parts]) List.prefix_rfl
      rw [(Prod.mk.inj isEntry).2]

/-- The way to an entry leads through directories. -/
theorem entry?_above
    (lists : tree.ListsAlone place entry)
    {passed : List String}
    (isPrefix : passed <+: place)
    (proper : passed ≠ place) :
    tree.entry? passed = some .directory := by
  have unlisted : tree.entries.lookup passed = none := by
    rw [List.lookup_eq_none_iff]
    intro other member
    rw [bne_iff_ne]
    rintro rfl
    exact proper (congrArg Prod.fst (lists.alone other member isPrefix))
  have leads :
      tree.entries.any (passed.isPrefixOf ·.1) = true :=
    List.any_eq_true.mpr
      ⟨_, lists.listed, List.isPrefixOf_iff_prefix.mpr isPrefix⟩
  unfold entry?
  rw [unlisted]
  dsimp only
  rw [leads, Bool.or_true, if_pos rfl]

/-- An entry is found by following the names that lead to it. -/
theorem follow_eq
    (lists : tree.ListsAlone place entry)
    (names : ∀ component ∈ place, IsName component) :
    tree.follow [] place = .ok entry := by
  have leads :=
    @follow_of_isName tree [] place names fun _ isPrefix proper =>
      lists.entry?_above isPrefix proper
  rw [leads, List.nil_append, lists.entry?_eq]

end ListsAlone

/-- A file that is put into a tree under a name is read under that name. -/
theorem readSource_ofNamed
    {named : List (String × ByteArray)}
    (faultless : pathFault? path = none)
    (relative : path.startsWith "/" = false)
    (names : ∀ component ∈ path.splitOn "/", IsName component)
    (isNamed : (path, source.toUTF8) ∈ named)
    (alone :
      ∀ other ∈ (ofNamed named).entries,
        other.1 <+: path.splitOn "/" →
          other = (path.splitOn "/", .file source.toUTF8)) :
    (ofNamed named).readSource path = .ok source := by
  have listed :
      (path.splitOn "/", .file source.toUTF8) ∈
        (ofNamed named).entries := by
    refine List.mem_map.mpr ⟨_, isNamed, ?_⟩
    have place :
        (path.splitOn "/").filter (!isStationary ·) =
          path.splitOn "/" := by
      rw [List.filter_eq_self]
      intro component member
      rw [(names component member).moves, Bool.not_false]
    have isFile : (path.splitOn "/").getLast? ≠ some "" := by
      intro ends
      exact Bool.false_ne_true
        (names "" (List.mem_of_getLast? ends)).moves.symm
    dsimp only
    rw [place, if_neg isFile]
  rw [readSource_eq_ok_iff, resolve, faultless]
  dsimp only
  rw [relative, if_neg Bool.false_ne_true]
  exact ListsAlone.follow_eq ⟨listed, alone⟩ names

end FileTree

namespace CommandLine

namespace UsageError

/-- The headline is the first line of the complaint. -/
theorem exists_splitOn_message
    (error : UsageError) :
    ∃ others, error.message.splitOn "\n" = error.headline :: others := by
  have within
      {words : List Char}
      (inline : '\n' ∉ words) :
      ∀ character ∈ words, (character != '\n') = true := by
    intro character member
    exact bne_iff_ne.mpr fun same => inline (same ▸ member)
  rw [Text.splitOn_lineFeed, headline]
  generalize error.message.toList = complaint
  by_cases broken : '\n' ∈ complaint
  · obtain ⟨first, others, rfl, inline⟩ :=
      List.eq_append_cons_of_mem broken
    rw [Text.takeWhile_run (within inline)
        (Text.endsRun_cons (by decide) others),
      List.splitOn_append_cons_self_of_not_mem inline, List.map_cons]
    exact ⟨_, rfl⟩
  · rw [List.takeWhile_eq_self_iff.mpr (within broken),
      List.splitOn_eq_singleton broken]
    exact ⟨[], rfl⟩

end UsageError

variable
  {arguments : List String}
  {options : Options}

theorem EarlyAnswer.outcome_eq_error_iff
    {early : EarlyAnswer}
    {usage : UsageError} :
    early.outcome = .error usage ↔ early = .usage usage := by
  cases early <;> simp [outcome]

/-- Arguments are refused for what they are, before any file is read. -/
theorem respond_eq_error_iff
    {verbosity : Verbosity}
    {read : String → Except ReadError String}
    {usage : UsageError} :
    respond verbosity read arguments = .error usage ↔
      Options.ofArguments arguments = .error (.usage usage) := by
  rw [respond]
  cases Options.ofArguments arguments with
  | ok options => simp
  | error early => simp [EarlyAnswer.outcome_eq_error_iff]

/--
In a tree of files a run works on the text whose encoding its path leads to,
which a system admits, or else it fails over the path as it was given.
-/
theorem respond_readSource
    (verbosity : Verbosity)
    (accepted : Options.ofArguments arguments = .ok options)
    (tree : FileTree) :
    ∃ outcome,
      respond verbosity tree.readSource arguments = .ok outcome ∧
        ((∃ source,
          FileTree.Admits options.file ∧
            tree.resolve options.file = .ok (.file source.toUTF8) ∧
            outcome = run verbosity options (.ok source)) ∨
          ∃ cause,
            tree.readSource options.file =
                .error ⟨options.file, cause⟩ ∧
              outcome.Fails ⟨options.file, cause⟩) := by
  refine
    ⟨run verbosity options (tree.readSource options.file),
      by rw [respond, accepted], ?_⟩
  cases read : tree.readSource options.file with
  | ok source =>
      have resolved := FileTree.readSource_eq_ok_iff.mp read
      exact .inl
        ⟨source, FileTree.admits_of_resolve resolved, resolved, rfl⟩
  | error error =>
      obtain ⟨path, cause⟩ := error
      cases FileTree.path_of_readSource_eq_error read
      exact .inr ⟨cause, rfl, fails_run verbosity options _⟩

end CommandLine

end Iloc
