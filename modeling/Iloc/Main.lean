import Iloc.CommandLine.Outcome

namespace Iloc

/-!
# The program

The outermost layer: it takes the arguments and the environment, reads the file
and writes the outcome.  Everything it writes is decided elsewhere.
-/

/-- Read a file as source text, or tell why that is impossible. -/
def readSourceFile (path : String) : IO (Except ReadError String) := do
  let failure (cause : ReadCause) : Except ReadError String :=
    .error ⟨path, cause⟩
  match pathFault? path with
  | some cause => return failure cause
  | none =>
      try
        let content ← IO.FS.readBinFile path
        return (decodeSource content).mapError (⟨path, ·⟩)
      catch
        | .noFileOrDirectory .. => return failure .notFound
        | .inappropriateType _ 21 _ => return failure .isADirectory
        | .inappropriateType .. => return failure .notADirectory
        | .invalidArgument _ 36 _ => return failure .nameTooLong
        | .invalidArgument _ 0xFFFFFFDC _ => return failure .nameTooLong
        | error => return failure (.other (toString error))

/-- Write an outcome, or a usage error in its place. -/
def tell : Except CommandLine.UsageError CommandLine.Outcome → IO UInt32
  | .error usage => do
      IO.eprintln s!"error: {usage.message}"
      return CommandLine.unusable
  | .ok outcome => do
      for line in outcome.stderrLines do
        IO.eprintln line
      IO.print outcome.stdout
      return outcome.exitCode

end Iloc

/-- The program: arguments and environment in, exit code out. -/
def main (arguments : List String) : IO UInt32 := do
  let setting ← IO.getEnv "RUST_LOG"
  let verbosity := Iloc.Verbosity.ofSetting setting
  match Iloc.CommandLine.Options.ofArguments arguments with
  | .error early =>
      Iloc.tell early.outcome
  | .ok options => do
      let content ← Iloc.readSourceFile options.file
      Iloc.tell (.ok (Iloc.CommandLine.run verbosity options content))
