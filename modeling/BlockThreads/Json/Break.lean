/-!
# Where a text stops being JSON

A text can fail to be JSON in two ways: it holds something that no JSON text
holds there (`malformed`), or it ends inside something unfinished (`truncated`).

A value that is wanted is *read*; a value that nobody asks for is *skipped*, which
looks at less: a skipped text may pair its surrogates wrongly, and the end of the
text inside a skipped number is not told apart from a stray character. So the
place where a text breaks carries both verdicts, `Break.read` and `Break.skipped`.
-/

namespace BlockThreads.Json

/-- How a text fails to be JSON. -/
inductive Flaw where
  | malformed
  | truncated
  deriving DecidableEq, Repr

/-- A place where a text stops being JSON: the verdict of reading on, and that of
skipping on. -/
structure Break where
  read : Flaw
  skipped : Flaw
  deriving DecidableEq, Repr

namespace Break

/-- Something stands here that cannot. -/
def malformed : Break := ⟨.malformed, .malformed⟩

/-- The text ends although something has to follow. -/
def truncated : Break := ⟨.truncated, .truncated⟩

/-- The break after the characters `rest` were found where a digit has to stand. -/
def noDigit : List Char → Break
  | [] => ⟨.truncated, .malformed⟩
  | _ :: _ => malformed

end Break

end BlockThreads.Json
