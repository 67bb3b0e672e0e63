import SourceChain.SourceMap.Document

/-!
# Instrumentation

The stage that turns code into instrumented code, as the loader sees it: a computation that is given
the code and the name of its file, and gives back new code with the text of a map from the new code
to the old, or a failure. The stage may run in any monad, so that whoever runs a loader can watch
the calls.
-/

namespace SourceChain

/-- Instrumented code. -/
structure Instrumented where
  /-- The code. -/
  code : String
  /-- The JSON text of the map from the code to the code that was instrumented. -/
  map : String
deriving DecidableEq, Repr

/-- Code paired with a map that has been built already. -/
def Instrumented.ofMap (code : String) (map : SourceMap) : Instrumented where
  code := code
  map := map.toText

/-- Why code could not be instrumented. -/
structure InstrumentFailure where
  /-- The file. -/
  file : String
  /-- What the stage says. -/
  detail : String
  /-- Where it found the reason, if it knows. -/
  position : Option Position
deriving DecidableEq, Repr

/-- The wording of a failure. -/
def InstrumentFailure.message (failure : InstrumentFailure) : String :=
  s!"failed to instrument {failure.file}: {failure.detail}"

/-- An instrumentation stage, given the code and the name of its file. -/
abbrev Instrumenter (m : Type → Type) :=
  String → String → m (Except InstrumentFailure Instrumented)

/-- The calls of an instrumenter, in order. -/
abbrev CallLog := List (String × String)

/-- The stage that notes what it is called with and answers as `answer` does. -/
def Instrumenter.logged (answer : String → String → Except InstrumentFailure Instrumented) :
    Instrumenter (StateM CallLog) := fun source file ↦ do
  modify (· ++ [(source, file)])
  return answer source file

end SourceChain
