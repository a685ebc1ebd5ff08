import Dyehouse.Run
import Dyehouse.Sheet.Css
import Dyehouse.Source.Basic

/-!
# Compiling a source

From the text of a source to the text of a stylesheet, in one call.  A statement that cannot
be carried out is reported and left out; only a source that cannot be read at all stops the
compilation.
-/

namespace Dyehouse

/-- How a source is to be compiled. -/
structure Options where
  minify : Bool := false
  strict : Bool := false
  sourceName : Option Text := none
  deriving DecidableEq, Repr

/-- The stylesheet, and the run that it came from. -/
structure Compilation where
  css : Text
  run : Run
  deriving DecidableEq, Repr

/-- Why there is no stylesheet. -/
inductive CompileError where
  | unreadable (cause : Unreadable)
  | unrenderable (cause : RenderError)
  deriving DecidableEq, Repr

namespace Compilation

/-- Carry out statements from the start. -/
def interpret (options : Options) (statements : List Statement) : Run :=
  Run.statements options.sourceName { context := { modes := { strict := options.strict } } } statements

/-- Compile statements (`compile_statements`). -/
def ofStatements (options : Options) (statements : List Statement) :
    Except RenderError Compilation :=
  let run := interpret options statements
  match run.state.sheet.render options.minify with
  | .error cause => .error cause
  | .ok css => .ok { css, run }

/-- Compile the text of a source (`compile_source`). -/
def ofSource (options : Options) (source : Text) : Except CompileError Compilation :=
  match Source.read source with
  | .error cause => .error (.unreadable cause)
  | .ok statements =>
    match ofStatements options statements with
    | .error cause => .error (.unrenderable cause)
    | .ok compilation => .ok compilation

/-- Whether every statement was carried out. -/
def isOk (c : Compilation) : Bool :=
  c.run.log.isOk

end Compilation

end Dyehouse
