import Dyehouse.Compilation

/-!
# Reports on a source

The lines that `check` and `inspect` print about a source file of the given name.
-/

namespace Dyehouse.Command

/-- What `check` says about a source: one line if there is nothing to complain of, else
    every diagnostic and a count. -/
def checkReport (name : Text) (c : Compilation) : List Text :=
  let log := c.run.log
  if log.errors.isEmpty && log.warnings.isEmpty then
    ["OK: ".toList ++ name ++ " compiles cleanly (".toList ++ Text.ofNat c.css.length ++
      " bytes of CSS)".toList]
  else
    log.map Diagnostic.text ++
      [[], name ++ ": ".toList ++ Text.ofNat log.errors.length ++ " error(s), ".toList ++
        Text.ofNat log.warnings.length ++ " warning(s)".toList]

/-! ### Inspection -/

/-- The collection and its variables.  A default is shown only where there is no explicit
    value. -/
def collectionReport (c : Collection) : List Text :=
  ["  ".toList ++ c.name ++ "  type=".toList ++ c.tag] ++
    (c.values.entries.map fun entry =>
      "    &".toList ++ entry.1 ++ " = ".toList ++ entry.2) ++
    ((c.defaults.entries.filter fun entry => !c.values.contains entry.1).map fun entry =>
      "    &".toList ++ entry.1 ++ " = ".toList ++ entry.2 ++ "  (default)".toList)

/-- The selectors, and how many properties each of them has. -/
def selectorReport (sheet : Sheet) : List Text :=
  if sheet.isEmpty then ["Nothing to render.".toList]
  else "Selectors:".toList :: sheet.styles.entries.map fun entry =>
    "  ".toList ++ entry.1 ++ "  (".toList ++ Text.ofNat entry.2.size ++ " properties)".toList

/-- Animations under a title, each with the labels of its frames; nothing if there are
    none. -/
def animationReport (title : Text) (animations : Table Frames) : List Text :=
  if animations.isEmpty then []
  else [[], title] ++ animations.entries.map fun entry =>
    "  ".toList ++ entry.1 ++ "  [".toList ++ ", ".toList.intercalate entry.2.names ++ [']']

/-- The fonts, each with the place it is loaded from; nothing if there are none. -/
def fontReport (fonts : Table Font) : List Text :=
  if fonts.isEmpty then []
  else [[], "Fonts:".toList] ++ fonts.entries.map fun entry =>
    let source := entry.2.source.getD []
    "  ".toList ++ entry.1 ++ "  src=".toList ++ (if source.isEmpty then ['-'] else source)

/-- How many diagnostics there are; nothing if there are none. -/
def logReport (log : Log) : List Text :=
  if log.isEmpty then []
  else [[], "Diagnostics: ".toList ++ Text.ofNat log.length ++
    " (run \x27dyescript check\x27 for details)".toList]

/-- What `inspect` says about a source of which `count` statements have been run. -/
def inspectReport (name : Text) (count : Nat) (run : Run) : List Text :=
  let state := run.state
  ["File:       ".toList ++ name,
   "Statements: ".toList ++ Text.ofNat count,
   "Strict:     ".toList ++ Text.ofBool state.context.modes.strict,
   "Dyegest:    ".toList ++ Text.ofBool state.context.modes.dyegest,
   [],
   "Collections:".toList] ++
  (state.context.registry.collections.entries.flatMap fun entry => collectionReport entry.2) ++
  [[]] ++
  selectorReport state.sheet ++
  animationReport "Animations:".toList state.sheet.animations ++
  animationReport "Motions:".toList state.sheet.motions ++
  fontReport state.sheet.fonts ++
  logReport run.log

end Dyehouse.Command
