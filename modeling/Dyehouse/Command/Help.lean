import Dyehouse.Command.Request

/-!
# Help

The lines that are printed when help is asked for.
-/

namespace Dyehouse.Command

/-- What the command line as a whole can do. -/
def overview : List String :=
  ["Usage: dyescript [OPTIONS] COMMAND [ARGS]...",
   "",
   "  DyeScript - compile .dye style sources into CSS.",
   "",
   "Options:",
   "  --version      Show the version and exit.",
   "  -v, --verbose  Log compiler activity to stderr",
   "  --help         Show this message and exit.",
   "",
   "Commands:",
   "  build    Compile a DyeScript file into a stylesheet.",
   "  check    Compile a DyeScript file and report problems without writing CSS.",
   "  inspect  Interpret a DyeScript file and display the resulting store."]

/-- What a job does, and the options that it understands. -/
def Verb.overview : Verb → List String
  | build =>
    ["Usage: dyescript build [OPTIONS] SOURCE",
     "",
     "  Compile a DyeScript file into a stylesheet.",
     "",
     "  Statement errors are reported on stderr; the rest of the file still",
     "  compiles.",
     "",
     "Options:",
     "  -o, --output FILE  Write CSS here instead of stdout",
     "  --minify           Drop redundant semicolons",
     "  --strict           Treat unresolved variables and unknown statements as",
     "                     errors",
     "  --help             Show this message and exit."]
  | check =>
    ["Usage: dyescript check [OPTIONS] SOURCE",
     "",
     "  Compile a DyeScript file and report problems without writing CSS.",
     "",
     "  Exits with code 1 when any statement was dropped; warnings alone pass.",
     "",
     "Options:",
     "  --strict  Treat unresolved variables and unknown statements as errors",
     "  --help    Show this message and exit."]
  | inspect =>
    ["Usage: dyescript inspect [OPTIONS] SOURCE",
     "",
     "  Interpret a DyeScript file and display the resulting store.",
     "",
     "  Shows collections (with variables), selectors, animations, motions, fonts",
     "  and the runtime modes the file switched on.",
     "",
     "Options:",
     "  --help  Show this message and exit."]

/-- The lines of help with a job, or with the command line as a whole. -/
def helpLines (verb : Option Verb) : List Text :=
  (match verb with
    | none => overview
    | some verb => verb.overview).map String.toList

end Dyehouse.Command
