import Dyehouse.Diagnostic
import Dyehouse.Statement.Basic

/-!
# What a statement has to say

A statement that cannot be carried out fails with a `Fault` and does nothing else.  A
statement that is carried out may still have a `Remark` to make.  Both are causes; their
wording is given once, in `Fault.message` and `Remark.event`.

An `Event` is what is heard of a statement from outside, in order: a diagnostic, or a note
for readers who want to follow every step.
-/

namespace Dyehouse

/-- How the tokens after a keyword fail to have the shape that the keyword requires. -/
inductive Misfit where
  /-- The last name has no value. -/
  | unpaired (keyword : Keyword) (name : Text)
  /-- There is no collection to enter. -/
  | noCollection
  /-- There is nothing to write declarations under. -/
  | noSelector
  /-- Every item of the selector list is blank. -/
  | blankSelectors (list : Text)
  /-- The last property has no value. -/
  | noValue (property : Text)
  /-- A misfit told in free words. -/
  | described (text : Text)
  deriving DecidableEq, Repr

/-- What is said about tokens of the wrong shape. -/
def Misfit.message : Misfit → Text
  | unpaired keyword name =>
    keyword.word ++ " statement has a name without a value: ".toList ++ Text.quoted name
  | noCollection => "scope statement needs a collection name".toList
  | noSelector => "style statement needs a selector".toList
  | blankSelectors list => "Invalid selector list: ".toList ++ Text.quoted list
  | noValue property => "Property ".toList ++ Text.quoted property ++ " has no value".toList
  | described text => text

/-- Why a statement cannot be carried out. -/
inductive Fault where
  /-- The tokens after the keyword have the wrong shape. -/
  | misfit (cause : Misfit)
  /-- A variable cannot be given this name. -/
  | invalidName (name : Text)
  /-- The language does not have this feature yet. -/
  | unsupported (feature : Text)
  /-- In strict mode, nothing goes by this name. -/
  | unresolved (name : Text)
  /-- In strict mode, no keyword is spelled like this. -/
  | unknown (keyword : Text)
  /-- A fault told in free words. -/
  | described (text : Text)
  deriving DecidableEq, Repr

/-- What is said about a statement that cannot be carried out. -/
def Fault.message : Fault → Text
  | misfit cause => cause.message
  | invalidName name => "Invalid variable name: ".toList ++ Text.quoted name
  | unsupported feature => feature ++ " is not supported yet".toList
  | unresolved name => "Unresolved variable: &".toList ++ name
  | unknown keyword => "Unknown statement: ".toList ++ Text.quoted keyword
  | described text => text

/-- The version of the language that is compiled here. -/
def languageVersion : Text := "0.3.0".toList

/-- What a statement that is carried out may have to say. -/
inductive Remark where
  /-- A collection was given a tag that asks for no route. -/
  | unknownTag (tag : Text)
  /-- The source was digested by another version of the language. -/
  | otherVersion (version : Option Text)
  /-- The source has been digested, and is held to strict mode from here on. -/
  | dyegestEnabled
  /-- The statement starts with no keyword and was passed over. -/
  | ignored (keyword : Text)
  /-- A class that is not defined was applied. -/
  | undefinedClass (name : Text)
  deriving DecidableEq, Repr

/-- What is heard of a statement from outside. -/
inductive Event where
  /-- A finding that is kept in the log. -/
  | diagnosed (d : Diagnostic)
  /-- A note for readers who want to follow every step. -/
  | noted (text : Text)
  deriving DecidableEq, Repr

namespace Event

/-- The diagnostic, if the event is one that is kept in the log. -/
def diagnostic? : Event → Option Diagnostic
  | diagnosed d => some d
  | noted _ => none

/-- The log that comes of a list of events. -/
def log (events : List Event) : Log :=
  events.filterMap diagnostic?

/-- The event as a line for readers who want to follow every step. -/
def traceLine : Event → Text
  | diagnosed d => d.severity.name ++ " dyescript: ".toList ++ d.text
  | noted text => "DEBUG dyescript: ".toList ++ text

end Event

/-- The part of the compiler in whose name statements report. -/
def reporter : Text := "DyeInterpreter".toList

/-- A diagnostic about the statement at `index` of `file`. -/
def diagnose (file : Option Text) (index : Option Int) (severity : Severity) (message : Text) :
    Event :=
  .diagnosed { severity, message, component := reporter, file, index }

/-- A failed statement, as it is heard from outside. -/
def Fault.event (file : Option Text) (index : Option Int) (fault : Fault) : Event :=
  diagnose file index .error fault.message

/-- A remark of the statement at `index` of `file`, as it is heard from outside. -/
def Remark.event (file : Option Text) (index : Option Int) : Remark → Event
  | unknownTag tag =>
    diagnose file index .warning
      ("Unknown scope type ".toList ++ Text.quoted tag ++
        "; styles in this scope are written as implicit".toList)
  | otherVersion version =>
    diagnose file index .warning
      ("This file was digested by a different version of DyeScript (".toList ++
        version.getD Text.missing ++
        "). It may not work as expected; digest the source again with DyeScript ".toList ++
        languageVersion ++ ['.'])
  | dyegestEnabled => diagnose file index .info "Dyegest mode enabled (strict)".toList
  | ignored keyword =>
    .noted ("Ignoring unknown statement ".toList ++ Text.quoted keyword ++ " at line ".toList ++
      (index.map Text.ofInt).getD Text.missing)
  | undefinedClass name =>
    .noted ("Class ".toList ++ Text.quoted name ++ " is not defined; nothing to apply".toList)

end Dyehouse
