import Dyehouse.State
import Dyehouse.Text.Case

/-!
# What statements do

Every keyword has a handler, which checks its words and writes to the state as it goes.  A
handler may fail at any point, and nothing is taken back when it does: what has been written
by then stays written.  That a statement with a fault leaves no trace is therefore a matter
of the order in which the handlers check and write.
-/

namespace Dyehouse

/-- The tokens taken two by two (`_pairs`), or the last token if its partner is missing. -/
def pairUp : List Text → Except Text (List (Text × Text))
  | [] => .ok []
  | [last] => .error last
  | name :: value :: rest =>
    match pairUp rest with
    | .error last => .error last
    | .ok pairs => .ok ((name, value) :: pairs)

/-- The declarations that comma lists of properties and their values stand for, one for
    each property, with the property in the spelling with capitals. -/
def declarations (pairs : List (Text × Text)) : List (Text × Text) :=
  pairs.flatMap fun pair => (Text.items pair.1).map fun property =>
    (Text.camelCase property, pair.2)

/-- The selectors that a target of a class stands for: a class query stands for the
    selector of that class, anything else is a comma list of selectors. -/
def targetSelectors (target : Text) : List Text :=
  match ClassQuery.ofToken? target with
  | some name => ['.' :: name]
  | none => target.splitOn ','

/-- Work on a statement.  Work that fails leaves behind the progress made by then. -/
abbrev Action := EStateM Fault Progress

namespace Action

/-! ### Reading and writing -/

def context : Action Context :=
  return (← get).state.context

def withContext (f : Context → Context) : Action Unit :=
  modify fun p => p.withContext f

def withRegistry (f : Registry → Registry) : Action Unit :=
  withContext fun c => c.withRegistry f

def edit (e : Edit) : Action Unit :=
  modify fun p => p.edit e

def remark (r : Remark) : Action Unit :=
  modify fun p => p.remark r

/-- Tokens two by two; `misfit` says what is wrong if the last one has no partner. -/
def pairs (misfit : Text → Misfit) (words : List Text) : Action (List (Text × Text)) :=
  match pairUp words with
  | .ok pairs => pure pairs
  | .error last => throw (.misfit (misfit last))

/-! ### Variables and scopes -/

/-- Give variables of the active collection explicit values.  All names are looked at before
    any value is given. -/
def assign (words : List Text) : Action Unit := do
  let pairs ← pairs (.unpaired .assign) words
  pairs.forM fun pair => do
    unless Name.isValid pair.1 do throw (.invalidName pair.1)
  pairs.forM fun pair => withRegistry fun r => r.updateActive fun c => c.assign pair.1 pair.2

/-- Give variables of the active collection defaults.  Their names are not checked. -/
def assignDefaults (words : List Text) : Action Unit := do
  let pairs ← pairs (.unpaired .assignDefault) words
  pairs.forM fun pair =>
    withRegistry fun r => r.updateActive fun c => c.assignDefault pair.1 pair.2

/-- Make a collection the active one and load the others beneath it. -/
def enter : List Text → Action Unit
  | [] => throw (.misfit .noCollection)
  | name :: others => do
    withRegistry fun r => r.activate name
    others.forM fun other => withRegistry fun r => r.load other

/-- Give the active collection another tag; without one it gets the tag that every
    collection starts with. -/
def retag (words : List Text) : Action Unit := do
  let tag := words.headD (Route.tag .implicit)
  withRegistry fun r => r.updateActive fun c => c.retag tag
  unless (Route.ofTag? tag).isSome do remark (.unknownTag tag)

/-! ### Styles -/

/-- Write one declaration under every selector, by the route of the active collection. -/
def declare (selectors : List Text) (property value : Text) : Action Unit := do
  let active := (← context).registry.active
  selectors.forM fun selector => edit (.declare active selector property value)

def style : List Text → Action Unit
  | [] => throw (.misfit .noSelector)
  | list :: rest => do
    let selectors := Text.items list
    if selectors.isEmpty then throw (.misfit (.blankSelectors list))
    let pairs ← pairs .noValue rest
    (declarations pairs).forM fun declaration => declare selectors declaration.1 declaration.2

def applyClass (name : Text) (targets : List Text) : Action Unit :=
  targets.forM fun target => edit (.copyClass (targetSelectors target) name)

/-! ### Directives -/

/-- Hold the source to strict mode from here on, as one that has been digested. -/
def enableDyegest : Action Unit := do
  withContext Context.enableStrict
  withContext Context.enableDyegest
  remark .dyegestEnabled

/-- Compare the version that digested the source with the one that is compiled here. -/
def checkVersion (words : List Text) : Action Unit :=
  unless words.head? = some languageVersion do remark (.otherVersion words.head?)

/-! ### From tokens to handlers -/

def perform (keyword : Keyword) (words : List Text) : Action Unit :=
  match keyword with
  | .assign => assign words
  | .assignDefault => assignDefaults words
  | .enter => enter words
  | .style | .classStyle => style words
  | .importModule | .exposeTo | .exportTo => throw (.unsupported keyword.word)
  | .retag => retag words
  | .dyegest => enableDyegest
  | .version => checkVersion words

/-- Evaluate tokens from the left, up to the first fault. -/
def evaluateAll (tokens : List Text) : Action (List Text) := do
  match (← context).evaluateAll tokens with
  | .ok values => return values
  | .error fault => throw fault

def dispatch (query : Text) (words : List Text) : Action Unit :=
  match ClassQuery.ofToken? query with
  | some name => applyClass name words
  | none =>
    match Keyword.ofToken? query with
    | some keyword => perform keyword words
    | none => do
      if (← context).modes.strict then throw (.unknown query)
      remark (.ignored query)

/-- Carry out a statement: its tokens are evaluated, and then it is handed on. -/
def execute (content : List Text) : Action Unit := do
  match ← evaluateAll content with
  | [] => return
  | query :: words => dispatch query words

end Action

end Dyehouse
