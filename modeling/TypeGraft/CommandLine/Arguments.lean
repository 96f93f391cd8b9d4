import TypeGraft.Merge.Event

/-
  The arguments of the program.

  Options are read from left to right.  Each may be given
  once, with its value behind an equals sign or as the next
  argument; a value of the second kind does not start with a
  dash, unless it is just a dash.  Behind two dashes
  everything is a source file.

  Key definitions include:
    * `OptionName`
    * `Arguments`
    * `Request`
    * `Request.ofArguments`
-/

namespace TypeGraft

------------------------------------------------------------
-- Options
------------------------------------------------------------

/- An option that takes a value. -/
inductive OptionName where
  | ast
  | strategy
  | flow
  | root
  | dump
  | config
  | logLevel
deriving DecidableEq, Repr

namespace OptionName

/- The name of an option. -/
def name : OptionName → String
  | .ast => "ast"
  | .strategy => "strategy"
  | .flow => "flow"
  | .root => "root"
  | .dump => "dump"
  | .config => "config"
  | .logLevel => "log-level"

/- The options that take a value. -/
def all : List OptionName :=
  [.ast, .strategy, .flow, .root, .dump, .config, .logLevel]

/- May the option have this value? -/
def accepts
    (o : OptionName)
    (value : String) : Bool :=
  match o with
  | .strategy => (Strategy.all.map Strategy.name).contains value
  | .logLevel => true
  | _ => value != ""

end OptionName

/- The arguments of a merge. -/
structure Arguments where
  ast : String
  source : String
  strategy : Option Strategy := none
  flow : Option String := none
  root : Option String := none
  dump : Option String := none
  config : Option String := none
  stats : Bool := false
deriving DecidableEq, Repr

/- What the program is asked to do. -/
inductive Request where
  | merge (a : Arguments)
  | version
  /- The arguments make no sense. -/
  | invalid
deriving DecidableEq, Repr

------------------------------------------------------------
-- Reading
------------------------------------------------------------

/- What has been read so far. -/
structure ArgumentState where
  values : List (OptionName × String) := []
  stats : Bool := false
  source : Option String := none

namespace ArgumentState

/- Give an option its value, unless it has one. -/
def setOption?
    (s : ArgumentState)
    (o : OptionName)
    (value : String) : Option ArgumentState :=
  if (s.values.lookup o).isSome || !o.accepts value then none
  else some { s with values := (o, value) :: s.values }

/- Ask for statistics, unless that has been done. -/
def setStats?
    (s : ArgumentState) : Option ArgumentState :=
  if s.stats then none else some { s with stats := true }

/- Name the source file, unless that has been done. -/
def setSource?
    (s : ArgumentState)
    (path : String) : Option ArgumentState :=
  if s.source.isSome || path = "" then none
  else some { s with source := some path }

/- The arguments of a merge, if none is missing. -/
def finish
    (s : ArgumentState) : Request :=
  match s.values.lookup .ast, s.source with
  | some ast, some source =>
      .merge {
        ast := ast
        source := source
        strategy :=
          (s.values.lookup .strategy).bind (fun v =>
            Strategy.all.find? (fun x => x.name = v))
        flow := s.values.lookup .flow
        root := s.values.lookup .root
        dump := s.values.lookup .dump
        config := s.values.lookup .config
        stats := s.stats }
  | _, _ => .invalid

end ArgumentState

/- One argument. -/
inductive ArgumentShape where
  /- Two dashes and nothing else. -/
  | divider
  /- Two dashes and a name, perhaps with a value. -/
  | long (name : String) (value : Option String)
  /- A dash and letters. -/
  | short (letters : List Char)
  | plain (text : String)
deriving DecidableEq, Repr

/- The shape of an argument. -/
def ArgumentShape.of
    (argument : String) : ArgumentShape :=
  match argument.toList with
  | ['-', '-'] => .divider
  | '-' :: '-' :: cs =>
      let name := cs.takeWhile (fun c => c != '=')
      match cs.dropWhile (fun c => c != '=') with
      | [] => .long (String.ofList name) none
      | _ :: value =>
          .long (String.ofList name) (some (String.ofList value))
  | '-' :: c :: cs => .short (c :: cs)
  | _ => .plain argument

/- Read source files behind two dashes. -/
def readSources
    (s : ArgumentState) : List String → Request
  | [] => s.finish
  | path :: rest =>
      match s.setSource? path with
      | some s => readSources s rest
      | none => .invalid

/-
  Read arguments from left to right; `waiting` is the option
  whose value comes next.
-/
def readArguments
    (waiting : Option OptionName)
    (s : ArgumentState) : List String → Request
  | [] =>
      match waiting with
      | some _ => .invalid
      | none => s.finish
  | argument :: rest =>
      match waiting, ArgumentShape.of argument with
      | some o, .plain value =>
          match s.setOption? o value with
          | some s => readArguments none s rest
          | none => .invalid
      | some _, _ => .invalid
      | none, .divider => readSources s rest
      | none, .plain path =>
          match s.setSource? path with
          | some s => readArguments none s rest
          | none => .invalid
      | none, .short ('V' :: _) => .version
      | none, .short _ => .invalid
      | none, .long "version" none => .version
      | none, .long "stats" none =>
          match s.setStats? with
          | some s => readArguments none s rest
          | none => .invalid
      | none, .long name value =>
          match
            OptionName.all.find? (fun o => o.name = name), value
          with
          | none, _ => .invalid
          | some o, none => readArguments (some o) s rest
          | some o, some v =>
              match s.setOption? o v with
              | some s => readArguments none s rest
              | none => .invalid

/- What some arguments ask for. -/
def Request.ofArguments
    (arguments : List String) : Request :=
  readArguments none {} arguments

end TypeGraft
