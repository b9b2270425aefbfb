/-
Command line arguments.

A command line is read level by level: options of the program, the name of a command, and options
and operands of that command. Options have long names and one value each, given after an equals sign
or as the next argument; a value that is a separate argument must not look like an option. An option
is given at most once on a level. After two hyphens every argument is an operand. A value after an
equals sign is checked at once; any other value is taken first and checked when the next argument of
its level is read or the level ends, so that a command is read before the value that stands in front
of its name is checked.
-/

import Lineage.Uuid

namespace Lineage.CommandLine

/-! ### Levels -/

/-- What a value must be. -/
inductive ValueKind where
  | text
  /-- A text that is not empty. -/
  | path
  | uuid
deriving DecidableEq, Repr

/-- Whether a value is what it must be. -/
def ValueKind.accepts : ValueKind → String → Bool
  | .text, _ => true
  | .path, value => value ≠ ""
  | .uuid, value => (Uuid.parse? value).isSome

/-- What may be given on a level: options, operands, and commands. -/
structure Grammar where
  options : List (String × ValueKind)
  operands : List ValueKind
  commands : List String
  /-- Whether the version can be asked for here. -/
  hasVersion : Bool

/-- What is read on one level. -/
structure Scanned where
  /-- The options with their values, in their order. -/
  options : List (String × String)
  operands : List String
  /-- The last value, if it is not checked yet, with the name of its option if it has one. -/
  pending : Option (Option String × String)
deriving Repr

namespace Scanned

/-- A level before its first argument. -/
def empty : Scanned := ⟨[], [], none⟩

/-- Adds an option that is not there yet, with a value that fits. -/
def addOption (g : Grammar) (s : Scanned) (name value : String) : Option Scanned :=
  if (g.options.lookup name).any (·.accepts value) ∧ (s.options.lookup name).isNone then
    some { s with options := s.options ++ [(name, value)] }
  else none

/-- Adds an operand that fits. -/
def addOperand (g : Grammar) (s : Scanned) (value : String) : Option Scanned :=
  if (g.operands[s.operands.length]?).any (·.accepts value) then
    some { s with operands := s.operands ++ [value] }
  else none

/-- Checks the last value and adds it. -/
def settle (g : Grammar) (s : Scanned) : Option Scanned :=
  let settled := { s with pending := none }
  match s.pending with
  | none => some settled
  | some (some name, value) => settled.addOption g name value
  | some (none, value) => settled.addOperand g value

end Scanned

/-- How reading a level ends. -/
inductive Scan where
  /-- An argument does not fit. -/
  | misfit
  | showHelp
  | showVersion
  /-- All arguments are read. -/
  | finished (scanned : Scanned)
  /-- An argument is the name of a command. -/
  | command (scanned : Scanned) (name : String) (rest : List String)
deriving Repr

/-- The end of a level that leaves these arguments, if they fit. -/
def Scan.ofScanned? (scanned : Option Scanned) : Scan :=
  match scanned with
  | some scanned => .finished scanned
  | none => .misfit

/-- Whether an argument looks like an option. A single hyphen does not. -/
def looksLikeOption (arg : String) : Bool :=
  match arg.toList with
  | '-' :: _ :: _ => true
  | _ => false

/-- The name and the value of an argument after its two hyphens. -/
def splitOption (cs : List Char) : String × Option String :=
  (String.ofList (cs.takeWhile (· ≠ '=')),
    match cs.dropWhile (· ≠ '=') with
    | [] => none
    | _ :: value => some (String.ofList value))

/-- Reads the arguments of a level. -/
def scan (g : Grammar) (s : Scanned) : List String → Scan
  | [] => .ofScanned? (s.settle g)
  | arg :: args =>
    if g.commands.contains arg then .command s arg args
    else
      match s.settle g with
      | none => .misfit
      | some s =>
        match arg.toList with
        | ['-', '-'] => .ofScanned? (args.foldlM (fun s value => s.addOperand g value) s)
        | '-' :: '-' :: cs =>
          match splitOption cs, args with
          | ("help", none), _ => .showHelp
          | (name, some value), args =>
            match s.addOption g name value with
            | some s => scan g s args
            | none => .misfit
          | (name, none), args =>
            if (g.options.lookup name).isSome then
              match args with
              | value :: args =>
                if looksLikeOption value then .misfit
                else scan g { s with pending := some (some name, value) } args
              | [] => .misfit
            else if g.hasVersion ∧ name = "version" then .showVersion
            else .misfit
        | '-' :: 'h' :: _ => .showHelp
        | '-' :: 'V' :: _ => if g.hasVersion then .showVersion else .misfit
        | '-' :: _ :: _ => .misfit
        | _ =>
          if s.operands.length < g.operands.length then
            scan g { s with pending := some (none, arg) } args
          else .misfit

/-! ### Commands -/

/-- A command with its arguments. -/
inductive Command where
  | ping
  | persist (file : String) (mode : Option String)
  | get (id : Uuid)
  | list (definitionId tenantId version : Option String)
  | deleteOne (id : Uuid)
  | deleteMany (definitionId : String) (tenantId : Option String)
deriving DecidableEq, Repr

/-- A command line: where the configuration and the database are, and the command. -/
structure Invocation where
  config : Option String
  database : Option String
  command : Command
deriving DecidableEq, Repr

/-- What a command line asks for. -/
inductive Request where
  | misuse
  | help
  | version
  | invoke (invocation : Invocation)
deriving Repr

/-- The options that may stand before or after the name of a command. -/
def globalOptions : List (String × ValueKind) := [("config", .path), ("db", .path)]

/-- The arguments of the program. -/
def programGrammar : Grammar where
  options := globalOptions
  operands := []
  commands := ["ping", "persist", "get", "list", "delete", "help"]
  hasVersion := true

/-- The arguments of a command. -/
def commandGrammar (name : String) : Grammar :=
  let (options, operands) : List (String × ValueKind) × List ValueKind :=
    match name with
    | "persist" => ([("mode", .text)], [.path])
    | "get" => ([], [.uuid])
    | "list" => ([("definition-id", .text), ("tenant-id", .text), ("version", .text)], [])
    | "delete" => ([("id", .uuid), ("definition-id", .text), ("tenant-id", .text)], [])
    | _ => ([], [])
  { options := globalOptions ++ options, operands := operands, commands := [], hasVersion := false }

/-- The command of a name with what is read after it. -/
def command? (name : String) (s : Scanned) : Option Command :=
  let value (option : String) : Option String := s.options.lookup option
  match name, s.operands with
  | "ping", [] => some .ping
  | "persist", [file] => some (.persist file (value "mode"))
  | "get", [id] => (Uuid.parse? id).map .get
  | "list", [] => some (.list (value "definition-id") (value "tenant-id") (value "version"))
  | "delete", [] =>
    match value "id", value "definition-id", value "tenant-id" with
    | some id, none, none => (Uuid.parse? id).map .deleteOne
    | none, some definitionId, tenantId => some (.deleteMany definitionId tenantId)
    | _, _, _ => none
  | _, _ => none

/-- The value of a global option: the one after the name of the command counts first. -/
def global (name : String) (program command : Scanned) : Option String :=
  (command.options.lookup name).or (program.options.lookup name)

/-- What asking for help asks for: at most one topic may be named, a command. -/
def helpRequest : List String → Request
  | [] => .help
  | [topic] => if programGrammar.commands.contains topic then .help else .misuse
  | _ => .misuse

/-- What the arguments of the program ask for. -/
def request (args : List String) : Request :=
  match scan programGrammar .empty args with
  | .misfit | .finished _ => .misuse
  | .showHelp => .help
  | .showVersion => .version
  | .command program name rest =>
    if name = "help" then helpRequest rest
    else
      match scan (commandGrammar name) .empty rest with
      | .finished scanned =>
        match program.settle programGrammar, command? name scanned with
        | some program, some command =>
          .invoke ⟨global "config" program scanned, global "db" program scanned, command⟩
        | _, _ => .misuse
      | .showHelp => .help
      | _ => .misuse

end Lineage.CommandLine
