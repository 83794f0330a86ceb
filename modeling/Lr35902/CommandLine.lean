import Lr35902.Session

/-!
# The command line

`CommandLine.parse` reads the arguments of the program from left to right.  An option's value stands
behind `=` or in the next argument; an argument that begins with a hyphen is never a value, unless
it is a single hyphen.  After `--` every argument names a file.  A request for help or for the
version is answered as soon as it is reached, so later mistakes do not matter; no option may be
given twice.
-/

namespace Lr35902

namespace CommandLine

/-- What a run is asked to do. -/
structure Options where
  /-- The file with the cartridge. -/
  cartridge : Option String := none
  /-- The file with a boot program. -/
  boot : Option String := none
  /-- Start at the cartridge's entry point. -/
  skipBoot : Bool := false
  maxCycles : Option Nat := none
  maxFrames : Option Nat := none
  /-- Print the registers at the end. -/
  dumpRegs : Bool := false
deriving DecidableEq

/-- What the program is asked to do. -/
inductive Command where
  | run (options : Options)
  | help
  | version
deriving DecidableEq

/-- An option that takes a value. -/
inductive ValueOption where
  | boot | maxCycles | maxFrames
deriving DecidableEq

/-- An option without a value. -/
inductive Switch where
  | skipBoot | dumpRegs | help | version
deriving DecidableEq

/-- Why the arguments make no sense. -/
inductive UsageError where
  /-- There is no such option. -/
  | unknown (arg : String)
  /-- The value of an option is missing or empty. -/
  | missingValue (option : ValueOption)
  /-- The value is no number that fits. -/
  | invalidNumber (option : ValueOption) (text : String)
  /-- A switch was given a value. -/
  | unexpectedValue (arg : String)
  /-- An option is given twice. -/
  | repeated (arg : String)
  /-- There is more than one cartridge. -/
  | extraArgument (arg : String)
  /-- The name of the cartridge is empty. -/
  | emptyPath
  /-- A boot program is given but skipped. -/
  | conflict
deriving DecidableEq

namespace ValueOption

/-- The option's name without the hyphens. -/
def name : ValueOption → String
  | boot => "boot"
  | maxCycles => "max-cycles"
  | maxFrames => "max-frames"

/-- The option with the given name. -/
def ofName? (s : String) : Option ValueOption :=
  [boot, maxCycles, maxFrames].find? fun o => o.name == s

end ValueOption

namespace Switch

/-- The switch's name without the hyphens. -/
def name : Switch → String
  | skipBoot => "skip-boot"
  | dumpRegs => "dump-regs"
  | help => "help"
  | version => "version"

/-- The switch with the given name. -/
def ofName? (s : String) : Option Switch :=
  [skipBoot, dumpRegs, help, version].find? fun o => o.name == s

/-- The switch with the given letter. -/
def ofLetter? : Char → Option Switch
  | 'h' => some help
  | 'V' => some version
  | _ => none

end Switch

/-- The text of the error. -/
def UsageError.message : UsageError → String
  | unknown arg => s!"unexpected argument '{arg}'"
  | missingValue option => s!"a value is required for '--{option.name}'"
  | invalidNumber option text => s!"invalid value '{text}' for '--{option.name}'"
  | unexpectedValue arg => s!"unexpected value in '{arg}'"
  | repeated arg => s!"'--{arg}' cannot be used twice"
  | extraArgument arg => s!"unexpected argument '{arg}'"
  | emptyPath => "a value is required for the cartridge"
  | conflict => "'--skip-boot' cannot be used with '--boot'"

/-! ### Single arguments -/

/-- The forms of an argument. -/
inductive Token where
  /-- The mark after which every argument is plain. -/
  | escape
  /-- A name behind two hyphens, with the value behind an equals sign if there is one. -/
  | long (name : String) (value : Option String)
  /-- A letter behind one hyphen. -/
  | short (letter : Char)
  /-- Anything else, a single hyphen included. -/
  | plain

/-- The form of an argument. -/
def Token.ofArg (arg : String) : Token :=
  match arg.toList with
  | ['-', '-'] => .escape
  | '-' :: '-' :: body =>
    let name := String.ofList (body.takeWhile (· != '='))
    match body.dropWhile (· != '=') with
    | _ :: value => .long name (some (String.ofList value))
    | [] => .long name none
  | '-' :: letter :: _ => .short letter
  | _ => .plain

/-- The largest number that an option takes. -/
def maxNumber : Nat := 0xFFFFFFFFFFFFFFFF

/-- The number that a text of decimal digits stands for, which may begin with a plus sign. -/
def number? (text : String) : Option Nat :=
  let digits := match text.toList with
    | '+' :: rest => rest
    | all => all
  if digits ≠ [] ∧ digits.all Char.isDigit then
    let n := digits.foldl (fun n c => 10 * n + (c.toNat - '0'.toNat)) 0
    if n ≤ maxNumber then some n else none
  else none

/-! ### Collecting the options -/

namespace Options

/-- The options with a value for `option`. -/
def assign (o : Options) (option : ValueOption) (value : String) : Except UsageError Options := do
  if value.isEmpty then throw (.missingValue option)
  match option with
  | .boot =>
    if o.boot.isSome then throw (.repeated option.name)
    return { o with boot := some value }
  | .maxCycles =>
    if o.maxCycles.isSome then throw (.repeated option.name)
    let some n := number? value | throw (.invalidNumber option value)
    return { o with maxCycles := some n }
  | .maxFrames =>
    if o.maxFrames.isSome then throw (.repeated option.name)
    let some n := number? value | throw (.invalidNumber option value)
    return { o with maxFrames := some n }

/-- The options with a plain argument, which names the cartridge. -/
def position (o : Options) (arg : String) : Except UsageError Options := do
  if o.cartridge.isSome then throw (.extraArgument arg)
  if arg.isEmpty then throw .emptyPath
  return { o with cartridge := some arg }

/-- The command for the options when all arguments are read. -/
def finish (o : Options) : Except UsageError Command :=
  if o.skipBoot ∧ o.boot.isSome then .error .conflict else .ok (.run o)

/-- The run that the options ask for, given the files that they name. -/
def request (o : Options) (cartridge boot : Option ImageFile) : RunRequest where
  cartridge := cartridge
  boot := boot
  skipBoot := o.skipBoot
  limits := { maxCycles := o.maxCycles, maxFrames := o.maxFrames }

end Options

/-- Reads the arguments behind the mark `--`. -/
def parsePlain (o : Options) : List String → Except UsageError Command
  | [] => o.finish
  | arg :: rest => do parsePlain (← o.position arg) rest

/-- Reads the arguments.  In `pending` stands the option whose value is the next argument. -/
def parseFrom (o : Options) (pending : Option ValueOption) :
    List String → Except UsageError Command
  | [] =>
    match pending with
    | some option => .error (.missingValue option)
    | none => o.finish
  | arg :: rest =>
    match pending, Token.ofArg arg with
    | some option, .plain => do parseFrom (← o.assign option arg) none rest
    | some option, _ => .error (.missingValue option)
    | none, .plain => do parseFrom (← o.position arg) none rest
    | none, .escape => parsePlain o rest
    | none, .short letter =>
      match Switch.ofLetter? letter with
      | some .help => .ok .help
      | some .version => .ok .version
      | _ => .error (.unknown arg)
    | none, .long name value =>
      match ValueOption.ofName? name, value with
      | some option, some text => do parseFrom (← o.assign option text) none rest
      | some option, none => parseFrom o (some option) rest
      | none, some _ =>
        .error (if (Switch.ofName? name).isSome then .unexpectedValue arg else .unknown arg)
      | none, none =>
        match Switch.ofName? name with
        | some .help => .ok .help
        | some .version => .ok .version
        | some .skipBoot =>
          if o.skipBoot then .error (.repeated name)
          else parseFrom { o with skipBoot := true } none rest
        | some .dumpRegs =>
          if o.dumpRegs then .error (.repeated name)
          else parseFrom { o with dumpRegs := true } none rest
        | none => .error (.unknown arg)

/-- The command that the arguments ask for. -/
def parse (args : List String) : Except UsageError Command := parseFrom {} none args

/-! ### Texts -/

/-- The program's name and version. -/
def versionText : String := "pocketboy 0.1.0"

/-- How to call the program. -/
def helpText : String :=
  "Run a Game Boy program without a display\n\n" ++
  "Usage: pocketboy [OPTIONS] [CARTRIDGE]\n\n" ++
  "Arguments:\n" ++
  "  [CARTRIDGE]       Cartridge image\n\n" ++
  "Options:\n" ++
  "      --boot FILE      Boot program to use instead of the built-in one\n" ++
  "      --skip-boot      Start at 0x0100 as if the boot program had already run\n" ++
  "      --max-cycles N   Stop after this many cycles\n" ++
  "      --max-frames N   Stop after this many frames\n" ++
  "      --dump-regs      Print the registers when the run ends\n" ++
  "  -h, --help           Print help\n" ++
  "  -V, --version        Print version"

end CommandLine

end Lr35902
