import AsmLens.Text.Display

/-!
# Command-line flags

Arguments that begin with a dash are flags, wherever they stand; the others are kept in order, and so is everything
behind `--`. A flag takes its value behind `=` or from the next argument. A switch needs no value and never takes the
next argument. Of two values for a flag the later counts.
-/

namespace AsmLens.Command

/-- What the flags of a command say. -/
structure Options where
  /-- The file of the table, empty for the built-in one. -/
  isa : Bytes
  dump : Bool
  debug : Bool
  logEndpoint : Bytes
  help : Bool
deriving DecidableEq

/-- No flags given. -/
def Options.none : Options := ⟨[], false, false, [], false⟩

/-- How a value changes the options. -/
inductive Effect
  | text (set : Options → Bytes → Options)
  | switch (set : Options → Bool → Options)

/-- A flag, known by its name and perhaps by a letter. -/
structure Flag where
  name : Bytes
  letter : Option UInt8
  effect : Effect

namespace Flag

def isa : Flag := ⟨utf8 "isa", .none, .text fun o v => { o with isa := v }⟩

def dump : Flag := ⟨utf8 "dump", .none, .switch fun o v => { o with dump := v }⟩

/-- The flags of every command. -/
def shared : List Flag := [
  ⟨utf8 "debug", .none, .switch fun o v => { o with debug := v }⟩,
  ⟨utf8 "log-endpoint", .none, .text fun o v => { o with logEndpoint := v }⟩,
  ⟨utf8 "help", some 104, .switch fun o v => { o with help := v }⟩]

/-- The flag as it is named in messages. -/
def label (f : Flag) : Bytes :=
  match f.letter with
  | some letter => utf8 "-" ++ [letter] ++ utf8 ", --" ++ f.name
  | .none => utf8 "--" ++ f.name

end Flag

/-- Why arguments cannot be read. -/
inductive FlagError
  | badForm (argument : Bytes)
  | unknown (name : Bytes)
  | unknownLetter (letter : UInt8) (rest : Bytes)
  | missingValue (argument : Bytes)
  | badSwitch (value label : Bytes)
deriving DecidableEq

def FlagError.message : FlagError → Bytes
  | badForm argument => utf8 "bad flag syntax: " ++ argument
  | unknown name => utf8 "unknown flag: --" ++ name
  | unknownLetter letter rest => utf8 "unknown shorthand flag: " ++ Quoted.octet letter ++ utf8 " in -" ++ rest
  | missingValue argument => utf8 "flag needs an argument: " ++ argument
  | badSwitch value label =>
    utf8 "invalid argument " ++ Quoted.text value ++ utf8 " for " ++ Quoted.text label ++
      utf8 " flag: strconv.ParseBool: parsing " ++ Quoted.text value ++ utf8 ": invalid syntax"

/-- The spellings of a switch that is on. -/
def onSpellings : List Bytes := [utf8 "1", utf8 "t", utf8 "T", utf8 "TRUE", utf8 "true", utf8 "True"]

/-- The spellings of a switch that is off. -/
def offSpellings : List Bytes := [utf8 "0", utf8 "f", utf8 "F", utf8 "FALSE", utf8 "false", utf8 "False"]

/-- Gives a flag a value. -/
def Flag.apply (f : Flag) (o : Options) (value : Bytes) : Except FlagError Options :=
  match f.effect with
  | .text set => .ok (set o value)
  | .switch set =>
    if onSpellings.contains value then .ok (set o true)
    else if offSpellings.contains value then .ok (set o false)
    else .error (.badSwitch value f.label)

/-- Reads letters behind one dash; only switches have letters. What begins with `test.` is skipped. -/
def readLetters (flags : List Flag) (o : Options) : Bytes → Except FlagError Options
  | [] => .ok o
  | letter :: rest =>
    if (utf8 "test.").isPrefixOf (letter :: rest) then .ok o
    else
      match flags.find? fun f => f.letter == some letter with
      | .none => .error (.unknownLetter letter (letter :: rest))
      | some f =>
        match rest with
        | 61 :: b :: value => f.apply o (b :: value)
        | rest =>
          match f.apply o (utf8 "true") with
          | .error e => .error e
          | .ok o => readLetters flags o rest

/-- Reads arguments: the options and the arguments that are no flags. -/
def readFlags (flags : List Flag) : Options → List Bytes → Except FlagError (Options × List Bytes)
  | o, [] => .ok (o, [])
  | o, (45 :: 45 :: name) :: rest =>
    if name.isEmpty then .ok (o, rest)
    else if name.head? == some 45 || name.head? == some 61 then .error (.badForm (45 :: 45 :: name))
    else
      match flags.find? fun f => f.name == Bytes.before 61 name with
      | .none => .error (.unknown (Bytes.before 61 name))
      | some f =>
        match Bytes.after? 61 name, f.effect, rest with
        | some value, _, rest =>
          match f.apply o value with
          | .error e => .error e
          | .ok o => readFlags flags o rest
        | .none, .switch set, rest => readFlags flags (set o true) rest
        | .none, .text set, value :: rest => readFlags flags (set o value) rest
        | .none, .text _, [] => .error (.missingValue (45 :: 45 :: name))
  | o, (45 :: letter :: letters) :: rest =>
    match readLetters flags o (letter :: letters) with
    | .error e => .error e
    | .ok o => readFlags flags o rest
  | o, argument :: rest =>
    match readFlags flags o rest with
    | .error e => .error e
    | .ok (o, arguments) => .ok (o, argument :: arguments)

/-- A way to tell arguments apart: what the flags that a command knows are set to, and the arguments that are no flags.
Or why they cannot be read. -/
abbrev FlagReader := List Flag → List Bytes → Except Bytes (Options × List Bytes)

/-- Tells arguments apart as the rules above say. -/
def parseFlags : FlagReader := fun flags arguments => (readFlags flags .none arguments).mapError FlagError.message

end AsmLens.Command
