import Statechart.CommandLine.Usage
import Statechart.Text.Digit

/-!
# Options and words on a command line

The arguments of a command are options and words. An option begins with a hyphen; a long one may
be shortened as long as it stays unambiguous, and takes its value after an equals sign or from
the next argument; a short one may also have its value attached. A lone hyphen, a negative number
and an argument with a space in it are words unless they name an option, and after the mark `--`
all arguments are words. An option with the mark attached in place of its value is left blank.

A command takes one file, and some commands take any number of further words, but only those
that stand together with the file. What is left over is returned.

`classifyAll` tells options from words, `Command.sort` hands options and words to their places.
-/

namespace Statechart.CommandLine

/-- What an option is set to: a value, or nothing at all. -/
inductive Setting (α : Type)
  | value (value : α)
  | blank
  deriving DecidableEq, Repr

namespace Setting

variable {α β : Type}

/-- What an option is set to by a text. The mark is taken off, which leaves the option blank. -/
def ofText (s : String) : Setting String := if s = "--" then blank else value s

/-- Reads the value of a setting, if it has one. -/
def read {ε : Type} (f : α → Except ε β) : Setting α → Except ε (Setting β)
  | value a => (f a).map value
  | blank => .ok blank

/-- The value of a setting that is not blank. -/
def value? : Setting α → Option α
  | value a => some a
  | blank => none

end Setting

/-- An option: its names, and what it does to the settings; help takes no value. -/
structure OptionSpec (α : Type) where
  names : List String
  apply : Option (Setting String → α → Except UsageProblem α)

namespace OptionSpec

variable {α : Type}

/-- The names of an option together. -/
def title (o : OptionSpec α) : String := "/".intercalate o.names

/-- The option that asks for help. -/
def help : OptionSpec α := ⟨["-h", "--help"], none⟩

end OptionSpec

/-! ## Telling options from words -/

/-- An option as it stands on the command line: the name it was given by, and the value that
stands in the same argument. -/
structure OptionUse (α : Type) where
  spec : OptionSpec α
  name : String
  value : Option String

/-- What an argument is. -/
inductive Argument (α : Type)
  /-- An option. -/
  | option (use : OptionUse α)
  /-- An option that the command does not have. -/
  | unknown (text : String)
  /-- A word. -/
  | word (text : String)
  /-- The mark `--` before words. -/
  | mark

/-- Whether a text begins with another one. -/
def startsWith (s front : String) : Bool := front.toList.isPrefixOf s.toList

/-- The parts of a text before and after its first equals sign, if it has one. -/
def splitEquals (s : String) : String × Option String :=
  let front := s.toList.takeWhile (· != '=')
  match s.toList.drop front.length with
  | _ :: r => (String.ofList front, some (String.ofList r))
  | [] => (s, none)

/-- Decimal digits of any script, at least one. -/
def isDigits (cs : List Char) : Bool :=
  !cs.isEmpty && cs.all fun c => (Text.decimalValue? c).isSome

/-- Whether an argument is a negative number: a hyphen, then digits of which some may stand
before a point; a line feed may follow. -/
def isNegativeNumber (s : String) : Bool :=
  match s.toList with
  | '-' :: r =>
    let body := if r.getLast? = some '\n' then r.dropLast else r
    let whole := body.takeWhile (· != '.')
    match body.drop whole.length with
    | [] => isDigits whole
    | _ :: fraction => (whole.isEmpty || isDigits whole) && isDigits fraction
  | _ => false

section Arguments

variable {α : Type}

/-- The names of all options, each with its option. -/
def namedOptions (options : List (OptionSpec α)) : List (String × OptionSpec α) :=
  options.flatMap fun o => o.names.map fun n => (n, o)

/-- The option of a name. -/
def optionNamed? (options : List (OptionSpec α)) (name : String) : Option (OptionSpec α) :=
  (namedOptions options).lookup name

/-- The options that a long argument may be short for. -/
def longUses (options : List (OptionSpec α)) (s : String) : List (OptionUse α) :=
  let (front, value) := splitEquals s
  (namedOptions options).filterMap fun (n, o) =>
    if startsWith n front then some ⟨o, n, value⟩ else none

/-- The options that an argument with one hyphen may stand for, with a value attached or short
for one. -/
def shortUses (options : List (OptionSpec α)) (s : String) : List (OptionUse α) :=
  let front := String.ofList (s.toList.take 2)
  (namedOptions options).filterMap fun (n, o) =>
    if n = front then some ⟨o, n, some (String.ofList (s.toList.drop 2))⟩
    else if startsWith n s then some ⟨o, n, none⟩
    else none

/-- The options that an argument may stand for. -/
def possibleUses (options : List (OptionSpec α)) (s : String) : List (OptionUse α) :=
  if startsWith s "--" then longUses options s else shortUses options s

/-- What an argument that names no option is. -/
def unnamed (s : String) : Argument α :=
  if isNegativeNumber s || s.toList.contains ' ' then .word s else .unknown s

/-- What an argument before `--` is. -/
def classify (options : List (OptionSpec α)) (s : String) : Except UsageProblem (Argument α) :=
  if !startsWith s "-" then .ok (.word s)
  else
    match optionNamed? options s, splitEquals s with
    | some o, _ => .ok (.option ⟨o, s, none⟩)
    | none, (front, value) =>
      if s = "-" then .ok (.word s)
      else
        match value, optionNamed? options front with
        | some v, some o => .ok (.option ⟨o, front, some v⟩)
        | _, _ =>
          match possibleUses options s with
          | [] => .ok (unnamed s)
          | [use] => .ok (.option use)
          | uses => .error (.ambiguous s (uses.map (·.name)))

/-- What the arguments of a command are. -/
def classifyAll (options : List (OptionSpec α)) :
    List String → Except UsageProblem (List (Argument α))
  | [] => .ok []
  | s :: ss =>
    if s = "--" then .ok (.mark :: ss.map .word)
    else do
      let a ← classify options s
      return a :: (← classifyAll options ss)

/-! ## Sorting -/

/-- The words at the front of arguments; the mark counts among them. -/
def frontWords : List (Argument α) → List String
  | .word s :: as => s :: frontWords as
  | .mark :: as => "--" :: frontWords as
  | _ => []

/-- The arguments after the words at their front. -/
def afterWords : List (Argument α) → List (Argument α)
  | .word _ :: as => afterWords as
  | .mark :: as => afterWords as
  | as => as

theorem length_afterWords_le (as : List (Argument α)) : (afterWords as).length ≤ as.length := by
  fun_induction afterWords as with
  | case1 _ as ih => exact Nat.le_succ_of_le ih
  | case2 as ih => exact Nat.le_succ_of_le ih
  | case3 => exact Nat.le_refl _

/-- The file at the front of arguments, and the arguments after it. The mark may stand before or
after it. -/
def frontFile? : List (Argument α) → Option (String × List (Argument α))
  | .mark :: .word s :: as => some (s, as)
  | .word s :: .mark :: as => some (s, as)
  | .word s :: as => some (s, as)
  | _ => none

theorem length_lt_of_frontFile? {as rest : List (Argument α)} {s : String}
    (h : frontFile? as = some (s, rest)) : rest.length < as.length := by
  unfold frontFile? at h
  split at h
  case h_4 => simp at h
  all_goals
    simp only [Option.some.injEq, Prod.mk.injEq] at h
    simp only [List.length_cons, h.2]
    omega

/-- The word at the front of arguments, and the arguments after it. -/
def frontWord? : List (Argument α) → Option (String × List (Argument α))
  | .word s :: as => some (s, as)
  | _ => none

theorem length_lt_of_frontWord? {as rest : List (Argument α)} {s : String}
    (h : frontWord? as = some (s, rest)) : rest.length < as.length := by
  unfold frontWord? at h
  split at h
  · simp only [Option.some.injEq, Prod.mk.injEq] at h
    simp [h.2]
  · simp at h

end Arguments

/-- What a command has been given: its settings, the file and the further words if they have been
met, and what is left over. -/
structure Given (α : Type) where
  settings : α
  file : Option String
  words : List String
  extras : List String

/-- A command: the name it goes by in messages, its options, the settings before any option, and
whether it takes words after the file. -/
structure Command (α : Type) where
  program : String
  options : List (OptionSpec α)
  settings : α
  takesWords : Bool

namespace Command

variable {α : Type}

/-- Nothing given yet. -/
def start (c : Command α) : Given α := ⟨c.settings, none, [], []⟩

/-- What the request for help comes to with short options attached: help, or a problem. The last
of them may take its value from the next argument. -/
def helpWith (c : Command α) (next : List (Argument α)) : List Char → Refusal
  | [] => .help
  | k :: ks =>
    match optionNamed? c.options (String.ofList ['-', k]) with
    | none =>
      .usage c.program (.unusedValue (OptionSpec.help (α := α)).title (String.ofList (k :: ks)))
    | some o =>
      match o.apply, ks with
      | none, ks => c.helpWith next ks
      | some _, [] =>
        if (frontWord? next).isSome then .help else .usage c.program (.noValue o.title)
      | some _, _ => .help

/-- The value of an option, from its own argument or the next, and the arguments after it. -/
def value? (use : OptionUse α) (next : List (Argument α)) :
    Option (String × List (Argument α)) :=
  match use.value with
  | some v => some (v, next)
  | none => frontWord? next

theorem length_le_of_value? {use : OptionUse α} {next rest : List (Argument α)} {v : String}
    (h : value? use next = some (v, rest)) : rest.length ≤ next.length := by
  unfold value? at h
  split at h
  · simp only [Option.some.injEq, Prod.mk.injEq] at h
    simp [h.2]
  · exact Nat.le_of_lt (length_lt_of_frontWord? h)

/-- The refusal that a request for help leads to, given the arguments after it. -/
def helpRefusal (c : Command α) (use : OptionUse α) (next : List (Argument α)) : Refusal :=
  match use.value with
  | none => .help
  | some v =>
    if v.isEmpty || startsWith use.name "--" then
      .usage c.program (.unusedValue use.spec.title v)
    else c.helpWith next v.toList

/-- The file at the front of arguments, unless the file has been met. -/
def pendingFile? (g : Given α) (as : List (Argument α)) :
    Option (String × List (Argument α)) :=
  if g.file.isNone then frontFile? as else none

theorem length_lt_of_pendingFile? {g : Given α} {as rest : List (Argument α)} {s : String}
    (h : pendingFile? g as = some (s, rest)) : rest.length < as.length := by
  unfold pendingFile? at h
  split at h
  · exact length_lt_of_frontFile? h
  · simp at h

/-- Hands arguments to their places, one after the other. The file and the words that stand with
it are taken together; words elsewhere are left over. -/
def sort (c : Command α) (as : List (Argument α)) (g : Given α) : Except Refusal (Given α) :=
  match as with
  | [] => .ok g
  | .unknown s :: as => c.sort as { g with extras := g.extras ++ [s] }
  | .option use :: as =>
    match use.spec.apply with
    | none => .error (c.helpRefusal use as)
    | some apply =>
      match h : value? use as with
      | none => .error (.usage c.program (.noValue use.spec.title))
      | some (v, rest) => do
        have := length_le_of_value? h
        let settings ← (apply (.ofText v) g.settings).mapError (.usage c.program)
        c.sort rest { g with settings := settings }
  | a :: as =>
    match h : pendingFile? g (a :: as) with
    | some (file, rest) =>
      have := length_lt_of_pendingFile? h
      if c.takesWords then
        have := length_afterWords_le rest
        c.sort (afterWords rest) { g with file := file, words := (frontWords rest).erase "--" }
      else c.sort rest { g with file := file }
    | none =>
      have := length_afterWords_le as
      c.sort (afterWords as) { g with extras := g.extras ++ frontWords (a :: as) }
termination_by as.length
decreasing_by all_goals simp only [List.length_cons] at *; omega

/-- The names of the arguments that a command has to be given. -/
def required (c : Command α) : List String := if c.takesWords then ["file", "items"] else ["file"]

/-- What a command is given by its arguments, and the file among it. -/
def read (c : Command α) (arguments : List String) : Except Refusal (String × Given α) := do
  let as ← (classifyAll c.options arguments).mapError (.usage c.program)
  let g ← c.sort as c.start
  match g.file with
  | some file => return (file, g)
  | none => .error (.usage c.program (.missing c.required))

end Command

end Statechart.CommandLine
