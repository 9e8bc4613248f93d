import Memberwise.Cli.Arguments
import Memberwise.Text.Terminal

/-!
# Help

The text that tells how to call the program or one of its commands. Options are listed in the order of their
places on their own list, the global ones among those of the command, and by name where the places agree.

A summary has one line for each entry, in two columns. All of it can be asked for where an entry has values that
need a word each; then each entry has a paragraph of its own.

The lines are for a terminal: what is to be typed as it stands is bold, titles are underlined too. What the
environment says of the log level goes in as it is, so control characters in it act on the text after it.
-/

namespace Memberwise.Cli

def programName : String := "wirebind"

namespace Help

open Text Terminal

/-- What a line of usage starts with. -/
def usage (words : String) : String :=
  boldUnderlined "Usage:" ++ " " ++ bold (if words.isEmpty then programName else programName ++ " " ++ words)

/-- A note in square brackets. -/
def note (label text : String) : String := "[" ++ label ++ text ++ "]"

/-- The values that can be chosen from. -/
def choices (values : List String) : String := note "possible values: " (", ".intercalate values)

/-- A text after a lead; its further lines stand under the first. -/
def hang (lead text : String) : List String :=
  match text.splitOn "\n" with
  | [] => [lead]
  | line :: lines => (lead ++ line) :: lines.map (padRight (width lead) "" ++ ·)

/-- An entry of a list: how it is written, what it is for, and notes on it. Values that need a word each are
described one by one. -/
structure Entry where
  heading : String
  about : String
  notes : List String := []
  described : List (String × String) := []

namespace Entry

/-- The entry in one line, its heading in a column of the given width. -/
def summary (column : Nat) (e : Entry) : List String :=
  let values := if e.described.isEmpty then [] else [choices (e.described.map (·.1))]
  hang ("  " ++ padRight column e.heading ++ "  ") (" ".intercalate (e.about :: (e.notes ++ values)))

/-- What stands under the heading of a paragraph: what the entry is for, then the notes, then the values. -/
def body (e : Entry) : List String :=
  let column := (e.described.map fun (value, _) => width value + 2).foldl max 0
  let notes := if e.notes.isEmpty then [] else "" :: e.notes
  let values := e.described.map fun (value, about) => "- " ++ padRight column (bold value ++ ": ") ++ about
  (e.about :: notes).flatMap (hang indent) ++
    if values.isEmpty then [] else "" :: ("Possible values:" :: values).map (indent ++ ·)
where
  /-- The margin of a paragraph. -/
  indent : String := "          "

/-- The entry in a paragraph. -/
def paragraph (e : Entry) : List String := ("  " ++ e.heading) :: e.body

end Entry

/-- A list of entries under a title. -/
def listing (detail : Detail) (title : String) (entries : List Entry) : List String :=
  boldUnderlined title ::
    match detail with
    | .summary =>
      let column := (entries.map fun e => width e.heading).foldl max 0
      entries.flatMap (·.summary column)
    | .full => [""].intercalate (entries.map (·.paragraph))

/-- The variable of the environment that can stand for the log level. -/
def levelVariable : String := "WIREBIND_LOG_LEVEL"

/-- The entry of an option, given the log level of the environment. -/
def optionEntry (env : Option String) (o : OptionSpec) : Entry where
  heading := "    " ++ bold o.name ++ if o.values.isSome then " <" ++ o.valueName ++ ">" else ""
  about := o.about
  notes :=
    (if o.name = "--log-level" then [note "env: " (levelVariable ++ "=" ++ env.getD "")] else []) ++
      (o.fallback.map (note "default: ")).toList ++ (o.values.map choices).toList

/-- The options of a command and the global ones, merged by their places. -/
def merged (own : List OptionSpec) : List OptionSpec :=
  let key := fun (p : OptionSpec × Nat) => (p.2, p.1.name)
  let ble := fun (a b : OptionSpec × Nat) =>
    decide ((key a).1 < (key b).1) || ((key a).1 == (key b).1 && decide ((key a).2 ≤ (key b).2))
  ((own.zipIdx ++ OptionSpec.globals.zipIdx).mergeSort ble).map (·.1)

/-- The list of options, with the given ones for help and version at its end. -/
def options (detail : Detail) (env : Option String) (own : List OptionSpec) (last : List Entry) : List String :=
  listing detail "Options:" ((merged own).map (optionEntry env) ++ last)

/-- The option for help, and what it says where there is more to tell than it does. -/
def helpEntry (more : String) : Entry where
  heading := bold "-h" ++ ", " ++ bold "--help"
  about := "Print help" ++ more

def versionEntry : Entry where
  heading := bold "-V" ++ ", " ++ bold "--version"
  about := "Print version"

def commandEntry (name about : String) : Entry where
  heading := bold name
  about := about

def aboutHelp : String := "Print this message or the help of the given subcommand(s)"

def program (env : Option String) : List String :=
  let entries := commands.map (fun c => commandEntry c.name c.about) ++ [commandEntry "help" aboutHelp]
  ["Compiled-accessor serialization CLI", "", usage "" ++ " [OPTIONS] <COMMAND>", ""] ++
    listing .summary "Commands:" entries ++ [""] ++ options .summary env [] [helpEntry "", versionEntry]

def helpCommand : List String :=
  [aboutHelp, "", usage "help" ++ " [COMMAND]...", ""] ++
    listing .summary "Arguments:" [⟨"[COMMAND]...", "Print help for the subcommand(s)", [], []⟩]

/-- The entry of a sample that a command does something with. -/
def sampleEntry (about : String) : Entry where
  heading := "<SAMPLE>"
  about := about
  described := [Sample.reading, Sample.record].map fun sample => (sample.text, sample.about)

/-- The help of a command. Only samples are described, so all of it is a summary for a command without one. -/
def command (env : Option String) (detail : Detail) (c : CommandSpec) : List String :=
  match c.role with
  | .sample about =>
    let more := match detail with
      | .summary => " (see more with '--help')"
      | .full => " (see a summary with '-h')"
    [c.about, "", usage c.name ++ " [OPTIONS] <SAMPLE>", ""] ++ listing detail "Arguments:" [sampleEntry about] ++
      [""] ++ options detail env c.options [helpEntry more]
  | .command | .nothing =>
    [c.about, "", usage c.name ++ " [OPTIONS]", ""] ++ options .summary env c.options [helpEntry ""]

def lines (env : Option String) (topic : Topic) (detail : Detail) : List String :=
  match topic with
  | .program => program env
  | .helpCommand => helpCommand
  | .command name => (commands.find? (·.name = name)).elim (program env) (command env detail)

end Help

end Memberwise.Cli
