import LessonPlot.CommandLine.Request

namespace LessonPlot

/-- The name under which the program is called. -/
def programName : String := "graph-expr"

def programVersion : String := "0.1.0"

namespace Topic

/-- One sentence on what the program or a command does. -/
def about : Topic → String
  | program => "Evaluate lesson graph expressions and assemble scenes"
  | render => "Assemble the scene for a configuration and print it as JSON"
  | eval => "Evaluate a single expression"
  | validate => "Check a configuration from an untrusted source"
  | help => "Print this message or the help of the given subcommand(s)"

/-- What is written after the name of the program. -/
def usage : Topic → String
  | program => "<COMMAND>"
  | render => "render [OPTIONS] <CONFIG_PATH>"
  | eval => "eval [OPTIONS] <EXPRESSION>"
  | validate => "validate <CONFIG_PATH>"
  | help => "help [COMMAND]..."

/-- The tables below the usage: a heading, and entries with what they are for. -/
def tables : Topic → List (String × List (String × String))
  | program =>
    [("Commands:",
      [("render", render.about), ("eval", eval.about), ("validate", validate.about),
        ("help", help.about)]),
      ("Options:", [("-h, --help", "Print help"), ("-V, --version", "Print version")])]
  | render =>
    [("Arguments:", [("<CONFIG_PATH>", "")]),
      ("Options:",
        [("-v, --value <VALUE>", "Interactive control value, 0 to 100 [default: 50]"),
          ("-r, --resolution <RESOLUTION>", "Step count of the shared x grid [default: 150]"),
          ("-p, --pretty", ""), ("-h, --help", "Print help")])]
  | eval =>
    [("Arguments:", [("<EXPRESSION>", "")]),
      ("Options:",
        [("    --var <VARS>", "A variable binding, `name=value`. May be repeated"),
          ("-h, --help", "Print help")])]
  | validate =>
    [("Arguments:", [("<CONFIG_PATH>", "")]), ("Options:", [("-h, --help", "Print help")])]
  | help => [("Arguments:", [("[COMMAND]...", "Print help for the subcommand(s)")])]

/-- A table with its second column aligned. -/
def tableText (heading : String) (entries : List (String × String)) : String :=
  let width := entries.foldl (fun width entry => max width entry.1.length) 0
  let line := fun (entry : String × String) =>
    "  " ++ entry.1.pushn ' ' (width - entry.1.length) ++ "  " ++ entry.2 ++ "\n"
  heading ++ "\n" ++ String.join (entries.map line)

def text (topic : Topic) : String :=
  let blocks := topic.tables.map fun (heading, entries) => tableText heading entries
  topic.about ++ "\n\nUsage: " ++ programName ++ " " ++ topic.usage ++ "\n\n" ++
    String.intercalate "\n" blocks

end Topic

end LessonPlot
