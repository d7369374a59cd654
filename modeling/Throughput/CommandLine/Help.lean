/-
  Throughput/CommandLine/Help.lean
  ================================
  **Help.**  What is shown when help is asked for or a command line is not
  understood.
-/
import Throughput.CommandLine.Option

namespace Throughput.CommandLine

def helpText : String :=
  "Summarize disk and network benchmark logs\n\n" ++
  "Usage: benchlog [OPTIONS] <COMMAND>\n\n" ++
  "Commands:\n" ++
  "  disk      Summarize disk logs: FILES...\n" ++
  "  timeline  Summarize dated disk logs: RUN=FILE...\n" ++
  "  network   Summarize network logs: FILES... or RUN=FILE...\n" ++
  "  status    Show the effective configuration\n\n" ++
  "Options:\n" ++
  "  -c, --config FILE          settings file\n" ++
  "      --log-level FILTER     filter of log events\n" ++
  "      --log-format FORMAT    text or json\n" ++
  "  -f, --format FORMAT        text, markdown or json\n" ++
  "  -o, --output FILE          file for the report\n" ++
  "      --series-out FILE      file for the series\n" ++
  "  -d, --delimiter DELIMITER  comma or whitespace (disk, timeline)\n" ++
  "  -m, --manifest FILE        run manifest (timeline, network)\n" ++
  "  -g, --group-by GROUPING    label, date or timestamp (timeline)\n" ++
  "      --per-node             sum the logs of each node (network)\n" ++
  "  -h, --help                 show this help\n" ++
  "  -V, --version              show the version\n"

namespace Usage

/-- What is wrong with a command line. -/
def complaint : Usage → String
  | help | version => ""
  | nothingGiven | noCommand => "a command is required"
  | unknownCommand => "unrecognized command"
  | unknownArgument => "unexpected argument"
  | givenTwice => "an option is given more than once"
  | badValue => "a value is missing or invalid"
  | badLog => "a log is not named as FILE or RUN=FILE"
  | unexpectedValue => "a value is given to an option that takes none"
  | missing => "a required argument is missing"

/-- Help and the version are shown on request; everything else is a mistake. -/
def exitCode : Usage → Nat
  | help | version => 0
  | _ => 2

end Usage

end Throughput.CommandLine
