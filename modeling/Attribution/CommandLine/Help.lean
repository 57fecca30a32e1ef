/-
  Attribution.CommandLine.Help — what the program says of itself.
-/
import Attribution.CommandLine
import Attribution.Terminal.Summary

namespace Attribution.CommandLine

def versionText : Text := Summary.programName ++ " ".toList ++ Summary.version ++ "\n".toList

def usageLine : Text := "Usage: license-bundler [OPTIONS] [PATH]".toList

def helpLines : List Text :=
  ["Bundle project and third-party dependency licenses into a single file".toList,
    [],
    usageLine,
    [],
    "Arguments:".toList,
    "  [PATH]  Project directory; relative paths are resolved against it [default: .]".toList,
    [],
    "Options:".toList,
    "      --config <CONFIG>   Config file [default: ./.license-bundler/config.toml, fallback ~/.config/license-bundler/config.toml]".toList,
    "      --license <FILE>    Project license file [default: COPYING.md]".toList,
    "      --cache-root <DIR>  Dependency cache root, one directory per package [default: auto-detect vcpkg/packages]".toList,
    "  -o, --output <FILE>     Output file [default: ALL_LICENSES.txt]".toList,
    "      --report <FORMAT>   Report format [default: terminal] [possible values: terminal, json]".toList,
    "      --strict            Exit with status 1 if any package has no copyright file".toList,
    "  -v, --verbose           List every bundled package, not just the ones without a license".toList,
    "  -q, --quiet             Only print summary line".toList,
    "  -h, --help              Print help".toList,
    "  -V, --version           Print version".toList]

def helpText : Text := helpLines.flatMap (· ++ ['\n'])

def UsageError.line (e : UsageError) : Text := "error: ".toList ++ e.message

def UsageError.report (e : UsageError) : Text :=
  e.line ++ "\n\n".toList ++ usageLine ++ "\n\nFor more information, try '--help'.\n".toList

end Attribution.CommandLine
