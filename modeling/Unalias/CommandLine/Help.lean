/-! What the command line says about itself. -/
namespace Unalias.Help

def versionText : String := "aliasfix 0.1.0\n"

def helpLines : List String :=
  ["Rewrite tsconfig path-alias imports into relative imports",
   "",
   "Usage: aliasfix [OPTIONS]",
   "",
   "Options:",
   "  -p, --tsconfig <TSCONFIG>            tsconfig.json to read `compilerOptions.paths` from. "
     ++ "Defaults to the nearest tsconfig.json above the working directory",
   "  -t, --target <TARGETS>               Glob of files to fix, relative to the tsconfig "
     ++ "directory [default: src/**/*.ts src/**/*.tsx]",
   "  -e, --exclude <EXCLUDES>             Glob of files to leave alone "
     ++ "[default: **/node_modules/**]",
   "  -x, --exclude-alias <EXCLUDE_ALIAS>  Comma-separated aliases to skip; an alias containing "
     ++ "any entry is skipped",
   "  -v, --verbose                        Print every rewritten import and debug logs",
   "  -d, --dry-run                        Report what would change without writing",
   "  -y, --yes                            Skip the confirmation prompt",
   "  -h, --help                           Print help",
   "  -V, --version                        Print version"]

def helpText : String := String.join (helpLines.map (· ++ "\n"))

end Unalias.Help
