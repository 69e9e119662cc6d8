import RoutePattern.CommandLine.Command

namespace RoutePattern
namespace Help

def body : Scope → List Text
  | .program =>
    ["  Bidirectional route patterns: match paths and render them back.",
      "",
      "  Quick start:",
      "    biroute match \"/users/:id\" /users/42",
      "    biroute interpolate \"/users/:id\" -p id=42",
      "    biroute sort /users /users/:id /users/settings",
      "",
      "Options:",
      "  --version        Show the version and exit.",
      "  --config TEXT    YAML/JSON config file (repeatable)",
      "  --env-file FILE  .env file with BIROUTE_* settings",
      "  -v, --verbose    Debug logging",
      "  --help           Show this message and exit.",
      "",
      "Commands:",
      "  inspect      Show the canonical form, AST and parameters of PATTERN.",
      "  interpolate  Render a concrete path from PATTERN and parameters.",
      "  match        Match TARGET against PATTERN and print the captured...",
      "  sort         Print PATTERNS from most to least specific."]
  | .command .accept =>
    ["  Match TARGET against PATTERN and print the captured parameters.",
      "",
      "  Exits with status 1 when TARGET does not match.",
      "",
      "  Examples:   biroute match \"/users/:id\" /users/42   biroute match",
      "  \"/search?q=:query\" \"/search?q=books\"",
      "",
      "Options:",
      "  --end / --no-end  Require the whole path to be consumed",
      "  --decode          Decode values through the route schema",
      "  --help            Show this message and exit."]
  | .command .render =>
    ["  Render a concrete path from PATTERN and parameters.",
      "",
      "  Examples:   biroute interpolate \"/users/:id\" -p id=42   biroute interpolate",
      "  \"/files/:path+\" -p path=a -p path=b",
      "",
      "Options:",
      "  -p, --param TEXT  key=value (repeat for lists)",
      "  --help            Show this message and exit."]
  | .command .sort =>
    ["  Print PATTERNS from most to least specific.",
      "",
      "  Examples:   biroute sort /users /users/:id /users/settings",
      "",
      "Options:",
      "  -f, --file FILENAME  Read patterns from a file, one per line",
      "  --help               Show this message and exit."]
  | .command .inspect =>
    ["  Show the canonical form, AST and parameters of PATTERN.",
      "",
      "  Examples:   biroute inspect \"/users/\x7bu-:id\x7d?tab=:tab?\"",
      "",
      "Options:",
      "  --end / --no-end  Require the whole path to be consumed",
      "  --help            Show this message and exit."]

def text (s : Scope) : Text := Text.join ['\n'] (s.usage :: [] :: body s)

end Help
end RoutePattern
