import ModuleAtlas.Path

/-!
# Import specifiers

What an import names: a path, a module of the platform, or a package with a path inside it.
-/

namespace ModuleAtlas.Resolve

/-- Whether a specifier is a path, seen from the importing file or from the root. -/
def isPathSpecifier (specifier : String) : Bool :=
  Text.startsWith "./" specifier || Text.startsWith "../" specifier
    || Text.startsWith "/" specifier || specifier == "." || specifier == ".."

/-- The package of a specifier and the path inside the package. The name of a scoped package has
two parts. -/
def splitPackage (specifier : String) : String × String :=
  match Text.split '/' specifier with
  | [] => ("", "")
  | [name] => (name, "")
  | first :: second :: rest =>
    if Text.startsWith "@" first then (first ++ "/" ++ second, Text.join "/" rest)
    else (first, Text.join "/" (second :: rest))

/-- The modules of the platform. -/
def platformModules : List String :=
  ["assert", "async_hooks", "buffer", "child_process", "cluster", "console", "constants", "crypto",
    "dgram", "dns", "domain", "events", "fs", "http", "http2", "https", "inspector", "module",
    "net", "os", "path", "perf_hooks", "process", "punycode", "querystring", "readline", "repl",
    "stream", "string_decoder", "sys", "timers", "tls", "trace_events", "tty", "url", "util", "v8",
    "vm", "wasi", "worker_threads", "zlib"]

/-- Whether a specifier names a module of the platform, or something inside one. -/
def isPlatformModule (specifier : String) : Bool :=
  Text.startsWith "node:" specifier || platformModules.contains (splitPackage specifier).1

/-- The characters of a plain directory name. -/
def isPlainNameChar (c : Char) : Bool := c.isAlphanum || c == '_' || c == '-'

/-- Whether an input names a package rather than a path: a scoped name, or a name that is not a
plain directory name followed by a slash. -/
def looksLikePackage (input : String) : Bool :=
  if Text.startsWith "@" input then true
  else if Text.startsWith "." input || Text.startsWith "/" input then false
  else
    let chars := input.toList
    let name := chars.takeWhile isPlainNameChar
    !(!name.isEmpty && (chars.dropWhile isPlainNameChar).head? == some '/')

end ModuleAtlas.Resolve
