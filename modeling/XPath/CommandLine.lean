import XPath.Query

/-! The command line: its arguments, and what a run writes. Reading the input is left to the caller. -/
namespace XPath.CommandLine

/-- The exit status, and what is written to the two outputs. -/
structure Outcome where
  status : Nat
  output : String := ""
  complaint : String := ""
  deriving DecidableEq, Repr, Inhabited

/-- A run ends, or it goes on with the text of a file or of the standard input. Of a file that cannot be
read there is no text. -/
inductive Run where
  | finished (o : Outcome)
  | reading (file : Option String) (rest : Option String → Outcome)

/-- The arguments of the `xpath` command. -/
structure Options where
  query : Option String := none
  file : Option String := none
  defaultNamespace : Option String := none
  namespaces : List String := []
  explain : Bool := false
  deriving DecidableEq, Repr, Inhabited

/-- Why no query is run. -/
inductive Refusal where
  | help (text : String)
  | misuse (reason : String)
  deriving DecidableEq, Repr, Inhabited

def overview : String :=
  "Xqc CLI. Compile and run XPath expressions against XML

Usage: xqc <COMMAND>

Commands:
  xpath  Evaluate an xpath expression on an xml document
  help   Print this message or the help of the given subcommand(s)

Options:
  -h, --help     Print help
  -V, --version  Print version
"

def version : String := "xqc 0.1.0\n"

def heading : String :=
  "Evaluate an xpath expression on an xml document

Usage: xqc xpath [OPTIONS] <XPATH> [INFILE]

Arguments:
"

def shortHelp : String :=
  heading ++ "  <XPATH>   xpath expression
  [INFILE]  input xml file (default stdin)

Options:
      --default-namespace-uri <DEFAULT_NAMESPACE_URI>
          Namespace URI to use in XPath for element names without a namespace prefix
      --namespace <NAMESPACE>
          Namespace declaration to make available in XPath (can be repeated) The format is prefix=uri
      --explain
          Print the compiled expression tree instead of running it
  -h, --help
          Print help (see more with '--help')
"

def longHelp : String :=
  heading ++ "  <XPATH>
          xpath expression

  [INFILE]
          input xml file (default stdin)

Options:
      --default-namespace-uri <DEFAULT_NAMESPACE_URI>
          Namespace URI to use in XPath for element names without a namespace prefix.
          \n          If omitted, the default namespace is the empty string (i.e. the names are not in a namespace).

      --namespace <NAMESPACE>
          Namespace declaration to make available in XPath (can be repeated) The format is prefix=uri

      --explain
          Print the compiled expression tree instead of running it

  -h, --help
          Print help (see a summary with '-h')
"

namespace Options

/-- Takes an argument that is no option: the query first, then the file, whose name is not empty. -/
def positional (o : Options) (arg : String) : Except Refusal Options :=
  match o.query, o.file with
  | none, _ => .ok { o with query := some arg }
  | some _, none =>
    if arg.isEmpty then .error (.misuse "a value is required for '[INFILE]'")
    else .ok { o with file := some arg }
  | some _, some _ => .error (.misuse ("unexpected argument '" ++ arg ++ "'"))

/-- Takes an option with its value, which may be missing. -/
def option (o : Options) (name : String) (value : Option String) : Except Refusal Options :=
  match name, value with
  | "namespace", some v => .ok { o with namespaces := o.namespaces ++ [v] }
  | "default-namespace-uri", some v =>
    if o.defaultNamespace.isSome then
      .error (.misuse "the argument '--default-namespace-uri' cannot be used multiple times")
    else .ok { o with defaultNamespace := some v }
  | "explain", none =>
    if o.explain then .error (.misuse "the argument '--explain' cannot be used multiple times")
    else .ok { o with explain := true }
  | "help", none => .error (.help longHelp)
  | "namespace", none | "default-namespace-uri", none =>
    .error (.misuse ("a value is required for '--" ++ name ++ "'"))
  | _, _ => .error (.misuse ("unexpected argument '--" ++ name ++ "'"))

/-- Whether an option takes a value. -/
def takesValue (name : String) : Bool := name == "namespace" || name == "default-namespace-uri"

/-- Whether an argument starts with a hyphen and is not one alone. -/
def isOption (arg : String) : Bool := arg.startsWith "-" && arg != "-"

/-- Reads arguments, of which the first is the value of an option that waits for one. A value can also
stand after an equals sign; it must not look like an option. After two hyphens there are no options. -/
def read (waiting : Option String) (o : Options) : List String → Except Refusal Options
  | [] => match waiting with
    | some name => o.option name none
    | none => .ok o
  | arg :: args => do
    match waiting with
    | some name =>
      if isOption arg then o.option name none else read none (← o.option name (some arg)) args
    | none =>
      if arg == "--" then args.foldlM positional o
      else if arg.startsWith "--" then
        let body := arg.toList.drop 2
        let name := String.ofList (body.takeWhile (· != '='))
        match body.dropWhile (· != '=') with
        | _ :: value => read none (← o.option name (some (String.ofList value))) args
        | [] =>
          if takesValue name then read (some name) o args
          else read none (← o.option name none) args
      else if arg.startsWith "-h" then .error (.help shortHelp)
      else if isOption arg then .error (.misuse ("unexpected argument '" ++ arg ++ "'"))
      else read none (← o.positional arg) args

end Options

/-- Reads all arguments after the name of the program. -/
def parse (args : List String) : Except Refusal Options :=
  match args with
  | [] => .error (.misuse overview)
  | "xpath" :: rest => do
    let o ← Options.read none {} rest
    if o.query.isNone then .error (.misuse "a value is required for '<XPATH>'") else .ok o
  | ["help"] => .error (.help overview)
  | ["help", "xpath"] => .error (.help longHelp)
  | arg :: _ =>
    if arg == "--help" || arg.startsWith "-h" then .error (.help overview)
    else if arg == "--version" || arg.startsWith "-V" then .error (.help version)
    else .error (.misuse ("unrecognized subcommand '" ++ arg ++ "'"))

/-- Declares a namespace written as a prefix and a URI with an equals sign between them. -/
def declare (ns : Namespaces) (text : String) : Except String Namespaces :=
  match text.toList.dropWhile (· != '=') with
  | _ :: uri => .ok (ns.add (String.ofList (text.toList.takeWhile (· != '='))) (String.ofList uri))
  | [] => .error ("namespace " ++ Quoted.encode text ++ " is not prefix=uri")

/-- What is written about an error: its message, and the explanation of its code. -/
def report (message : String) (code : ErrorCode) : String := message ++ "\n" ++ code.note

def warn (w : Warning) : String :=
  "warning: " ++ w.message ++ " (line " ++ toString w.line ++ ", column " ++ toString w.column ++ ")\n"

/-- Evaluates a query on an XML text, or fails to. -/
def evaluate (p : Program) (text : String) : Outcome :=
  match ({} : Documents).add? text with
  | none => ⟨0, "", "the input is not well-formed XML\n"⟩
  | some d =>
    match p.run .all {} (d.roots[0]?.map .node) d with
    | (.ok xs, d) => ⟨0, d.display xs ++ "\n", ""⟩
    | (.error e, _) => ⟨0, "", report e.message e.code⟩

/-- Starts a run with the arguments. A query that fails is reported and does not change the status. -/
def start (args : List String) : Run :=
  match parse args with
  | .error (.help text) => .finished ⟨0, text, ""⟩
  | .error (.misuse reason) => .finished ⟨2, "", "error: " ++ reason ++ "\n"⟩
  | .ok o =>
    match o.namespaces.foldlM declare { element := o.defaultNamespace } with
    | .error reason => .finished ⟨1, "", "Error: " ++ reason ++ "\n"⟩
    | .ok namespaces =>
      match Program.compile (o.query.getD "") { namespaces } {} with
      | (.error e, _, ws) => .finished ⟨0, "", String.join (ws.map warn) ++ report e.message e.code⟩
      | (.ok p, _, ws) =>
        let warnings := String.join (ws.map warn)
        if o.explain then .finished ⟨0, p.expr.display ++ "\n", warnings⟩
        else .reading o.file fun
          | none => ⟨1, "", warnings ++ "Error: cannot read the input\n"⟩
          | some text =>
            let r := evaluate p text
            { r with complaint := warnings ++ r.complaint }

end XPath.CommandLine
