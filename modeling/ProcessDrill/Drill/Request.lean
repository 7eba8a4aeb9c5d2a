import ProcessDrill.Console
import ProcessDrill.Text.Escaped
/-!
# Requests

A `Request` is the one process call of an exercise. It is announced in the log, put to the machine,
and its answer goes to the log and then to the console. `Request.announcement`, `Request.finding`
and `Request.report` are the three texts.
-/

namespace ProcessDrill

set_option autoImplicit false

inductive Request where
  | exec (name : List UInt8) (argv : Argv)
  | join (pid : Pid)
  | exit (status : Int32)
  deriving DecidableEq, Repr

def Argv.text : Argv → String
  | empty => "Empty"
  | null count => "Null \x7b argc: " ++ Text.decimal count.toNat ++ " \x7d"

def Joined.text (joined : Joined) : String :=
  "status " ++ Text.signed joined.status.toInt ++
    if joined.normal then " (normal)" else " (abnormal)"

namespace Request

abbrev call : Request → Call
  | exec name argv => .exec name argv
  | join pid => .join pid
  | exit status => .exit status

def text : Request → String
  | exec name _ => "exec(\"" ++ Text.escape name ++ "\")"
  | join pid => "join(" ++ pid.text ++ ")"
  | exit status => "exit(" ++ Text.signed status.toInt ++ ")"

def announcement : Request → String
  | exec name argv =>
    "exec(\"" ++ Text.escape name ++ "\", argc=" ++ Text.decimal argv.count.toNat ++ ", " ++
      argv.text ++ ")"
  | join pid => (join pid).text
  | exit status => (exit status).text

def finding : (request : Request) → request.call.Answer → String
  | exec name argv, .ok pid => (exec name argv).text ++ " -> pid " ++ pid.text
  | exec name argv, .error e => (exec name argv).text ++ " -> " ++ e.name
  | join pid, .ok joined => (join pid).text ++ " -> " ++ joined.text
  | join pid, .error e => (join pid).text ++ " -> " ++ e.name
  | exit status, word => (exit status).text ++ " returned " ++ Text.signed word.toInt

def report : (request : Request) → request.call.Answer → String
  | exec name argv, .ok pid => (exec name argv).text ++ " started pid " ++ pid.text
  | exec name argv, .error e => (exec name argv).text ++ " failed: " ++ e.name
  | join pid, .ok joined => (join pid).text ++ " -> " ++ joined.text
  | join pid, .error e => (join pid).text ++ " failed: " ++ e.name
  | exit status, word => (exit status).text ++ " returned " ++ Text.signed word.toInt

def perform {σ : Type} (host : Host σ) (request : Request) : Session σ Unit := do
  Console.log host .debug .exercise request.announcement
  let answer ← Console.ask host request.call
  Console.log host .info .exercise (request.finding answer)
  Console.printLine host (request.report answer)

end Request

end ProcessDrill
