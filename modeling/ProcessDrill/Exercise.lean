/-!
# The menu

The seven exercises in menu order, with the numbers they are chosen by and their titles.
-/

namespace ProcessDrill

set_option autoImplicit false

/-- One exercise for each way of asking the kernel about processes. -/
inductive Exercise where
  | missingFile
  | nullArguments
  | execFailure
  | strangerJoin
  | runProgram
  | joinChild
  | exitProcess
  deriving DecidableEq, Repr

namespace Exercise

def menu : List Exercise :=
  [missingFile, nullArguments, execFailure, strangerJoin, runProgram, joinChild, exitProcess]

def number : Exercise → Int32
  | missingFile => 1
  | nullArguments => 2
  | execFailure => 3
  | strangerJoin => 4
  | runProgram => 5
  | joinChild => 6
  | exitProcess => 7

def name : Exercise → String
  | missingFile => "NonexistentFile"
  | nullArguments => "NullArgument"
  | execFailure => "ExecError"
  | strangerJoin => "NonChildJoin"
  | runProgram => "ExecProgram"
  | joinChild => "JoinChild"
  | exitProcess => "ExitProcess"

def title : Exercise → String
  | missingFile => "Attempt to open non-existent file"
  | nullArguments => "Attempt to open file with null argument"
  | execFailure => "Execution error"
  | strangerJoin => "Attempt to join a non-child process"
  | runProgram => "Execute process"
  | joinChild => "Join child process"
  | exitProcess => "Exit process"

def ofNumber? (choice : Int32) : Option Exercise :=
  menu.find? (·.number == choice)

theorem ofNumber?_number (x : Exercise) : ofNumber? x.number = some x := by
  cases x <;> decide

theorem ofNumber?_eq_some_iff {choice : Int32} {x : Exercise} :
    ofNumber? choice = some x ↔ x.number = choice := by
  constructor
  · intro h
    simpa using List.find?_some h
  · rintro rfl
    exact ofNumber?_number x

end Exercise

end ProcessDrill
