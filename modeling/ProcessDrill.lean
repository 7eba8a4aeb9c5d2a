import ProcessDrill.Main
import ProcessDrill.Proofs.CommandLine.Program
import ProcessDrill.Proofs.Console.Integers
import ProcessDrill.Proofs.Console.Names
import ProcessDrill.Proofs.Console.Offers
import ProcessDrill.Proofs.Console.Quotes
import ProcessDrill.Proofs.Console.Tokenizer
import ProcessDrill.Proofs.Drill.Bounds
import ProcessDrill.Proofs.Drill.Discipline
import ProcessDrill.Proofs.Drill.Dispatch
import ProcessDrill.Proofs.Drill.Draws
import ProcessDrill.Proofs.Drill.FailStop
import ProcessDrill.Proofs.Drill.Logging
import ProcessDrill.Proofs.Drill.Names
import ProcessDrill.Proofs.Drill.Order
import ProcessDrill.Proofs.Drill.Pids
import ProcessDrill.Proofs.Drill.Recut
import ProcessDrill.Proofs.Drill.Reports
import ProcessDrill.Proofs.Drill.Safety
import ProcessDrill.Proofs.Drill.Transcript
import ProcessDrill.Proofs.Drill.Traps
import ProcessDrill.Proofs.Drill.Truncation
import ProcessDrill.Proofs.Text.Grammar
