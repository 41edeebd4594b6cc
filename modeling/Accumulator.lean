import Accumulator.Main
import Accumulator.Proofs.Declarations
import Accumulator.Proofs.Memory
import Accumulator.Proofs.Definedness
import Accumulator.Proofs.IntegerMachine
import Accumulator.Proofs.LockStep
import Accumulator.Proofs.Bounds
import Accumulator.Proofs.Limits
import Accumulator.Proofs.Numerals
import Accumulator.Proofs.Simulation
import Accumulator.Proofs.Pauses
import Accumulator.Proofs.Unread
import Accumulator.Proofs.Grammar
import Accumulator.Proofs.Listing
import Accumulator.Proofs.Resolution
import Accumulator.Proofs.Onward
import Accumulator.Proofs.Places
import Accumulator.Proofs.Crowding
import Accumulator.Proofs.Renaming
import Accumulator.Proofs.Splits
import Accumulator.Proofs.Channels
import Accumulator.Proofs.MinimalOutput
import Accumulator.Proofs.Decoding
import Accumulator.Proofs.Literals
import Accumulator.Proofs.Survival
import Accumulator.Proofs.Display
import Accumulator.Proofs.Refusals
import Accumulator.Proofs.Shifts
import Accumulator.Proofs.Culprits
import Accumulator.Proofs.Growth
import Accumulator.Proofs.Remarks
import Accumulator.Proofs.Styles
import Accumulator.Proofs.Sources
import Accumulator.Proofs.Accounts
import Accumulator.Proofs.Piping
import Accumulator.Proofs.Traces
import Accumulator.Proofs.LineStarts
import Accumulator.Proofs.Joins
import Accumulator.Proofs.Views
