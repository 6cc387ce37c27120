import BuildRunner.CommandLine.Run
import BuildRunner.Disk.Archive
import BuildRunner.Main
import BuildRunner.Schedule.Loop
import BuildRunner.Shell.Host
import BuildRunner.Task
import BuildRunner.Proofs.Glob.Matching
import BuildRunner.Proofs.Glob.Written
import BuildRunner.Proofs.Path.Relative
import BuildRunner.Proofs.Walk.Trails
import BuildRunner.Proofs.Glob.Levels
import BuildRunner.Proofs.Walk.Pruning
import BuildRunner.Proofs.Machine.Frames
import BuildRunner.Proofs.Disk.Tree
import BuildRunner.Proofs.Disk.Ways
import BuildRunner.Proofs.Disk.Removal
import BuildRunner.Proofs.Disk.NamedFile
import BuildRunner.Proofs.Disk.Opening
import BuildRunner.Proofs.Execution.Starting
import BuildRunner.Proofs.Execution.Waiting
import BuildRunner.Proofs.Execution.Ending
import BuildRunner.Proofs.Execution.Beginning
import BuildRunner.Proofs.Execution.Preparing
import BuildRunner.Proofs.Execution.Books
import BuildRunner.Proofs.Execution.Chores
import BuildRunner.Proofs.Schedule.Sessions
import BuildRunner.Proofs.Execution.Turns
import BuildRunner.Proofs.Execution.Releasing
import BuildRunner.Proofs.Execution.Memory
import BuildRunner.Proofs.Execution.Clearing
import BuildRunner.Proofs.Schedule.Release
import BuildRunner.Proofs.Execution.Restoring
import BuildRunner.Proofs.Execution.Capturing
import BuildRunner.Proofs.Schedule.Interleaving
import BuildRunner.Proofs.Schedule.Limits
import BuildRunner.Proofs.Schedule.Results
import BuildRunner.Proofs.Execution.Agreement
import BuildRunner.Proofs.Walk.Order
import BuildRunner.Proofs.Walk.Found
import BuildRunner.Proofs.Schedule.Returning
import BuildRunner.Proofs.Console.Escaping
import BuildRunner.Proofs.Console.Lines
import BuildRunner.Proofs.Walk.Filters
import BuildRunner.Proofs.Disk.Sinking
import BuildRunner.Proofs.Files.Removed
import BuildRunner.Proofs.Files.Spared
import BuildRunner.Proofs.Glob.Deepening
import BuildRunner.Proofs.Walk.Deepening
import BuildRunner.Proofs.Walk.LookedUp
import BuildRunner.Proofs.Walk.Literal
import BuildRunner.Proofs.Console.Reports
import BuildRunner.Proofs.Execution.Scratch
import BuildRunner.Proofs.Execution.Verdicts
import BuildRunner.Proofs.Execution.FirstTurns
import BuildRunner.Proofs.Schedule.Patience
import BuildRunner.Proofs.Schedule.Programs
import BuildRunner.Proofs.Schedule.Commands
import BuildRunner.Proofs.Disk.Joining
import BuildRunner.Proofs.Files.Changing
import BuildRunner.Proofs.Disk.Status
import BuildRunner.Proofs.Disk.Growing
import BuildRunner.Proofs.Disk.Copying
import BuildRunner.Proofs.Disk.Moving
import BuildRunner.Proofs.Files.Reporting
import BuildRunner.Proofs.Disk.Aiming
import BuildRunner.Proofs.Disk.Making
import BuildRunner.Proofs.Disk.Placing
import BuildRunner.Proofs.Disk.Duplicating
import BuildRunner.Proofs.Disk.Relocating
import BuildRunner.Proofs.Files.Moved
import BuildRunner.Proofs.Execution.Handles
import BuildRunner.Proofs.Execution.Actors
import BuildRunner.Proofs.Execution.Facades
import BuildRunner.Proofs.Execution.ScratchFiles
import BuildRunner.Proofs.Execution.Coherence
import BuildRunner.Proofs.Disk.Touching
import BuildRunner.Proofs.Files.Copied
import BuildRunner.Proofs.Disk.Paving
import BuildRunner.Proofs.Disk.Mirroring
import BuildRunner.Proofs.Disk.Nesting
import BuildRunner.Proofs.Files.Ended
import BuildRunner.Proofs.Command.Splitting
import BuildRunner.Proofs.Text.Decoding
import BuildRunner.Proofs.Disk.Writing
import BuildRunner.Proofs.Execution.Captures
import BuildRunner.Proofs.Disk.Delivering
import BuildRunner.Proofs.Number.Rounding
import BuildRunner.Proofs.Number.Spelling
import BuildRunner.Proofs.Number.Literals
import BuildRunner.Proofs.Execution.Intervals
import BuildRunner.Proofs.Message.Conversions
import BuildRunner.Proofs.Message.Composing
import BuildRunner.Proofs.Files.Delivered
import BuildRunner.Proofs.Console.Printing
