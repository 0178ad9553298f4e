import OSaSP.Foundations.Machine
import OSaSP.Foundations.Pool
import OSaSP.Foundations.RingWindow
import OSaSP.Foundations.Mixing
import OSaSP.Foundations.Observer
import OSaSP.Foundations.Progress
import OSaSP.Foundations.Lifetime
import OSaSP.Foundations.Mailbox
import OSaSP.Foundations.Numbering
import OSaSP.Foundations.ProcessTable
import OSaSP.Foundations.Simulation
import OSaSP.SharedQueue.BufferTypes
import OSaSP.SharedQueue.Processes
import OSaSP.SharedQueue.Conservation
import OSaSP.SharedQueue.Fifo
import OSaSP.SharedQueue.Admission
import OSaSP.SharedQueue.Termination
import OSaSP.SharedQueue.Throughput
import OSaSP.SharedQueue.Blocking
import OSaSP.SharedQueue.Checksum
import OSaSP.SharedQueue.Numbers
import OSaSP.SharedQueue.Children
import OSaSP.ThreadQueue.CircularQueue
import OSaSP.ThreadQueue.LabControl
import OSaSP.ThreadQueue.SemThreads
import OSaSP.ThreadQueue.CondThreads
import OSaSP.ThreadQueue.Resize
import OSaSP.ThreadQueue.QueueMoves
import OSaSP.ThreadQueue.SemMoves
import OSaSP.ThreadQueue.CondMoves
import OSaSP.ThreadQueue.Fifo
import OSaSP.ThreadQueue.Bounds
import OSaSP.ThreadQueue.Requests
import OSaSP.ThreadQueue.Tokens
import OSaSP.ThreadQueue.Crew
import OSaSP.ThreadQueue.Workers
import OSaSP.ThreadQueue.Stopping
import OSaSP.ThreadQueue.Message
import OSaSP.ThreadQueue.Ids
import OSaSP.ThreadQueue.Flags
import OSaSP.ThreadQueue.Hands
import OSaSP.ThreadQueue.MessageLife
import OSaSP.ThreadQueue.Custody
import OSaSP.ThreadQueue.Ending
import OSaSP.ThreadQueue.Program
import OSaSP.Foundations.Segment
import OSaSP.Foundations.Phased
import OSaSP.IndexSort.Merge
import OSaSP.IndexSort.Interleaving
import OSaSP.IndexSort.Workers
import OSaSP.IndexSort.Layout
import OSaSP.IndexSort.Phases
import OSaSP.IndexSort.Runs
import OSaSP.IndexSort.Parallel
import OSaSP.IndexSort.SortIndex
import OSaSP.IndexSort.Bounds
import OSaSP.IndexSort.Returns
import OSaSP.IndexSort.Generated
import OSaSP.IndexSort.Serial
import OSaSP.IndexSort.ThreadCounts
import OSaSP.Foundations.CString
import OSaSP.Foundations.RenderedPath
import OSaSP.FileServer.BuildPath
import OSaSP.Foundations.LineReader
import OSaSP.Foundations.BoundedReader
import OSaSP.FileServer.Session
import OSaSP.FileServer.Segmentation
import OSaSP.FileServer.Client
import OSaSP.FileServer.ReadLine
import OSaSP.FileServer.Dialogue
import OSaSP.FileServer.Script
import OSaSP.FileServer.Directories
import OSaSP.FileServer.Shutdown
import OSaSP.Foundations.PosixTree
import OSaSP.Foundations.CanonicalPaths
import OSaSP.FileServer.Listing
import OSaSP.RecordEditor.Editors
import OSaSP.RecordEditor.LockedWrites
import OSaSP.RecordEditor.KeptEdits
import OSaSP.RecordEditor.Retries
import OSaSP.Foundations.Strtol
import OSaSP.RecordEditor.Prompts
import OSaSP.RecordEditor.InventoryNumber
import OSaSP.RecordEditor.Table
import OSaSP.RecordEditor.Refinement
import OSaSP.RecordEditor.Generation
import OSaSP.ChildEnvironment.ReadEnvFile
import OSaSP.ChildEnvironment.Program
import OSaSP.ProcessManager.Parent
import OSaSP.ProcessManager.Handler
import OSaSP.ProcessManager.Listing
import OSaSP.ProcessManager.TableKept
import OSaSP.ProcessManager.Names
import OSaSP.ProcessManager.Completion
import OSaSP.ProcessManager.Commands
import OSaSP.ProcessManager.Reports
import OSaSP.Foundations.Descent
import OSaSP.DirWalk.Traversal
import OSaSP.DirWalk.Places
import OSaSP.DirWalk.CutPaths
import OSaSP.DirWalk.Collected
import OSaSP.DirWalk.Program
