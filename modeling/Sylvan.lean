import Sylvan.Theorems.Armed
import Sylvan.Theorems.Atomic
import Sylvan.Theorems.Custody
import Sylvan.Theorems.NewProcess
import Sylvan.Theorems.Rearm
import Sylvan.Theorems.UserWrites
import Sylvan.Theorems.Transparent
import Sylvan.Theorems.LastError
import Sylvan.Theorems.Asserts
import Sylvan.Theorems.Attachment
import Sylvan.Theorems.FailedAttach
import Sylvan.Lib.Search
import Sylvan.Theorems.Loading
import Sylvan.Theorems.Lookup
import Sylvan.Theorems.SameTables
import Sylvan.Theorems.SortedTables
import Sylvan.Lib.Numeral
import Sylvan.Theorems.Addresses
import Sylvan.Theorems.Tokens
import Sylvan.Theorems.Numbers
import Sylvan.Theorems.Stored
import Sylvan.Theorems.OneAddress
import Sylvan.Theorems.MemoryWrites
import Sylvan.Theorems.Placement
import Sylvan.Theorems.HitReports
import Sylvan.Theorems.Aliases
import Sylvan.Child
import Sylvan.Theorems.ChildReports
import Sylvan.Theorems.ValueTokens
import Sylvan.Theorems.MemoryCommand
import Sylvan.Theorems.CommandFrames
import Sylvan.Theorems.LiveInferior
import Sylvan.Theorems.RegisterValues
import Sylvan.Theorems.AuxvRecords
import Sylvan.Theorems.Listing
import Sylvan.Theorems.Mapped
import Sylvan.Theorems.Growth
import Sylvan.Theorems.Scanning
import Sylvan.Theorems.Resolution
import Sylvan.Theorems.KeptLabels
import Sylvan.Theorems.FilePaths
import Sylvan.Theorems.Verbatim
import Sylvan.Theorems.Ranges
import Sylvan.Ui.Startup
import Sylvan.Theorems.Decimals
import Sylvan.Lib.Block
import Sylvan.Stores
import Sylvan.Theorems.MessageBuffer
import Sylvan.Theorems.PathSearch
import Sylvan.Lib.ShellWords
import Sylvan.Theorems.CommandLine
import Sylvan.Theorems.Arguments
import Sylvan.Theorems.Tokenizing
import Sylvan.Ui.Table
import Sylvan.Theorems.TablePages
import Sylvan.Theorems.HashRuns
import Sylvan.Theorems.RegistryRuns
import Sylvan.Theorems.PipeParent
import Sylvan.Theorems.LibraryRuns
import Sylvan.Theorems.ConsoleTurns
