import Nlcpp.Lib.Run
import Nlcpp.Reference
import Nlcpp.Aftermath
import Nlcpp.Sequence
import Nlcpp.Membership
import Nlcpp.Handles
import Nlcpp.Traversal
import Nlcpp.Ownership
import Nlcpp.Watch
import Nlcpp.Dispatch
import Nlcpp.Nesting
import Nlcpp.Accounts
import Nlcpp.Family
import Nlcpp.Interface
import Nlcpp.Encoding
import Nlcpp.Waiting
import Nlcpp.Setters
import Nlcpp.Variables
import Nlcpp.Configuration
import Nlcpp.Description
import Nlcpp.Lifetimes
import Nlcpp.Flags
import Nlcpp.Construction
import Nlcpp.Assignment
import Nlcpp.Received
import Nlcpp.Deletion
import Nlcpp.Tables
import Nlcpp.EmptyHandles
import Nlcpp.FlagExpressions
import Nlcpp.CommandLine
import Nlcpp.Arguments
import Nlcpp.Commands
import Nlcpp.Session
