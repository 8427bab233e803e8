import LoxLang.Main
import LoxLang.Proofs.Grammar.Acceptance
import LoxLang.Proofs.Run.Dispatch
import LoxLang.Proofs.Scope.StaticRules
import LoxLang.Proofs.Run.Restoration
import LoxLang.Proofs.Token.Lines
import LoxLang.Proofs.Token.Munch
import LoxLang.Proofs.Grammar.Rereading.Basic
import LoxLang.Proofs.Grammar.Rereading.Expression
import LoxLang.Proofs.Grammar.Rereading.Program
import LoxLang.Proofs.Scope.Relabeling
import LoxLang.Proofs.Run.Relabeling.World
import LoxLang.Proofs.Run.Relabeling.Machine
import LoxLang.Proofs.Session.Reply
import LoxLang.Proofs.Session.Relabeling
import LoxLang.Proofs.Session.Rejection
import LoxLang.Proofs.Token.Joining
import LoxLang.Proofs.Run.Returning
import LoxLang.Proofs.Run.Continuation
import LoxLang.Proofs.Session.Joining
import LoxLang.Proofs.Run.Writing
import LoxLang.Proofs.Session.Capacity
import LoxLang.Proofs.Run.Binding
import LoxLang.Proofs.Run.Faults
import LoxLang.Proofs.Run.Globals
import LoxLang.Proofs.Run.Recasting
import LoxLang.Proofs.Run.Respelling.World
import LoxLang.Proofs.Run.Respelling.Machine
import LoxLang.Proofs.Scope.Declarations
import LoxLang.Proofs.Tree.Renaming
import LoxLang.Proofs.Scope.Renaming
import LoxLang.Proofs.Scope.LocalRenaming
import LoxLang.Proofs.Run.Respelling.Renaming
import LoxLang.Proofs.Session.Renaming
import LoxLang.Proofs.Session.Discipline
import LoxLang.Proofs.Run.Assignment
import LoxLang.Proofs.Token.Wrapping
import LoxLang.Proofs.Grammar.Standalone
import LoxLang.Proofs.Run.Plain
import LoxLang.Proofs.Run.Room
import LoxLang.Proofs.Session.Printing
import LoxLang.Proofs.CommandLine.Status
import LoxLang.Proofs.Grammar.Precedence
import LoxLang.Proofs.Grammar.Relaxed.FirstFault
import LoxLang.Proofs.Grammar.Recovery
import LoxLang.Proofs.Grammar.Walk.Safety
import LoxLang.Proofs.Grammar.Descent.Balance
import LoxLang.Proofs.Grammar.Depth
import LoxLang.Proofs.Grammar.Outlining
import LoxLang.Proofs.Token.Newlines
import LoxLang.Proofs.Token.Spacing
import LoxLang.Proofs.Token.Mending
import LoxLang.Proofs.Token.Numbers
import LoxLang.Proofs.Store.Forest
import LoxLang.Proofs.Run.Initializing
import LoxLang.Proofs.Run.Heap
import LoxLang.Proofs.Run.Arguments
import LoxLang.Proofs.Session.Numbering
import LoxLang.Proofs.Loop.Meaning
