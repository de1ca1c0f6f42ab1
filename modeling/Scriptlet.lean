import Scriptlet.Main
import Scriptlet.Syntax.Parser
import Scriptlet.Proofs.Session.TypeSound
import Scriptlet.Proofs.Scoping
import Scriptlet.Proofs.Lexical.Refinement
import Scriptlet.Proofs.Token.Lexer
import Scriptlet.Proofs.Syntax.Accounting
import Scriptlet.Proofs.Syntax.Inverse
import Scriptlet.Proofs.Binding.Typing
import Scriptlet.Proofs.Leftovers
import Scriptlet.Proofs.Binding.Unplaced
import Scriptlet.Proofs.Incremental
import Scriptlet.Proofs.Layout
import Scriptlet.Proofs.Text.Lines
import Scriptlet.Proofs.Syntax.Spans
import Scriptlet.Proofs.Session.Rendered
import Scriptlet.Proofs.Syntax.Extent
import Scriptlet.Proofs.Binding.Stacked
import Scriptlet.Proofs.Session.Traceless
import Scriptlet.Proofs.Binding.Faulty
import Scriptlet.Proofs.Binding.History
import Scriptlet.Proofs.Syntax.Calls
import Scriptlet.Proofs.Arithmetic
import Scriptlet.Proofs.Run.Unrolled
import Scriptlet.Proofs.Run.Ending
import Scriptlet.Proofs.Text.Positions
import Scriptlet.Proofs.Console.Course
import Scriptlet.Proofs.Binding.Drawn
import Scriptlet.Proofs.Scope.Indexed
