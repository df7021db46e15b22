import BlockScript.Main
import BlockScript.Proofs.Equality
import BlockScript.Proofs.FailedStatement
import BlockScript.Proofs.Kinds
import BlockScript.Proofs.Layout
import BlockScript.Proofs.LexicalScope
import BlockScript.Proofs.LimitedOutput
import BlockScript.Proofs.MentionedNames
import BlockScript.Proofs.Modes
import BlockScript.Proofs.Number.Bits
import BlockScript.Proofs.Number.Numeral
import BlockScript.Proofs.Number.Rounding
import BlockScript.Proofs.Parse.OffendingToken
import BlockScript.Proofs.Parse.Recovery
import BlockScript.Proofs.Phrase
import BlockScript.Proofs.Places
import BlockScript.Proofs.Prompt
import BlockScript.Proofs.Reachable
import BlockScript.Proofs.ReadBack
import BlockScript.Proofs.Scan.UnexpectedCharacters
import BlockScript.Proofs.ScopeFrame
import BlockScript.Proofs.Simulation
import BlockScript.Proofs.TokenText
import BlockScript.Proofs.TransparentBlock
import BlockScript.Proofs.Writer
import BlockScript.Proofs.TreeText
