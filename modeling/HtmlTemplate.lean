import HtmlTemplate.Files.Library
import HtmlTemplate.Main
import HtmlTemplate.Markup.Arena
import HtmlTemplate.Proofs.Expr.Context
import HtmlTemplate.Proofs.Expr.Equality
import HtmlTemplate.Proofs.Expr.Extents
import HtmlTemplate.Proofs.Expr.Parens
import HtmlTemplate.Proofs.Files.Path
import HtmlTemplate.Proofs.Markup.References
import HtmlTemplate.Proofs.Markup.Reprint
import HtmlTemplate.Proofs.Markup.Resolved
import HtmlTemplate.Proofs.Markup.TagGrammar
import HtmlTemplate.Proofs.Markup.Uncut
import HtmlTemplate.Proofs.Markup.VoidClosing
import HtmlTemplate.Proofs.Render.Angles
import HtmlTemplate.Proofs.Render.Chains
import HtmlTemplate.Proofs.Render.Ending
import HtmlTemplate.Proofs.Render.Heads
import HtmlTemplate.Proofs.Render.Loops
import HtmlTemplate.Proofs.Render.Marks
import HtmlTemplate.Proofs.Render.Orders
import HtmlTemplate.Proofs.Render.SlotNames
import HtmlTemplate.Proofs.Render.Slots
import HtmlTemplate.Proofs.Render.Static
import HtmlTemplate.Proofs.Render.Trace
import HtmlTemplate.Proofs.Render.Unfolding
import HtmlTemplate.Proofs.Render.Verbatim
import HtmlTemplate.Proofs.Session
import HtmlTemplate.Session
