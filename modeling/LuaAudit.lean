import LuaAudit.Command
import LuaAudit.Docs.Extract
import LuaAudit.Index.Queue
import LuaAudit.Json.Reader
import LuaAudit.Json.Show
import LuaAudit.Json.Writer
import LuaAudit.Lint.Passes
import LuaAudit.Lint.Report
import LuaAudit.Main
import LuaAudit.Proofs.Lint.Place
import LuaAudit.Proofs.Scan.Apart
import LuaAudit.Proofs.Scan.Settle
import LuaAudit.Scan.Workspace
import LuaAudit.Server.Config
import LuaAudit.Server.Docs
import LuaAudit.Server.Help
import LuaAudit.Server.Lifespan
import LuaAudit.Settings.Load
import LuaAudit.Proofs.Docs.Record
import LuaAudit.Proofs.Docs.Extract
import LuaAudit.Proofs.Docs.Timestamp
import LuaAudit.Proofs.Files.Write
import LuaAudit.Proofs.Json.Written
import LuaAudit.Proofs.Text.Utf8
import LuaAudit.Proofs.Fetch.Served
import LuaAudit.Proofs.Index.Catalogue
import LuaAudit.Proofs.Index.Refresh
import LuaAudit.Proofs.Lua.Literal
import LuaAudit.Proofs.Lint.Blind
import LuaAudit.Proofs.Lint.Find
import LuaAudit.Proofs.Lint.WellFormed
import LuaAudit.Proofs.Index.Callers
import LuaAudit.Proofs.Fetch.Honest
import LuaAudit.Proofs.Index.Fresh
import LuaAudit.Proofs.Docs.Printed
import LuaAudit.Proofs.Server.Envelope
import LuaAudit.Proofs.Index.Listed
import LuaAudit.Proofs.Lint.Comment
import LuaAudit.Proofs.Lint.LineEnd
import LuaAudit.Proofs.Server.Setting
import LuaAudit.Proofs.Index.SingleFlight
import LuaAudit.Proofs.Server.Workspace
import LuaAudit.Proofs.Lua.Inert
import LuaAudit.Proofs.Lint.Block
import LuaAudit.Proofs.Lint.Loop
import LuaAudit.Proofs.Lua.Joined
import LuaAudit.Proofs.Server.Help
import LuaAudit.Proofs.Lint.Advice
import LuaAudit.Proofs.Lint.Leak
import LuaAudit.Proofs.Lint.Order
import LuaAudit.Proofs.Docs.Attached
import LuaAudit.Proofs.Docs.Mixed
import LuaAudit.Proofs.Index.Preferred
import LuaAudit.Proofs.Fetch.Backoff
import LuaAudit.Proofs.Fetch.Body
import LuaAudit.Proofs.Docs.Catalog
import LuaAudit.Proofs.Number.Shortest
import LuaAudit.Proofs.Json.Number
import LuaAudit.Proofs.Docs.Readable
import LuaAudit.Proofs.Index.Load
import LuaAudit.Proofs.Docs.Settled
import LuaAudit.Proofs.Index.Reload
import LuaAudit.Proofs.Scan.Flush
import LuaAudit.Proofs.Scan.Coverage
import LuaAudit.Proofs.Index.TypesFiles
import LuaAudit.Proofs.Index.Clear
import LuaAudit.Proofs.Scan.Document
import LuaAudit.Proofs.Fetch.Unusable
import LuaAudit.Proofs.Lint.Phrase
import LuaAudit.Proofs.Lint.Yield
import LuaAudit.Proofs.Docs.Example
import LuaAudit.Proofs.Lint.Code
import LuaAudit.Proofs.Lint.Depth
