import ScriptVet.Analyzer.Batch
import ScriptVet.Audit.Json.Reader
import ScriptVet.Grammar.Fixture
import ScriptVet.Text.Utf8
import ScriptVet.Proofs.Ast.Search
import ScriptVet.Proofs.Run
import ScriptVet.Proofs.Sql.Mutation
import ScriptVet.Proofs.Scope
import ScriptVet.Proofs.TableSet
import ScriptVet.Proofs.Sql.References
import ScriptVet.Proofs.Kql.Segment
import ScriptVet.Proofs.Text.Trim
import ScriptVet.Proofs.Kql.Quote
import ScriptVet.Proofs.Kql.Whole
import ScriptVet.Proofs.Kql.Statement
import ScriptVet.Proofs.Kql.Script
import ScriptVet.Proofs.Text.Percent
import ScriptVet.Proofs.Table
import ScriptVet.Proofs.Kql.Literal
import ScriptVet.Proofs.Kql.SetCommand
import ScriptVet.Proofs.Run.Law
import ScriptVet.Proofs.Sql.Statement
import ScriptVet.Proofs.Script
import ScriptVet.Proofs.Analyzer.Outcome
import ScriptVet.Proofs.Analyzer.Questions
import ScriptVet.Analyzer.Session
import ScriptVet.Proofs.Analyzer.Batch
import ScriptVet.Proofs.Analyzer.Session
import ScriptVet.Proofs.Analyzer.Tables
import ScriptVet.Proofs.Audit.Json
import ScriptVet.Proofs.Analyzer.Trail
import ScriptVet.Proofs.Statement
import ScriptVet.Proofs.Sql.Keyword
import ScriptVet.Proofs.Sql.Nesting
import ScriptVet.Proofs.Ast.Order
import ScriptVet.Proofs.Settings
import ScriptVet.Proofs.Kql.Concat
import ScriptVet.Kql.Token
import ScriptVet.Proofs.Kql.SetParts
import ScriptVet.Proofs.Kql.Token
import ScriptVet.Proofs.Kql.Foreign
import ScriptVet.Proofs.Text.Padded
import ScriptVet.Proofs.Audit.Calendar
import ScriptVet.Proofs.Audit.Timestamp
import ScriptVet.Proofs.Text.Utf8
import ScriptVet.Proofs.Audit.Utf8
import ScriptVet.Proofs.Analyzer.Utf8
import ScriptVet.Proofs.Config
