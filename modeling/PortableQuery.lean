import PortableQuery.Aql.Loop
import PortableQuery.Base64
import PortableQuery.Calendar.Date
import PortableQuery.Calendar.Reading
import PortableQuery.Calendar.Timestamp
import PortableQuery.Condition
import PortableQuery.Cql.Native
import PortableQuery.Cql.Select
import PortableQuery.Document.ExtendedJson
import PortableQuery.Document.Find
import PortableQuery.Error
import PortableQuery.Form.Condition
import PortableQuery.Form.Query
import PortableQuery.Form.Record
import PortableQuery.Form.Schema
import PortableQuery.Form.Value
import PortableQuery.Json.Basic
import PortableQuery.Json.Plain
import PortableQuery.Json.Printer
import PortableQuery.Json.Raw
import PortableQuery.Json.Reader
import PortableQuery.Lowering.Binder
import PortableQuery.Lowering.Capabilities
import PortableQuery.Lowering.Compile
import PortableQuery.Lowering.Dialect
import PortableQuery.Named
import PortableQuery.Number.Decimal
import PortableQuery.Number.DecimalText
import PortableQuery.Number.Digits
import PortableQuery.Number.Double
import PortableQuery.Number.DoubleText
import PortableQuery.Number.Scaled
import PortableQuery.Number.Shortest
import PortableQuery.Pager
import PortableQuery.Query
import PortableQuery.Schema.Cache
import PortableQuery.Schema.FieldType
import PortableQuery.Schema.Source
import PortableQuery.Search.Body
import PortableQuery.Sql.Binding
import PortableQuery.Sql.Select
import PortableQuery.Text.Name
import PortableQuery.Text.Printing
import PortableQuery.Uuid
import PortableQuery.Value
import PortableQuery.Proofs.Alike
import PortableQuery.Proofs.Aql.Filter
import PortableQuery.Proofs.Aql.Parameters
import PortableQuery.Proofs.Aql.Placeholders
import PortableQuery.Proofs.Aql.Reading
import PortableQuery.Proofs.Aql.RoundTrip
import PortableQuery.Proofs.Aql.Rows
import PortableQuery.Proofs.Aql.Selection
import PortableQuery.Proofs.Base64
import PortableQuery.Proofs.Base64.Canonical
import PortableQuery.Proofs.Calendar.Leap
import PortableQuery.Proofs.Calendar.Reading
import PortableQuery.Proofs.Calendar.Relaxed
import PortableQuery.Proofs.Calendar.Scanning
import PortableQuery.Proofs.Cql.Conversion
import PortableQuery.Proofs.Cql.Filter
import PortableQuery.Proofs.Cql.Lossless
import PortableQuery.Proofs.Cql.Placeholders
import PortableQuery.Proofs.Cql.Reading
import PortableQuery.Proofs.Cql.RoundTrip
import PortableQuery.Proofs.Cql.Session
import PortableQuery.Proofs.Cql.Typing
import PortableQuery.Proofs.Cursor
import PortableQuery.Proofs.Diversion
import PortableQuery.Proofs.Document.Encoding
import PortableQuery.Proofs.Document.Filter
import PortableQuery.Proofs.Document.Operands
import PortableQuery.Proofs.Document.Reading
import PortableQuery.Proofs.Document.Regex
import PortableQuery.Proofs.Document.Regex.Syntax
import PortableQuery.Proofs.Document.RoundTrip
import PortableQuery.Proofs.Document.Storable
import PortableQuery.Proofs.Document.Temporal
import PortableQuery.Proofs.EmptyName
import PortableQuery.Proofs.Failure
import PortableQuery.Proofs.Form.Bounded
import PortableQuery.Proofs.Form.Condition
import PortableQuery.Proofs.Form.Query
import PortableQuery.Proofs.Form.Reading
import PortableQuery.Proofs.Form.Schema
import PortableQuery.Proofs.Form.Shipping
import PortableQuery.Proofs.Form.Stable
import PortableQuery.Proofs.Form.Text
import PortableQuery.Proofs.Form.Value
import PortableQuery.Proofs.Formula
import PortableQuery.Proofs.Json.Bounded
import PortableQuery.Proofs.Json.Number
import PortableQuery.Proofs.Json.Numeral
import PortableQuery.Proofs.Json.Plain
import PortableQuery.Proofs.Json.Quoted
import PortableQuery.Proofs.Json.Renderable
import PortableQuery.Proofs.Json.RoundTrip
import PortableQuery.Proofs.Json.Text
import PortableQuery.Proofs.Lowering.Alike
import PortableQuery.Proofs.Lowering.Calls
import PortableQuery.Proofs.Lowering.Diversion
import PortableQuery.Proofs.Lowering.EmptyName
import PortableQuery.Proofs.Lowering.Failure
import PortableQuery.Proofs.Lowering.Fault
import PortableQuery.Proofs.Lowering.Keys
import PortableQuery.Proofs.Lowering.Naming
import PortableQuery.Proofs.Lowering.Null
import PortableQuery.Proofs.Lowering.Operands
import PortableQuery.Proofs.Lowering.Refusal
import PortableQuery.Proofs.Lowering.Shape
import PortableQuery.Proofs.Lowering.Simulation
import PortableQuery.Proofs.Lowering.Support
import PortableQuery.Proofs.Lowering.Walk
import PortableQuery.Proofs.Naming
import PortableQuery.Proofs.Null
import PortableQuery.Proofs.Number.DecimalText
import PortableQuery.Proofs.Number.Digits
import PortableQuery.Proofs.Number.Rounding
import PortableQuery.Proofs.Number.Scaled
import PortableQuery.Proofs.Number.Shortest
import PortableQuery.Proofs.Operands
import PortableQuery.Proofs.Order.Effective
import PortableQuery.Proofs.Order.Statements
import PortableQuery.Proofs.Paging.Calls
import PortableQuery.Proofs.Paging.Pages
import PortableQuery.Proofs.Paging.Resumption
import PortableQuery.Proofs.Refusal
import PortableQuery.Proofs.Schema.Asking
import PortableQuery.Proofs.Schema.Cache
import PortableQuery.Proofs.Search.Operands
import PortableQuery.Proofs.Search.Reading
import PortableQuery.Proofs.Search.Selection
import PortableQuery.Proofs.Search.Wildcard
import PortableQuery.Proofs.Search.Window
import PortableQuery.Proofs.Shape
import PortableQuery.Proofs.Sql.Binding
import PortableQuery.Proofs.Sql.Filter
import PortableQuery.Proofs.Sql.Placeholders
import PortableQuery.Proofs.Sql.Reading
import PortableQuery.Proofs.Sql.RoundTrip
import PortableQuery.Proofs.Statement.Clause
import PortableQuery.Proofs.Statement.Grammar
import PortableQuery.Proofs.Statement.Meaning
import PortableQuery.Proofs.Statement.Mention
import PortableQuery.Proofs.Statement.NameToken
import PortableQuery.Proofs.Statement.Numbering
import PortableQuery.Proofs.Statement.Placeholder
import PortableQuery.Proofs.Statement.Token
import PortableQuery.Proofs.Text.Ascii
import PortableQuery.Proofs.Text.Blank
import PortableQuery.Proofs.Text.Like
import PortableQuery.Proofs.Text.Name
import PortableQuery.Proofs.Uuid
import PortableQuery.Proofs.Value
