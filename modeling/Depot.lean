import Depot.Mapping
import Depot.Text.Blank
import Depot.Number.Layout
import Depot.Number.Reading
import Depot.Base64
import Depot.Json.Printer
import Depot.Json.Token
import Depot.Attribute.Encoding
import Depot.Attribute.Decoding
import Depot.Value.Payload
import Depot.Key
import Depot.Condition
import Depot.Clauses
import Depot.Cursor
import Depot.Transaction
import Depot.Batch
import Depot.Query
import Depot.Store.Call
import Depot.Queue.Call
import Depot.Wire.Request
import Depot.Wire.Refusal
import Depot.Wire.Reply
import Depot.Proofs.Mapping
import Depot.Proofs.Encoding
import Depot.Proofs.Failure
import Depot.Proofs.Fragment
import Depot.Proofs.Merge
import Depot.Proofs.Placeholder
import Depot.Proofs.Condition
import Depot.Proofs.Expression.Token
import Depot.Proofs.Expression.Formula
import Depot.Proofs.Expression.Grammar
import Depot.Proofs.Expression.Filter
import Depot.Proofs.Clauses
import Depot.Proofs.Operation
import Depot.Proofs.Base64
import Depot.Proofs.Json.Token
import Depot.Proofs.Json.Grammar
import Depot.Proofs.Cursor
import Depot.Proofs.Cursor.Format
import Depot.Proofs.Session
import Depot.Proofs.Queue.Exchange
import Depot.Proofs.Queue.History
import Depot.Proofs.Queue.Provenance
import Depot.Proofs.Queue.Batches
import Depot.Proofs.Transaction
import Depot.Proofs.Pagination
import Depot.Proofs.Update.Reading
import Depot.Proofs.Cursor.Canonical
import Depot.Proofs.KeyCondition
import Depot.Proofs.Store
import Depot.Proofs.Setting
import Depot.Proofs.Guard
import Depot.Proofs.Demand
import Depot.Proofs.Json.Compact
import Depot.Proofs.Queue.Listing
import Depot.Proofs.Queue.Pieces
import Depot.Proofs.Update.Accumulation
import Depot.Proofs.Options
import Depot.Proofs.Classification
import Depot.Proofs.Batch
import Depot.Proofs.Wire
import Depot.Proofs.Decoding
import Depot.Proofs.ReadBack
