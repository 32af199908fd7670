import RemoteTables.Batch.Basic
import RemoteTables.Batch.CellVector
import RemoteTables.Calendar.Date
import RemoteTables.Calendar.Instant
import RemoteTables.Column
import RemoteTables.CommandLine.HelpPage
import RemoteTables.CommandLine.Invocation
import RemoteTables.CommandLine.Run
import RemoteTables.Connector
import RemoteTables.Constraint
import RemoteTables.Decimal.Binary64
import RemoteTables.Dialogue
import RemoteTables.Domain
import RemoteTables.Expression.Basic
import RemoteTables.Expression.Constraint
import RemoteTables.Expression.Truth
import RemoteTables.Failure
import RemoteTables.Github.Access
import RemoteTables.Github.Entity.Account
import RemoteTables.Github.Entity.Artifact
import RemoteTables.Github.Entity.Issue
import RemoteTables.Github.Entity.Job
import RemoteTables.Github.Entity.PullRequest
import RemoteTables.Github.Entity.Repository
import RemoteTables.Github.Entity.Workflow
import RemoteTables.Github.Fetch
import RemoteTables.Github.Filter
import RemoteTables.Github.Tables
import RemoteTables.Handle
import RemoteTables.Http.Endpoint
import RemoteTables.Http.Header
import RemoteTables.Http.Reply
import RemoteTables.Http.Request
import RemoteTables.Json.Complete
import RemoteTables.Json.Decode
import RemoteTables.Json.Fragment
import RemoteTables.Json.Record
import RemoteTables.Json.Value
import RemoteTables.Json.Writer
import RemoteTables.LateFilter
import RemoteTables.Listing.Collect
import RemoteTables.Listing.Page
import RemoteTables.Listing.Window
import RemoteTables.Literal
import RemoteTables.Main
import RemoteTables.PlannedTable
import RemoteTables.Proofs.Batch.Stored
import RemoteTables.Proofs.Batch.Transpose
import RemoteTables.Proofs.Calendar.Dates
import RemoteTables.Proofs.Calendar.Instants
import RemoteTables.Proofs.Dialogue.Answered
import RemoteTables.Proofs.Dialogue.Truncation
import RemoteTables.Proofs.Expression.Exact
import RemoteTables.Proofs.Github.Consistent
import RemoteTables.Proofs.Github.Faults
import RemoteTables.Proofs.Github.Limit
import RemoteTables.Proofs.Github.Reading
import RemoteTables.Proofs.Github.Requests
import RemoteTables.Proofs.Github.Required
import RemoteTables.Proofs.Github.Rows
import RemoteTables.Proofs.Github.Since
import RemoteTables.Proofs.Github.Splitting
import RemoteTables.Proofs.Github.Windows
import RemoteTables.Proofs.Handle.Nesting
import RemoteTables.Proofs.Handle.Wire
import RemoteTables.Proofs.Handle.Written
import RemoteTables.Proofs.Http.Addresses
import RemoteTables.Proofs.Json.Decoding
import RemoteTables.Proofs.Json.Parts
import RemoteTables.Proofs.Json.Reading
import RemoteTables.Proofs.Json.Yielding
import RemoteTables.Proofs.Listing.Asked
import RemoteTables.Proofs.Listing.FailFast
import RemoteTables.Proofs.Listing.Numbers
import RemoteTables.Proofs.Listing.Served
import RemoteTables.Proofs.Listing.Strides
import RemoteTables.Proofs.Listing.Truncation
import RemoteTables.Proofs.Listing.Visits
import RemoteTables.Proofs.Pushdown.Again
import RemoteTables.Proofs.Pushdown.Checks
import RemoteTables.Proofs.Pushdown.Explode
import RemoteTables.Proofs.Pushdown.Hollow
import RemoteTables.Proofs.Pushdown.Late
import RemoteTables.Proofs.Pushdown.Order
import RemoteTables.Proofs.Pushdown.Partition
import RemoteTables.Proofs.Pushdown.Reached
import RemoteTables.Proofs.Pushdown.Resolved
import RemoteTables.Proofs.Pushdown.Scan
import RemoteTables.Proofs.Pushdown.Taken
import RemoteTables.Proofs.Scan.Payload
import RemoteTables.Proofs.Sets.Accessors
import RemoteTables.Proofs.Sets.Alike
import RemoteTables.Proofs.Sets.Constraints
import RemoteTables.Proofs.Sets.Cuts
import RemoteTables.Proofs.Sets.Domains
import RemoteTables.Proofs.Sets.Entries
import RemoteTables.Proofs.Sets.Literals
import RemoteTables.Proofs.Sets.Points
import RemoteTables.Proofs.Sets.Ranges
import RemoteTables.Proofs.Sets.Vacant
import RemoteTables.Proofs.Text.Utf8
import RemoteTables.Proofs.Url.Added
import RemoteTables.Proofs.Url.Delimited
import RemoteTables.Proofs.Url.Percent
import RemoteTables.Pushdown
import RemoteTables.Range
import RemoteTables.Scan.Basic
import RemoteTables.Scan.Fault
import RemoteTables.Scan.Payload
import RemoteTables.Settings
import RemoteTables.Table.Definition
import RemoteTables.Table.Fetch
import RemoteTables.Text.Blank
import RemoteTables.Text.Integer
import RemoteTables.Text.Quoted
import RemoteTables.Text.Unseen
import RemoteTables.Text.Utf8
import RemoteTables.Url.Basic
import RemoteTables.Url.DomainName
import RemoteTables.Url.Extend
import RemoteTables.Url.Host
import RemoteTables.Url.Percent
import RemoteTables.Value
