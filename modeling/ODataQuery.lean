import ODataQuery.Main
import ODataQuery.Proofs.Document.Query
import ODataQuery.Proofs.Filter.Desugar
import ODataQuery.Proofs.Filter.EmptyClause
import ODataQuery.Proofs.Filter.Isolation
import ODataQuery.Proofs.Filter.Noninterference
import ODataQuery.Proofs.Filter.Qualification
import ODataQuery.Proofs.Filter.Unambiguous.Predicate
import ODataQuery.Proofs.Filter.WellFormed
import ODataQuery.Proofs.Literal.Date
import ODataQuery.Proofs.Literal.Integer
import ODataQuery.Proofs.Literal.Number
import ODataQuery.Proofs.Literal.Token
import ODataQuery.Proofs.Query.Filters
import ODataQuery.Proofs.Query.Parameters
import ODataQuery.Proofs.Query.SinglePass
import ODataQuery.Proofs.Schema.Convention
import ODataQuery.Proofs.Schema.Growth
import ODataQuery.Proofs.Schema.Order
import ODataQuery.Proofs.Schema.Suggestion
