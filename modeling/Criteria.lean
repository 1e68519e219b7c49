import Criteria.Catalog
import Criteria.Combinator
import Criteria.Condition
import Criteria.Criterion
import Criteria.Decimal.Shortest
import Criteria.Decimal.Style
import Criteria.Edit
import Criteria.Encoding
import Criteria.Error
import Criteria.Event
import Criteria.Field
import Criteria.Json.Container
import Criteria.Json.Container.Lemmas
import Criteria.Json.Fault
import Criteria.Json.Number
import Criteria.Json.Passed
import Criteria.Json.Reader
import Criteria.Json.Record
import Criteria.Json.Strings
import Criteria.Json.Strings.Lemmas
import Criteria.Json.Tree
import Criteria.Json.Value
import Criteria.Json.Value.Lemmas
import Criteria.Kind
import Criteria.Omission
import Criteria.Operator
import Criteria.OrderedMap
import Criteria.Panel
import Criteria.Params
import Criteria.Query
import Criteria.Session
import Criteria.Text.Blank
import Criteria.Text.Hex
import Criteria.Text.Percent
import Criteria.Text.Printable
import Criteria.Text.Quoted
import Criteria.Value
import Criteria.Proofs.InsertionOrder
import Criteria.Proofs.QueryTokens
import Criteria.Proofs.Completion
import Criteria.Proofs.Compiled
import Criteria.Proofs.Agreement
import Criteria.Proofs.Keys
import Criteria.Proofs.UnderKey
import Criteria.Proofs.OperatorKeys
import Criteria.Proofs.DateKeys
import Criteria.Proofs.Merge
import Criteria.Proofs.Locality
import Criteria.Proofs.Spelling
import Criteria.Proofs.Activity
import Criteria.Proofs.Independence
import Criteria.Proofs.Runs
import Criteria.Proofs.NumberedIds
import Criteria.Proofs.DistinctIds
import Criteria.Proofs.Counter
import Criteria.Proofs.NewIds
import Criteria.Proofs.Freshness
import Criteria.Proofs.Texts
import Criteria.Proofs.Numerals
import Criteria.Proofs.PassedTexts
import Criteria.Proofs.RecordTexts
import Criteria.Proofs.ValueTexts
import Criteria.Proofs.ConditionTexts
import Criteria.Proofs.Refusals
import Criteria.Proofs.Verdicts
import Criteria.Proofs.Reports
import Criteria.Proofs.Utf8Order
import Criteria.Proofs.ParamsTexts
import Criteria.Proofs.Demands
import Criteria.Proofs.TableFaults
import Criteria.Proofs.Lookup
import Criteria.Proofs.CatalogTexts
import Criteria.Proofs.Commuting
import Criteria.Proofs.Respelling
import Criteria.Proofs.LooseValues
import Criteria.Proofs.StrictPeriods
import Criteria.Proofs.Trails
import Criteria.Proofs.Chronology
import Criteria.Proofs.Search
import Criteria.Proofs.ShortestDecimals
import Criteria.Proofs.NearestDoubles
import Criteria.Proofs.RealTexts
