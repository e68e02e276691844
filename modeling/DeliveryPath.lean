import DeliveryPath.Defaults
import DeliveryPath.Json.Parser
import DeliveryPath.Transformation.Branch
import DeliveryPath.Transformation.OfJson
import DeliveryPath.Proofs.References
import DeliveryPath.Proofs.Abbreviation
import DeliveryPath.Proofs.CompactForm
import DeliveryPath.Proofs.Flattening
import DeliveryPath.Proofs.PathParts
import DeliveryPath.Proofs.MarkerIsolation
import DeliveryPath.Proofs.Building
import DeliveryPath.Proofs.Runs
import DeliveryPath.Proofs.ForwardClosing
import DeliveryPath.Proofs.ConditionalBlocks
import DeliveryPath.Proofs.ClosingBlocks
import DeliveryPath.Proofs.Reachability
import DeliveryPath.Proofs.ParameterMap
import DeliveryPath.Proofs.CanonicalOrder
import DeliveryPath.Proofs.ByteOrder
import DeliveryPath.Proofs.ComponentOrder
import DeliveryPath.Proofs.CompactSteps
import DeliveryPath.Proofs.CodedText
import DeliveryPath.Proofs.Tokens
import DeliveryPath.Proofs.OperatorSpelling
import DeliveryPath.Proofs.Omission
import DeliveryPath.Proofs.Failure
import DeliveryPath.Proofs.RemoteUrls
import DeliveryPath.Proofs.Numerals
import DeliveryPath.Proofs.KeyframeIntervals
import DeliveryPath.Proofs.OverlayEncoding
import DeliveryPath.Proofs.OverlayStretches
import DeliveryPath.Proofs.LeadingToken
import DeliveryPath.Proofs.ClipRanges
import DeliveryPath.Proofs.LoneParameter
import DeliveryPath.Proofs.NamedReferences
import DeliveryPath.Proofs.CombinedParameters
import DeliveryPath.Proofs.TagSizes
import DeliveryPath.Proofs.Documents
import DeliveryPath.Proofs.NameReplacement
import DeliveryPath.Proofs.TwoPlaces
import DeliveryPath.Proofs.LayerFields
