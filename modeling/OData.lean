import OData.Config.Layers
import OData.Filter.Printer
import OData.Json.Reader
import OData.Problem
import OData.Proofs.Commuting
import OData.Proofs.ComparedOrder
import OData.Proofs.CutShort
import OData.Proofs.DepthLimit
import OData.Proofs.Expanding
import OData.Proofs.ExpandText
import OData.Proofs.FaultPolicy
import OData.Proofs.LinkParts
import OData.Proofs.NodeCount
import OData.Proofs.ExpandDepth
import OData.Proofs.RecordShape
import OData.Proofs.StoppedExpansion
import OData.Proofs.Readings
import OData.Proofs.Comparisons
import OData.Proofs.Membership
import OData.Proofs.PageAlgebra
import OData.Proofs.WholeNumbers
import OData.Proofs.Searching
import OData.Proofs.Joining
import OData.Proofs.TimeOrder
import OData.Proofs.Registering
import OData.Proofs.Balance
import OData.Proofs.SizeText
import OData.Proofs.EnvelopeText
