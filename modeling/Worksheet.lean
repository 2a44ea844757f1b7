import Worksheet.Session.Step
import Worksheet.Proofs.References
import Worksheet.Proofs.Agreement
import Worksheet.Proofs.WellFormed
import Worksheet.Proofs.Reachable
import Worksheet.Proofs.CutOff
import Worksheet.Proofs.Reads
import Worksheet.Proofs.AdHoc
import Worksheet.Proofs.RoundTrip
import Worksheet.Proofs.Independence
import Worksheet.Proofs.Dependents
import Worksheet.Proofs.Detail
import Worksheet.Proofs.Numeral
import Worksheet.Proofs.Replacement
import Worksheet.Proofs.Blame
import Worksheet.Proofs.Partition
import Worksheet.Proofs.Layout
import Worksheet.Proofs.Reading
import Worksheet.Proofs.PlainCycle
import Worksheet.Proofs.SelfRectangle
import Worksheet.Proofs.Once
import Worksheet.Proofs.Marked
import Worksheet.Proofs.Shown
import Worksheet.Proofs.Naming
import Worksheet.Proofs.Corners
import Worksheet.Proofs.Truthful
