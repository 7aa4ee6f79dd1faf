import JetAlgebra.AtomicReference
import JetAlgebra.Proofs.Conversion
import JetAlgebra.Proofs.Division
import JetAlgebra.Proofs.EarlyStop
import JetAlgebra.Proofs.FrozenQuotient
import JetAlgebra.Proofs.InterleavedPolynomials
import JetAlgebra.Proofs.InverseFunctions
import JetAlgebra.Proofs.MachineRange
import JetAlgebra.Proofs.PointAngles
import JetAlgebra.Proofs.PolynomialProgram
import JetAlgebra.Proofs.PythagoreanIdentities
import JetAlgebra.Proofs.Roots
import JetAlgebra.Proofs.ScopedLimits
import JetAlgebra.Proofs.SurplusSlots
import JetAlgebra.Proofs.TangentQuotients
import JetAlgebra.Proofs.WindowSemantics
import JetAlgebra.Proofs.WrappedAgreement
import JetAlgebra.Scalar.Text
import JetAlgebra.Slots
