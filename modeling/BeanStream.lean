import BeanStream.Grammar.Forward
import BeanStream.Grammar.Text
import BeanStream.Manifest.Cache
import BeanStream.Pass
import BeanStream.Proofs.Bean.Paths
import BeanStream.Proofs.Bean.Validation
import BeanStream.Proofs.Codec.Registrations
import BeanStream.Proofs.Derive.Clauses
import BeanStream.Proofs.Derive.Options
import BeanStream.Proofs.Manifest.Precedence
import BeanStream.Proofs.Pass.Conventions
import BeanStream.Proofs.Pass.Exchange
import BeanStream.Proofs.Pass.Limit
import BeanStream.Proofs.Pass.Mirror
import BeanStream.Proofs.Pass.Omission
import BeanStream.Proofs.Pass.Origin
import BeanStream.Proofs.Pass.Raising
import BeanStream.Proofs.Pass.RoundTrip
import BeanStream.Proofs.Pass.Surroundings
import BeanStream.Proofs.Pass.Unwritable
import BeanStream.Proofs.Reading.Schema
import BeanStream.Proofs.Store.Threads
import BeanStream.Proofs.Table.Refinement
import BeanStream.Proofs.TypeHasher
import BeanStream.Proofs.Wire.Groups
import BeanStream.Proofs.Wire.Position
import BeanStream.Proofs.Wire.Rows
import BeanStream.Wire.Decoder
